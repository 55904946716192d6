import LiveDoc.Proofs.Supervisor.Cause
import LiveDoc.Proofs.Supervisor.Consistency
import LiveDoc.Proofs.Supervisor.Transitions
import LiveDoc.Proofs.Supervisor.Tracked
import LiveDoc.Proofs.Supervisor.Observation

/-!
# LiveDoc — the invariant of a supervisor

If the children of a supervisor report in order, the child that it knows is the one whose process
exists, so a report is never one of an older child. From this it follows by induction on the inputs
that the fields of the supervisor always agree, and that an observer can follow all of its effects.

* `TrackedSupervisor.Sound` — the fields agree, and the child that is known is the one that exists.
* `TrackedSupervisor.Sound.next`, `TrackedSupervisor.Sound.after` — every input that may come keeps
  that.
* `TrackedSupervisor.Sound.transition`, `TrackedSupervisor.Sound.ages`,
  `TrackedSupervisor.Sound.cause` — what an input may come to, and why an effect comes with it.
-/

namespace LiveDoc

/-! ## Children that are known -/

/-- The child that is known is the one whose process exists. -/
def Observation.Knows (v : Observation) (reporting : Nat → Reporting) : Prop :=
  ∀ generation, (reporting generation).isPresent = true ↔ v.child = some generation

namespace Observation

variable {v v' : Observation} {reporting : Nat → Reporting} {effects : List SupervisorEffect}

/-- An observer knows whether a child is left to report. -/
theorem Knows.vacant_iff (h : v.Knows reporting) :
    TrackedSupervisor.Vacant reporting ↔ v.child = none := by
  constructor
  · intro hvacant
    cases hchild : v.child with
    | none => rfl
    | some generation =>
      have hpresent := (h generation).mpr hchild
      rw [hvacant generation] at hpresent
      cases hpresent
  · intro hchild generation
    rw [← Bool.not_eq_true, h generation, hchild]
    nofun

/-- An effect that fits tells an observer of the children what it tells one of the states. -/
theorem Knows.see {effect : SupervisorEffect} (h : v.Knows reporting)
    (hsee : v.see effect = some v') : v'.Knows (TrackedSupervisor.notice reporting effect) := by
  cases effect with
  | spawned generation =>
    simp only [Observation.see, Option.ite_none_right_eq_some, Option.some.injEq] at hsee
    obtain ⟨hchild, rfl⟩ := hsee
    intro g
    show (Function.update reporting generation .silent g).isPresent = true ↔
      some generation = some g
    rw [Function.update_apply]
    split
    · next hg => simp [Reporting.isPresent, hg]
    · next hg =>
      rw [h g, hchild]
      simp [Ne.symm hg]
  | notify event =>
    cases event with
    | stateChanged before after =>
      simp only [Observation.see, Option.ite_none_right_eq_some, Option.some.injEq] at hsee
      obtain ⟨-, rfl⟩ := hsee
      exact h
    | rpcResponse response | crashed code duringStart => cases hsee; exact h
  | acknowledge caller =>
    simp only [Observation.see, Option.ite_none_right_eq_some, Option.some.injEq] at hsee
    obtain ⟨-, rfl⟩ := hsee
    exact h
  | kill generation | write generation frame | answer caller outcome | respawnLater epoch
  | relay relay => cases hsee; exact h

theorem Knows.follow (h : v.Knows reporting) (hfollow : v.follow effects = some v') :
    v'.Knows (effects.foldl TrackedSupervisor.notice reporting) := by
  induction effects generalizing v reporting with
  | nil =>
    cases hfollow
    exact h
  | cons effect rest ih =>
    rw [follow_cons, Option.bind_eq_some_iff] at hfollow
    obtain ⟨v₁, hsee, hfollow⟩ := hfollow
    exact ih (h.see hsee) hfollow

end Observation

/-- Effects that an observer can follow spawn a child, and acknowledge a stop, where no child
exists. -/
theorem Observation.vacant_of_follow {v v' : Observation} {reporting : Nat → Reporting}
    {effects before rest : List SupervisorEffect} {effect : SupervisorEffect}
    (h : v.Knows reporting) (hfollow : v.follow effects = some v')
    (hsplit : effects = before ++ effect :: rest)
    (hneeds : (∃ g, effect = .spawned g) ∨ ∃ caller, effect = .acknowledge caller) :
    TrackedSupervisor.Vacant (before.foldl TrackedSupervisor.notice reporting) := by
  rw [hsplit, follow_append, Option.bind_eq_some_iff] at hfollow
  obtain ⟨w, hbefore, hfollow⟩ := hfollow
  rw [follow_cons, Option.bind_eq_some_iff] at hfollow
  obtain ⟨w', hsee, -⟩ := hfollow
  refine (h.follow hbefore).vacant_iff.mpr ?_
  rcases hneeds with ⟨g, rfl⟩ | ⟨caller, rfl⟩ <;>
    simp only [Observation.see, Option.ite_none_right_eq_some] at hsee <;>
    exact hsee.1

/-! ## The invariant -/

/-- What is known of a supervisor once an input has come: a child that exited exists no more. -/
def Supervisor.observationBehind (s : Supervisor) : SupervisorInput → Observation
  | .child _ (.exited _) => { s.observation with child := none }
  | _ => s.observation

namespace TrackedSupervisor

/-- The invariant of a supervisor: its fields agree, its child is the one that exists,
and one that runs has reported. -/
structure Sound (h : TrackedSupervisor) : Prop where
  consistent : h.supervisor.Consistent
  knows : h.supervisor.observation.Knows h.reporting
  talking : h.supervisor.state = .running → h.reporting h.supervisor.generation = .talking

variable {h : TrackedSupervisor} {input : SupervisorInput} {failure : Option SupervisorError}

theorem Sound.initial : Sound {} where
  consistent := .initial
  knows generation := by simp [Reporting.isPresent, Supervisor.observation]
  talking := nofun

/-- Only the child that exists reports anything. -/
theorem Sound.of_admits (hs : h.Sound) {generation : Nat} {event : ChildEvent}
    (hadmits : h.admits (.child generation event)) :
    generation = h.supervisor.generation ∧ h.supervisor.state.hasProcess = true ∧
      h.supervisor.child = some generation := by
  have hpresent : (h.reporting generation).isPresent = true := by
    have hadmits' : (h.reporting generation).admits event = true := hadmits
    cases hreporting : h.reporting generation <;> rw [hreporting] at hadmits' <;>
      first | rfl | cases hadmits'
  have hchild : h.supervisor.child = some generation := (hs.knows generation).mp hpresent
  have hsome := hs.consistent.child
  rw [hchild] at hsome
  split at hsome
  · next hprocess => exact ⟨Option.some.inj hsome, hprocess, hchild⟩
  · cases hsome

/-- A report that can come is one of the current child. -/
theorem Sound.step_child (hs : h.Sound) {generation : Nat} {event : ChildEvent}
    (hadmits : h.admits (.child generation event)) :
    h.supervisor.step failure (.child generation event) =
      h.supervisor.handleChild failure event := by
  rw [Supervisor.step, if_pos (hs.of_admits hadmits).1]

theorem Sound.isStopped_of_running (hs : h.Sound) (hrunning : h.supervisor.state = .running) :
    h.supervisor.isStopped = false :=
  (hs.consistent.up (.inr hrunning)).2.1

/-- No child is left where no process is. -/
theorem Sound.child_of_idle (hs : h.Sound) (hidle : h.supervisor.state.hasProcess = false) :
    h.supervisor.child = none :=
  (hs.consistent.idle hidle).1

/-- An observer can follow what the supervisor does about an input. -/
theorem Sound.follow (hs : h.Sound) (hadmits : h.admits input) :
    (h.supervisor.observationBehind input).follow (h.effects failure input) =
      some (h.next failure input).supervisor.observation := by
  cases input with
  | command command => exact Supervisor.shows_handleCommand hs.child_of_idle command
  | server event => exact Supervisor.shows_handleServer _ event
  | child generation event =>
    obtain ⟨-, hprocess, -⟩ := hs.of_admits hadmits
    rw [effects, next, hs.step_child hadmits]
    by_cases hexit : ∃ code, event = .exited code
    · obtain ⟨code, rfl⟩ := hexit
      exact Supervisor.shows_handleExit hs.isStopped_of_running hprocess code
    · have hevent : ∀ code, event ≠ .exited code := fun code h => hexit ⟨code, h⟩
      have hobservation : h.supervisor.observationBehind (.child generation event) =
          h.supervisor.observation := by
        cases event <;> first | rfl | exact absurd rfl (hevent _)
      rw [hobservation]
      exact Supervisor.shows_handleChild hprocess hevent

/-- When a report of an exit comes in, the child is gone for the observer as well. -/
theorem Sound.knows_hear (hs : h.Sound) (hadmits : h.admits input) :
    (h.supervisor.observationBehind input).Knows (h.hear input) := by
  cases input with
  | command command => exact hs.knows
  | server event => exact hs.knows
  | child generation event =>
    obtain ⟨-, -, hchild⟩ := hs.of_admits hadmits
    intro g
    show (Function.update h.reporting generation (.behind event) g).isPresent = true ↔ _
    have hg := hs.knows g
    have hobservation : h.supervisor.observation.child = some generation := hchild
    rw [hobservation] at hg
    rw [Function.update_apply]
    split
    · next heq =>
      subst heq
      cases event <;>
        simp [Supervisor.observationBehind, Reporting.behind, Reporting.isPresent, hobservation]
    · next hne =>
      rw [hg]
      cases event <;> simp [Supervisor.observationBehind, hobservation, Ne.symm hne]

theorem Sound.transition (hs : h.Sound) (hadmits : h.admits input)
    (failure : Option SupervisorError) :
    h.supervisor.Transition input (h.supervisor.step failure input) := by
  cases input with
  | command command => exact Supervisor.transition_handleCommand _ failure command
  | server event => exact Supervisor.transition_handleServer _ event
  | child generation event =>
    obtain ⟨rfl, hprocess, -⟩ := hs.of_admits hadmits
    rw [hs.step_child hadmits]
    refine Supervisor.transition_handleChild hs.isStopped_of_running hprocess ?_ failure
    -- The handshake of a child that runs has not failed.
    rintro hrunning reason rfl
    have hadmits' : (h.reporting h.supervisor.generation).admits (.handshakeFailed reason) = true :=
      hadmits
    rw [hs.talking hrunning] at hadmits'
    cases hadmits'

/-- Only a spawn lets a child report that did not before. -/
theorem foldl_notice_of_notMem {effects : List SupervisorEffect} {generation : Nat}
    (hquiet : .spawned generation ∉ effects) (reporting : Nat → Reporting) :
    effects.foldl notice reporting generation = reporting generation := by
  induction effects generalizing reporting with
  | nil => rfl
  | cons effect rest ih =>
    rw [List.mem_cons, not_or] at hquiet
    rw [List.foldl_cons, ih hquiet.2]
    cases effect with
    | spawned other =>
      exact Function.update_of_ne (fun heq => hquiet.1 (congrArg SupervisorEffect.spawned heq)) _ _
    | _ => rfl

theorem foldl_notice_of_quiet {effects : List SupervisorEffect}
    (quiet : ∀ g, .spawned g ∉ effects) (reporting : Nat → Reporting) :
    effects.foldl notice reporting = reporting :=
  funext fun g => foldl_notice_of_notMem (quiet g) reporting

theorem Sound.cause (hs : h.Sound) (hadmits : h.admits input) {effect : SupervisorEffect}
    (hmem : effect ∈ h.effects failure input) :
    h.supervisor.Cause failure input (h.next failure input).supervisor effect := by
  cases input with
  | command command => exact Supervisor.cause_handleCommand hmem
  | server event => exact Supervisor.cause_handleServer hmem
  | child generation event =>
    obtain ⟨rfl, hprocess, -⟩ := hs.of_admits hadmits
    rw [effects, hs.step_child hadmits] at hmem
    rw [TrackedSupervisor.next, hs.step_child hadmits]
    exact Supervisor.cause_handleChild hs.isStopped_of_running hprocess hmem

theorem Sound.ages (hs : h.Sound) (hadmits : h.admits input)
    (failure : Option SupervisorError) :
    h.supervisor.Ages input (h.supervisor.step failure input) := by
  cases input with
  | command command => exact Supervisor.ages_handleCommand _ failure command
  | server event =>
    refine Supervisor.ages_of_eq ?_ ?_ <;> rw [Supervisor.step, Supervisor.handleServer_snd]
  | child generation event =>
    obtain ⟨rfl, hprocess, -⟩ := hs.of_admits hadmits
    rw [hs.step_child hadmits]
    exact Supervisor.ages_handleChild hs.isStopped_of_running hprocess failure

/-- A turn that keeps the generation spawns nothing. -/
theorem Sound.quiet (hs : h.Sound) (hadmits : h.admits input)
    (hgeneration : (h.next failure input).supervisor.generation = h.supervisor.generation)
    (g : Nat) : .spawned g ∉ h.effects failure input := by
  intro hmem
  cases hs.cause hadmits hmem with
  | aside haside => cases haside
  | spawned spawns generation => omega

/-- Whatever may come keeps the invariant. -/
theorem Sound.next (hs : h.Sound) (hadmits : h.admits input) : (h.next failure input).Sound where
  consistent := by
    cases input with
    | command command => exact hs.consistent.handleCommand failure command
    | server event =>
      show (h.supervisor.handleServer event).2.Consistent
      rw [Supervisor.handleServer_snd]
      exact hs.consistent
    | child generation event =>
      show (h.supervisor.step failure _).2.Consistent
      rw [hs.step_child hadmits]
      exact hs.consistent.handleChild (hs.of_admits hadmits).2.1 failure event
  knows := (hs.knows_hear hadmits).follow (hs.follow hadmits)
  talking hrunning := by
    have htransition := hs.transition hadmits failure
    show ((h.effects failure input).foldl notice (h.hear input))
      (h.supervisor.step failure input).2.generation = .talking
    have hrunning' : (h.supervisor.step failure input).2.state = .running := hrunning
    cases htransition with
    | stays state generation other =>
      rw [state] at hrunning'
      rw [generation, foldl_notice_of_quiet (hs.quiet hadmits generation)]
      cases input with
      | command command => exact hs.talking hrunning'
      | server event => exact hs.talking hrunning'
      | child g event =>
        obtain ⟨rfl, -, -⟩ := hs.of_admits hadmits
        show Function.update h.reporting _ (.behind event) _ = _
        rw [Function.update_self]
        cases event <;> first | rfl | exact absurd ⟨_, _, rfl⟩ other
    | rises before state generation =>
      rw [generation, foldl_notice_of_quiet (hs.quiet hadmits generation)]
      exact Function.update_self ..
    | shutsDown before state generation epoch => rw [state] at hrunning'; cases hrunning'
    | ends state generation epoch => rw [state] at hrunning'; cases hrunning'
    | spawns before state generation =>
      rcases state with state | state <;> rw [state] at hrunning' <;> cases hrunning'

/-- Inputs that can come, in turn, lead from a sound supervisor to a sound one. -/
theorem Sound.after (hs : h.Sound) {inputs : SupervisorInputs} (orderly : h.Orderly inputs) :
    (h.after inputs).Sound := by
  refine invariant ?_ hs orderly
  exact fun _ _ _ hs hadmits => hs.next hadmits

end TrackedSupervisor

end LiveDoc
