import LiveDoc.Proofs.Supervisor.Turns

/-!
# LiveDoc — what the effects of a supervisor show

Whoever sees the effects of a supervisor in turn, and the exits of its children, knows its state and
its child without looking at it. The effects always fit what is known so far: each change of state
starts from the last state and is allowed, and a child is spawned, or a stop acknowledged, only
where no child exists.

* `Observation.follow` — what is known behind effects that fit.
* `Observation.leads_of_follow` — the changes of state in such effects lead from one to the next.
* `Supervisor.shows_handleCommand`, `Supervisor.shows_handleExit`, `Supervisor.shows_handleChild`,
  `Supervisor.shows_handleServer` — effects fit.
-/

namespace LiveDoc

/-! ## Observations -/

/-- What an observer of the effects knows: the state that was told last, and the child there is. -/
structure Observation where
  state : BackendState := .notStarted
  child : Option Nat := none
  deriving DecidableEq, Repr

namespace Observation

/-- What is known behind an effect, if the effect fits: a state changes to one that it can become, a
child is spawned where none exists, and a stop is acknowledged where none exists. -/
def see (v : Observation) : SupervisorEffect → Option Observation
  | .notify (.stateChanged before after) =>
    if before = v.state ∧ before.canBecome after then some { v with state := after } else none
  | .spawned generation => if v.child = none then some { v with child := some generation } else none
  | .acknowledge _ => if v.child = none then some v else none
  | _ => some v

def follow (v : Observation) (effects : List SupervisorEffect) : Option Observation :=
  effects.foldlM see v

variable {v v' : Observation} {effects : List SupervisorEffect}

theorem follow_append (v : Observation) (effects more : List SupervisorEffect) :
    v.follow (effects ++ more) = (v.follow effects).bind (·.follow more) :=
  List.foldlM_append

theorem follow_cons (v : Observation) (effect : SupervisorEffect) (rest : List SupervisorEffect) :
    v.follow (effect :: rest) = (v.see effect).bind (·.follow rest) :=
  List.foldlM_cons

/-- Effects that tell nothing of state and child. -/
theorem follow_of_see (h : ∀ effect ∈ effects, v.see effect = some v) :
    v.follow effects = some v := by
  induction effects with
  | nil => rfl
  | cons effect rest ih =>
    rw [follow_cons, h effect List.mem_cons_self, Option.bind_some]
    exact ih fun effect hmem => h effect (List.mem_cons_of_mem _ hmem)

/-- Answers to those who start the backend tell nothing of state and child. -/
theorem follow_answers (v : Observation) (callers : List String)
    (outcome : Except SupervisorError Unit) :
    v.follow (callers.map (.answer · outcome)) = some v := by
  refine follow_of_see fun effect hmem => ?_
  obtain ⟨caller, -, rfl⟩ := List.mem_map.mp hmem
  rfl

/-- A kill does not take the child away; only its exit does. -/
theorem follow_kills (v : Observation) (children : List Nat) :
    v.follow (children.map .kill) = some v := by
  refine follow_of_see fun effect hmem => ?_
  obtain ⟨generation, -, rfl⟩ := List.mem_map.mp hmem
  rfl

/-- Who stopped the backend may be answered where no child exists. -/
theorem follow_acknowledgements (h : v.child = none) (callers : List String) :
    v.follow (callers.map .acknowledge) = some v := by
  refine follow_of_see fun effect hmem => ?_
  obtain ⟨caller, -, rfl⟩ := List.mem_map.mp hmem
  exact if_pos h

theorem follow_relays (v : Observation) (relays : List Relay) :
    v.follow (relays.map .relay) = some v := by
  refine follow_of_see fun effect hmem => ?_
  obtain ⟨relay, -, rfl⟩ := List.mem_map.mp hmem
  rfl

end Observation

/-! ## Changes of state -/

/-- The changes of state that effects tell of. -/
def changes (effects : List SupervisorEffect) : List (BackendState × BackendState) :=
  effects.filterMap fun
    | .notify (.stateChanged before after) => some (before, after)
    | _ => none

/-- Changes lead from a state to another if each starts in the state that the last one ended in, and
is allowed. -/
def BackendState.Leads : BackendState → List (BackendState × BackendState) → BackendState → Prop
  | state, [], last => state = last
  | state, (before, after) :: rest, last =>
    before = state ∧ before.canBecome after = true ∧ after.Leads rest last

/-- Changes that lead on from where others ended lead on from their start. -/
theorem BackendState.Leads.append {a b c : BackendState}
    {changes more : List (BackendState × BackendState)} (h : a.Leads changes b)
    (hmore : b.Leads more c) : a.Leads (changes ++ more) c := by
  induction changes generalizing a with
  | nil =>
    cases h
    exact hmore
  | cons change rest ih => exact ⟨h.1, h.2.1, ih h.2.2⟩

/-- Effects that can be followed tell of changes that lead from the state known before to the one
known then. -/
theorem Observation.leads_of_follow {v v' : Observation} {effects : List SupervisorEffect}
    (h : v.follow effects = some v') : v.state.Leads (changes effects) v'.state := by
  induction effects generalizing v with
  | nil =>
    cases h
    exact rfl
  | cons effect rest ih =>
    rw [follow_cons, Option.bind_eq_some_iff] at h
    obtain ⟨v₁, hsee, hfollow⟩ := h
    have hrest := ih hfollow
    cases effect with
    | notify event =>
      cases event with
      | stateChanged before after =>
        simp only [Observation.see, Option.ite_none_right_eq_some, Option.some.injEq] at hsee
        obtain ⟨⟨hbefore, hbecome⟩, rfl⟩ := hsee
        exact ⟨hbefore, hbecome, hrest⟩
      | rpcResponse response | crashed code duringStart => cases hsee; exact hrest
    | spawned generation | acknowledge caller =>
      simp only [Observation.see, Option.ite_none_right_eq_some, Option.some.injEq] at hsee
      obtain ⟨-, rfl⟩ := hsee
      exact hrest
    | kill generation | write generation frame | answer caller outcome | respawnLater epoch
    | relay relay => cases hsee; exact hrest

/-! ## Turns that an observer can follow -/

namespace Supervisor

def observation (s : Supervisor) : Observation := { state := s.state, child := s.child }

/-- An observer can follow a turn, and knows the supervisor then. -/
def Shows (s : Supervisor) (t : Turn) : Prop := s.observation.follow t.1 = some t.2.observation

variable {s : Supervisor} {failure : Option SupervisorError}

theorem Shows.andThen {t : Turn} {f : Supervisor → Turn} (h : s.Shows t) (hf : t.2.Shows (f t.2)) :
    s.Shows (andThen t f) := by
  show s.observation.follow (t.1 ++ (f t.2).1) = some (f t.2).2.observation
  rw [Observation.follow_append, h]
  exact hf

/-- A spawn may come where no process is left and no child is known, and an observer sees how it
ends. -/
theorem shows_spawn (hidle : s.state.hasProcess = false) (hchild : s.child = none) :
    s.Shows (s.spawn failure) := by
  have hbecome : s.state.canBecome .starting = true := by
    cases hstate : s.state <;> rw [hstate] at hidle <;> first | rfl | cases hidle
  cases failure with
  | none =>
    rw [spawn_none (ne_of_idle hidle).1]
    simp [Shows, Observation.follow, Observation.see, observation, hchild, hbecome]
  | some error =>
    have hdies : BackendState.canBecome .starting .dead = true := rfl
    rw [spawn_some (ne_of_idle hidle).1]
    simp [Shows, Observation.follow_cons, Observation.see, observation, hbecome, hdies,
      Observation.follow_answers]

/-- A kill may come where a process is left, and is told as a change of state only once. -/
theorem shows_killChild (hprocess : s.state.hasProcess = true) : s.Shows s.killChild := by
  by_cases hdown : s.state = .shuttingDown
  · rw [killChild_of_shuttingDown hdown]
    exact Observation.follow_kills _ _
  · have hbecome : s.state.canBecome .shuttingDown = true := by
      cases hstate : s.state <;> simp_all [BackendState.hasProcess, BackendState.canBecome]
    rw [killChild_of_ne hdown, Shows, Observation.follow_append, Observation.follow_kills]
    simp [Observation.follow, Observation.see, observation, hbecome]

/-- A cycle can be followed in every state, provided that no child is left where no process is. -/
theorem shows_cycle (hchild : s.state.hasProcess = false → s.child = none) :
    s.Shows (s.cycle failure) := by
  rcases s.up_or_shuttingDown_or_idle with hup | hdown | hidle
  · rw [cycle_of_up failure hup]
    exact shows_killChild (s := { s with epoch := s.epoch + 1, restarts := true })
      (hasProcess_of_up hup)
  · rw [cycle_of_shuttingDown failure hdown]
    rfl
  · rw [cycle_of_idle failure hidle]
    exact shows_spawn (s := { s with epoch := s.epoch + 1 }) hidle (hchild hidle)

/-- A start can be followed in every state, provided that no child is left where no process is. -/
theorem shows_start (hchild : s.state.hasProcess = false → s.child = none) (caller : String) :
    s.Shows (s.start failure caller) := by
  rcases s.up_or_shuttingDown_or_idle with (hstarting | hrunning) | hdown | hidle
  · rw [start_of_starting failure caller hstarting]
    rfl
  · rw [start_of_running failure caller hrunning]
    rfl
  · rw [start_of_shuttingDown failure caller hdown]
    rfl
  · rw [start_of_idle failure caller hidle]
    exact shows_spawn (s := { s with isStopped := false, starters := s.starters ++ [caller] }) hidle
      (hchild hidle)

/-- A stop is acknowledged at once only where no child is left. -/
theorem shows_stop (hchild : s.state.hasProcess = false → s.child = none) (caller : String) :
    s.Shows (s.stop caller) := by
  rcases s.up_or_shuttingDown_or_idle with hup | hdown | hidle
  · rw [stop_of_up caller hup]
    let s' : Supervisor := { s with
      isStopped := true, restarts := false, epoch := s.epoch + 1
      stoppers := s.stoppers ++ [caller] }
    exact shows_killChild (s := s') (hasProcess_of_up hup)
  · rw [stop_of_shuttingDown caller hdown]
    rfl
  · rw [stop_of_idle caller hidle]
    simp [Shows, Observation.follow, Observation.see, observation, hchild hidle]

theorem shows_forward (s : Supervisor) (frame : ChannelFrame) : s.Shows (s.forward frame) := by
  unfold forward
  split <;> rfl

theorem shows_handleCommand (hchild : s.state.hasProcess = false → s.child = none)
    (command : SupervisorCommand) : s.Shows (s.handleCommand failure command) := by
  cases command with
  | start caller => exact shows_start hchild caller
  | stop caller => exact shows_stop hchild caller
  | restart caller =>
    let s' : Supervisor := { s with isStopped := false, starters := s.starters ++ [caller] }
    exact shows_cycle (s := s') hchild
  | send frame => exact shows_forward s frame
  | sourceChanged =>
    rcases s.sourceChanged_cases failure with ⟨-, hturn⟩ | ⟨-, hturn⟩ <;> rw [hturn]
    · rfl
    · exact shows_cycle hchild
  | respawn epoch =>
    rcases s.respawn_cases failure epoch with hturn | ⟨⟨-, hdead, -⟩, hturn⟩ <;> rw [hturn]
    · rfl
    · have hidle : s.state.hasProcess = false := by rw [hdead]; rfl
      exact shows_spawn hidle (hchild hidle)

/-- What follows a child that has shut down starts from where none exists. -/
theorem shows_resume (hdead : s.state = .dead) (hchild : s.child = none) :
    s.Shows (s.resume failure) := by
  unfold resume
  split
  · exact shows_spawn (s := { s with restarts := false }) (by rw [hdead]; rfl) hchild
  · split
    · exact Observation.follow_answers _ _ _
    · rfl

/-- An exit is handled when the child exists no more. -/
theorem shows_handleExit (hup : s.state = .running → s.isStopped = false)
    (hprocess : s.state.hasProcess = true) (code : Option Nat) :
    ({ s with child := none } : Supervisor).Shows (s.handleExit failure code) := by
  have hdies : s.state.canBecome .dead = true := by
    cases hstate : s.state <;> rw [hstate] at hprocess <;> first | rfl | cases hprocess
  rcases up_or_shuttingDown hprocess with (hstarting | hrunning) | hdown
  · rw [hstarting] at hdies
    rw [handleExit_of_starting failure code hstarting]
    simp [Shows, Observation.follow_cons, Observation.see, observation, hstarting, hdies,
      Observation.follow_answers]
  · rw [hrunning] at hdies
    rw [handleExit_of_running failure code hrunning (hup hrunning)]
    simp [Shows, Observation.follow, Observation.see, observation, hrunning, hdies]
  · rw [hdown] at hdies
    rw [handleExit_of_shuttingDown failure code hdown]
    refine Shows.andThen ?_ (shows_resume rfl rfl)
    simp [Shows, Observation.follow_cons, Observation.see, observation, hdown, hdies,
      Observation.follow_acknowledgements]

/-- What the child says changes nothing that an observer knows. -/
theorem shows_dispatch (s : Supervisor) (message : Message) : s.Shows (s.dispatch message) := by
  unfold dispatch
  rw [Shows, Observation.follow_append, Observation.follow_relays]
  split <;> rfl

theorem shows_handleServer (s : Supervisor) (event : ServerEvent) :
    s.Shows (s.handleServer event) := by
  unfold handleServer
  split
  · split
    · exact shows_forward s _
    · rfl
  · exact Observation.follow_relays _ _

/-- Every report of a child but its exit can be followed while a process exists. -/
theorem shows_handleChild (hprocess : s.state.hasProcess = true) {event : ChildEvent}
    (hevent : ∀ code, event ≠ .exited code) : s.Shows (s.handleChild failure event) := by
  cases event with
  | ready =>
    by_cases hstarting : s.state = .starting
    · have hrises : BackendState.canBecome .starting .running = true := rfl
      rw [handleChild_ready_of_starting failure hstarting]
      simp [Shows, Observation.follow_cons, Observation.see, observation, hstarting, hrises,
        Observation.follow_answers]
    · rw [handleChild_ready_of_ne failure hstarting]
      rfl
  | handshakeFailed reason =>
    rw [handleChild_handshakeFailed]
    exact Shows.andThen (Observation.follow_answers _ _ _)
      (shows_killChild (s := { s with starters := [] }) hprocess)
  | message message => exact shows_dispatch s message
  | malformed line error => rfl
  | exited code => exact absurd rfl (hevent code)

end Supervisor

end LiveDoc
