import LiveDoc.Proofs.Supervisor.Sound
import Mathlib.Data.List.Induction
import Mathlib.Data.List.Infix

/-!
# LiveDoc — what becomes of a backend that shuts down

While a child shuts down callers may still start, stop and restart the backend, and its source may
change, as often as they like. The supervisor keeps no list of this; one flag says whether a new
child is wanted. The flag always tells what was wanted last, and so the exit of the child is
followed by one attempt to spawn another, or by none.

What was wanted is read off the inputs alone. A change of the source wants the backend back, unless
the last caller before it stopped the backend; then it is ignored.

* `wishes` — what was wanted in turn since the backend began to shut down.
* `TrackedSupervisor.restarts_eq` — the flag tells what was wanted last.
* `TrackedSupervisor.shutdown_collapses` — how often a child is tried when the old one is gone.
-/

namespace LiveDoc

/-! ## Wishes -/

/-- What is wanted of the backend. -/
inductive Wish where
  | gone
  | back
  deriving DecidableEq, Repr

namespace SupervisorInput

/-- What a caller wants. -/
def call? : SupervisorInput → Option Wish
  | .command (.stop _) => some .gone
  | .command (.start _) | .command (.restart _) => some .back
  | _ => none

/-- What an input wants of a backend that was stopped, or was not. -/
def wish? (isStopped : Bool) : SupervisorInput → Option Wish
  | .command .sourceChanged => if isStopped then none else some .back
  | input => input.call?

end SupervisorInput

/-- Whether the last caller who started or stopped the backend stopped it. -/
def isStoppedBehind (inputs : SupervisorInputs) : Bool :=
  (inputs.filterMap (·.1.call?)).getLast? = some .gone

/-- What was wanted in turn by inputs that came behind others. -/
def wishes (before : SupervisorInputs) : SupervisorInputs → List Wish
  | [] => []
  | input :: rest =>
    (input.1.wish? (isStoppedBehind before)).toList ++ wishes (before ++ [input]) rest

theorem wishes_concat (before since : SupervisorInputs)
    (input : SupervisorInput × Option SupervisorError) :
    wishes before (since ++ [input]) =
      wishes before since ++ (input.1.wish? (isStoppedBehind (before ++ since))).toList := by
  induction since generalizing before with
  | nil => simp [wishes]
  | cons first rest ih =>
    rw [List.cons_append, wishes, wishes, ih, List.append_assoc, List.append_assoc]
    rfl

/-- A wish that comes behind others is the last one. -/
theorem getLast?_append_toList (earlier : List Wish) (wish : Option Wish) :
    (earlier ++ wish.toList).getLast? = wish.or earlier.getLast? := by
  cases wish <;> simp

/-! ## Stops -/

namespace Supervisor

variable {s : Supervisor} {failure : Option SupervisorError}

theorem isStopped_spawn (s : Supervisor) (failure : Option SupervisorError) :
    (s.spawn failure).2.isStopped = s.isStopped := by
  cases failure <;> simp [spawn]

theorem isStopped_cycle (s : Supervisor) (failure : Option SupervisorError) :
    (s.cycle failure).2.isStopped = s.isStopped := by
  rcases s.up_or_shuttingDown_or_idle with hup | hdown | hidle
  · rw [cycle_of_up failure hup, killChild_snd]
  · rw [cycle_of_shuttingDown failure hdown]
  · rw [cycle_of_idle failure hidle, isStopped_spawn]

theorem isStopped_start (s : Supervisor) (failure : Option SupervisorError) (caller : String) :
    (s.start failure caller).2.isStopped = false := by
  rcases s.up_or_shuttingDown_or_idle with (hstarting | hrunning) | hdown | hidle
  · rw [start_of_starting failure caller hstarting]
  · rw [start_of_running failure caller hrunning]
  · rw [start_of_shuttingDown failure caller hdown]
  · rw [start_of_idle failure caller hidle, isStopped_spawn]

theorem isStopped_stop (s : Supervisor) (caller : String) : (s.stop caller).2.isStopped = true := by
  rcases s.up_or_shuttingDown_or_idle with hup | hdown | hidle
  · rw [stop_of_up caller hup, killChild_snd]
  · rw [stop_of_shuttingDown caller hdown]
  · rw [stop_of_idle caller hidle]

theorem isStopped_resume (s : Supervisor) (failure : Option SupervisorError) :
    (s.resume failure).2.isStopped = s.isStopped := by
  unfold resume
  split
  · exact isStopped_spawn _ failure
  · split <;> rfl

theorem isStopped_afterExit (s : Supervisor) (failure : Option SupervisorError)
    (code : Option Nat) (before : BackendState) :
    (s.afterExit failure code before).2.isStopped = s.isStopped := by
  cases before with
  | starting => rfl
  | running =>
    show (if s.isStopped then ([], s) else s.scheduleRespawn : Turn).2.isStopped = s.isStopped
    split <;> rfl
  | notStarted | shuttingDown | dead => exact isStopped_resume _ failure

theorem isStopped_handleChild (s : Supervisor) (failure : Option SupervisorError)
    (event : ChildEvent) : (s.handleChild failure event).2.isStopped = s.isStopped := by
  cases event with
  | ready =>
    show (if s.state = .starting then
      andThen (s.moveTo .running) (answerStarters · (.ok ())) else ([], s) : Turn).2.isStopped = _
    split
    · rw [andThen_snd, answerStarters_snd, moveTo_snd]
    · rfl
  | handshakeFailed reason => rw [handleChild_handshakeFailed, andThen_snd, killChild_snd]
  | message message => rfl
  | malformed line error => rfl
  | exited code =>
    show (({ s with child := none }.moveTo .dead).2.afterExit failure code s.state).2.isStopped = _
    rw [isStopped_afterExit, moveTo_snd]

/-- Only callers stop the backend, and take a stop back. -/
theorem isStopped_step (s : Supervisor) (failure : Option SupervisorError)
    (input : SupervisorInput) :
    (s.step failure input).2.isStopped =
      match input.call? with
      | some wish => decide (wish = .gone)
      | none => s.isStopped := by
  cases input with
  | command command =>
    cases command with
    | start caller => exact isStopped_start s failure caller
    | stop caller => exact isStopped_stop s caller
    | restart caller => exact isStopped_cycle _ failure
    | send frame => exact congrArg Supervisor.isStopped (forward_snd s frame)
    | sourceChanged =>
      show (s.handleCommand failure .sourceChanged).2.isStopped = s.isStopped
      rcases s.sourceChanged_cases failure with ⟨-, hturn⟩ | ⟨-, hturn⟩ <;> rw [hturn]
      exact isStopped_cycle s failure
    | respawn epoch =>
      show (s.handleCommand failure (.respawn epoch)).2.isStopped = s.isStopped
      rcases s.respawn_cases failure epoch with hturn | ⟨-, hturn⟩ <;> rw [hturn]
      exact isStopped_spawn s failure
  | child generation event =>
    show (if generation = s.generation then s.handleChild failure event
      else ([], s) : Turn).2.isStopped = s.isStopped
    split
    · exact isStopped_handleChild s failure event
    · rfl
  | server event => exact congrArg Supervisor.isStopped (handleServer_snd s event)

/-! ## The flag -/

/-- Where a cycle ends with a child that shuts down, a new one is wanted. -/
theorem restarts_cycle (hdown : (s.cycle failure).2.state = .shuttingDown) :
    (s.cycle failure).2.restarts = true := by
  rcases s.up_or_shuttingDown_or_idle with hup | hstate | hidle
  · rw [cycle_of_up failure hup, killChild_snd]
  · rw [cycle_of_shuttingDown failure hstate]
  · rw [cycle_of_idle failure hidle] at hdown
    rcases state_spawn { s with epoch := s.epoch + 1 } failure with hspawn | hspawn <;>
      rw [hspawn] at hdown <;> cases hdown

theorem restarts_start {caller : String}
    (hdown : (s.start failure caller).2.state = .shuttingDown) :
    (s.start failure caller).2.restarts = true := by
  rcases s.up_or_shuttingDown_or_idle with (hstarting | hrunning) | hstate | hidle
  · rw [start_of_starting failure caller hstarting] at hdown
    rw [show s.state = .shuttingDown from hdown] at hstarting
    cases hstarting
  · rw [start_of_running failure caller hrunning] at hdown
    rw [show s.state = .shuttingDown from hdown] at hrunning
    cases hrunning
  · rw [start_of_shuttingDown failure caller hstate]
  · rw [start_of_idle failure caller hidle] at hdown
    rcases state_spawn { s with isStopped := false, starters := s.starters ++ [caller] } failure
      with hspawn | hspawn <;> rw [hspawn] at hdown <;> cases hdown

theorem restarts_stop (s : Supervisor) (caller : String) : (s.stop caller).2.restarts = false := by
  rcases s.up_or_shuttingDown_or_idle with hup | hdown | hidle
  · rw [stop_of_up caller hup, killChild_snd]
  · rw [stop_of_shuttingDown caller hdown]
  · rw [stop_of_idle caller hidle]

theorem restarts_handleCommand {command : SupervisorCommand}
    (hdown : (s.handleCommand failure command).2.state = .shuttingDown) :
    (s.handleCommand failure command).2.restarts =
      match (SupervisorInput.command command).wish? s.isStopped with
      | some wish => decide (wish = .back)
      | none => s.restarts := by
  cases command with
  | start caller => exact restarts_start hdown
  | stop caller => exact restarts_stop s caller
  | restart caller => exact restarts_cycle hdown
  | send frame => exact congrArg Supervisor.restarts (forward_snd s frame)
  | sourceChanged =>
    rcases s.sourceChanged_cases failure with ⟨hstopped, hturn⟩ | ⟨hstopped, hturn⟩
    · rw [hturn, SupervisorInput.wish?, if_pos hstopped]
    · rw [hturn] at hdown ⊢
      rw [SupervisorInput.wish?, hstopped]
      exact restarts_cycle hdown
  | respawn epoch =>
    rcases s.respawn_cases failure epoch with hturn | ⟨-, hturn⟩ <;> rw [hturn] at hdown ⊢
    · rfl
    · rcases state_spawn s failure with hspawn | hspawn <;> rw [hspawn] at hdown <;> cases hdown

theorem state_afterExit (hdead : s.state = .dead) (code : Option Nat) (before : BackendState) :
    (s.afterExit failure code before).2.state = .starting ∨
      (s.afterExit failure code before).2.state = .dead := by
  cases before with
  | starting => exact .inr hdead
  | running =>
    show (if s.isStopped then ([], s) else s.scheduleRespawn : Turn).2.state = .starting ∨
      (if s.isStopped then ([], s) else s.scheduleRespawn : Turn).2.state = .dead
    split <;> exact .inr hdead
  | notStarted | shuttingDown | dead =>
    rcases resume_cases (s := s.acknowledgeStoppers.2) hdead failure with ⟨hstate, -⟩ | ⟨hstate, -⟩
    · exact hstate
    · exact .inr hstate

/-- Behind an exit a new child is up, or there is none. -/
theorem state_handleExit (s : Supervisor) (failure : Option SupervisorError) (code : Option Nat) :
    (s.handleExit failure code).2.state = .starting ∨
      (s.handleExit failure code).2.state = .dead :=
  state_afterExit (by rw [moveTo_snd]) code s.state

/-- A report other than an exit leaves the flag as it is. -/
theorem restarts_handleChild {event : ChildEvent} (hevent : ∀ code, event ≠ .exited code) :
    (s.handleChild failure event).2.restarts = s.restarts := by
  cases event with
  | ready =>
    show (if s.state = .starting then
      andThen (s.moveTo .running) (answerStarters · (.ok ())) else ([], s) : Turn).2.restarts = _
    split
    · rw [andThen_snd, answerStarters_snd, moveTo_snd]
    · rfl
  | handshakeFailed reason => rw [handleChild_handshakeFailed, andThen_snd, killChild_snd]
  | message message => rfl
  | malformed line error => rfl
  | exited code => exact absurd rfl (hevent code)

end Supervisor

/-! ## Attempts -/

/-- Whether an effect tells that a child is tried. -/
def SupervisorEffect.isAttempt : SupervisorEffect → Bool
  | .notify (.stateChanged _ .starting) => true
  | _ => false

/-- How often a child is tried. -/
def attempts (effects : List SupervisorEffect) : Nat := effects.countP (·.isAttempt)

theorem attempts_append (effects more : List SupervisorEffect) :
    attempts (effects ++ more) = attempts effects + attempts more :=
  List.countP_append

theorem attempts_map_answer (callers : List String) (outcome : Except SupervisorError Unit) :
    attempts (callers.map (.answer · outcome)) = 0 := by
  refine List.countP_eq_zero.mpr fun effect hmem => ?_
  obtain ⟨caller, -, rfl⟩ := List.mem_map.mp hmem
  exact Bool.false_ne_true

theorem attempts_map_acknowledge (callers : List String) :
    attempts (callers.map .acknowledge) = 0 := by
  refine List.countP_eq_zero.mpr fun effect hmem => ?_
  obtain ⟨caller, -, rfl⟩ := List.mem_map.mp hmem
  exact Bool.false_ne_true

namespace Supervisor

variable {s : Supervisor}

theorem attempts_spawn (hidle : s.state ≠ .starting) (failure : Option SupervisorError) :
    attempts (s.spawn failure).1 = 1 := by
  cases failure with
  | none =>
    rw [spawn_none hidle]
    rfl
  | some error =>
    rw [spawn_some hidle]
    show attempts ([.notify (.stateChanged s.state .starting),
      .notify (.stateChanged .starting .dead)] ++ s.starters.map _) = 1
    rw [attempts_append, attempts_map_answer]
    rfl

/-- Behind the exit of a child that shut down one is tried if a new one is wanted. -/
theorem handleExit_collapses (hdown : s.state = .shuttingDown) (failure : Option SupervisorError)
    (code : Option Nat) :
    attempts (s.handleExit failure code).1 = s.restarts.toNat ∧
      (s.handleExit failure code).2.generation = s.generation + s.restarts.toNat := by
  have hacknowledged : attempts
      (.notify (.stateChanged .shuttingDown .dead) :: s.stoppers.map .acknowledge) = 0 := by
    show attempts ([.notify (.stateChanged .shuttingDown .dead)] ++ _) = 0
    rw [attempts_append, attempts_map_acknowledge]
    rfl
  rw [handleExit_of_shuttingDown failure code hdown, andThen_fst, andThen_snd, attempts_append,
    hacknowledged, Nat.zero_add, resume]
  split
  · next hrestarts =>
    rw [show s.restarts = true from hrestarts, generation_spawn]
    exact ⟨attempts_spawn (fun h => by cases h) failure, rfl⟩
  · next hrestarts =>
    rw [show s.restarts = false from Bool.eq_false_iff.mpr hrestarts]
    split
    · exact ⟨attempts_map_answer _ _, rfl⟩
    · exact ⟨rfl, rfl⟩

end Supervisor

/-! ## Shutdowns -/

namespace TrackedSupervisor

variable {h : TrackedSupervisor} {input : SupervisorInput} {failure : Option SupervisorError}
  {inputs before since : SupervisorInputs}

/-- The backend shuts down behind inputs, and has done so since the first of them; it did not behind
those before. -/
structure ShutDownSince (before since : SupervisorInputs) : Prop where
  elsewhere : (after {} before).supervisor.state ≠ .shuttingDown
  stays : ∀ soFar, soFar <+: since → soFar ≠ [] →
    (after {} (before ++ soFar)).supervisor.state = .shuttingDown

theorem after_concat (h : TrackedSupervisor) (inputs : SupervisorInputs) :
    h.after (inputs ++ [(input, failure)]) = (h.after inputs).next failure input :=
  after_append h inputs [(input, failure)]

/-- Whether the backend is stopped tells what the last caller wanted. -/
theorem isStopped_after (inputs : SupervisorInputs) :
    (after {} inputs).supervisor.isStopped = isStoppedBehind inputs := by
  induction inputs using List.reverseRecOn with
  | nil => rfl
  | append_singleton inputs input ih =>
    obtain ⟨input, failure⟩ := input
    have hcalls : ((inputs ++ [(input, failure)]).filterMap (·.1.call?)).getLast? =
        input.call?.or (inputs.filterMap (·.1.call?)).getLast? := by
      rw [List.filterMap_append, ← getLast?_append_toList]
      cases hcall : input.call? <;> simp [hcall]
    rw [after_concat, next, Supervisor.isStopped_step, isStoppedBehind, hcalls, ih, isStoppedBehind]
    cases input.call? with
    | none => rfl
    | some wish => simp

/-- While a child shuts down, an input that wants something decides on the flag, and any other
leaves it as it is. -/
theorem Sound.restarts_next (hs : h.Sound) (hadmits : h.admits input)
    (hdown : (h.next failure input).supervisor.state = .shuttingDown) :
    (h.next failure input).supervisor.restarts =
      match input.wish? h.supervisor.isStopped with
      | some wish => decide (wish = .back)
      | none => h.supervisor.restarts := by
  cases input with
  | command command => exact Supervisor.restarts_handleCommand hdown
  | server event => exact congrArg Supervisor.restarts (Supervisor.handleServer_snd _ event)
  | child generation event =>
    rw [TrackedSupervisor.next, hs.step_child hadmits] at hdown ⊢
    refine Supervisor.restarts_handleChild fun code hexit => ?_
    -- A child that exited does not shut down any more.
    subst hexit
    rcases h.supervisor.state_handleExit failure code with hstate | hstate <;>
      rw [Supervisor.handleChild, hstate] at hdown <;> cases hdown

/-- The flag tells what was wanted last since the backend began to shut down. -/
theorem restarts_eq (orderly : Orderly {} (before ++ since)) (hsince : ShutDownSince before since) :
    (after {} (before ++ since)).supervisor.restarts =
      decide ((wishes before since).getLast? = some .back) := by
  induction since using List.reverseRecOn with
  | nil =>
    rw [List.append_nil] at orderly ⊢
    have hs : (after {} before).Sound := Sound.initial.after orderly
    refine Bool.eq_false_iff.mpr fun hrestarts => ?_
    exact hsince.elsewhere (hs.consistent.restarts hrestarts).1
  | append_singleton since input ih =>
    obtain ⟨input, failure⟩ := input
    rw [← List.append_assoc] at orderly ⊢
    obtain ⟨horderly, hadmits, -⟩ := orderly_append.mp orderly
    have hs : (after {} (before ++ since)).Sound := Sound.initial.after horderly
    have hdown := hsince.stays _ (List.prefix_refl _) (by simp)
    rw [← List.append_assoc, after_concat] at hdown
    have hearlier : ShutDownSince before since := by
      refine ⟨hsince.elsewhere, fun soFar hpart => ?_⟩
      exact hsince.stays soFar (hpart.trans (since.prefix_append _))
    rw [after_concat, hs.restarts_next hadmits hdown, isStopped_after, ih horderly hearlier,
      wishes_concat, getLast?_append_toList]
    cases input.wish? (isStoppedBehind (before ++ since)) with
    | none => rfl
    | some wish => simp

/-- Wherever the backend shuts down it began to do so. -/
theorem exists_shutDownSince (hdown : (after {} inputs).supervisor.state = .shuttingDown) :
    ∃ before since, inputs = before ++ since ∧ ShutDownSince before since := by
  induction inputs using List.reverseRecOn with
  | nil => cases hdown
  | append_singleton inputs input ih =>
    by_cases hearlier : (after {} inputs).supervisor.state = .shuttingDown
    · obtain ⟨before, since, rfl, hsince⟩ := ih hearlier
      refine ⟨before, since ++ [input], List.append_assoc .., hsince.elsewhere, ?_⟩
      intro soFar hpart hne
      rcases List.prefix_concat_iff.mp hpart with rfl | hpart
      · rwa [List.append_assoc] at hdown
      · exact hsince.stays soFar hpart hne
    · refine ⟨inputs, [input], rfl, hearlier, fun soFar hpart hne => ?_⟩
      obtain rfl | ⟨rest, rfl, hrest⟩ := List.prefix_cons_iff.mp hpart
      · exact absurd rfl hne
      · rwa [List.prefix_nil.mp hrest]

/-- In every run, when the backend shuts down it began to do so at one point, and when its child is
gone a new one is tried once if what was wanted last since then is that the backend comes back, and
is not tried if it was to be gone or if nothing was wanted; however much was wanted in between. -/
theorem shutdown_collapses (orderly : Orderly {} inputs)
    (hdown : (after {} inputs).supervisor.state = .shuttingDown) :
    (∃ before since, inputs = before ++ since ∧ ShutDownSince before since) ∧
      ∀ before since generation code failure,
        inputs = before ++ since → ShutDownSince before since →
        (after {} inputs).admits (.child generation (.exited code)) →
        let tried := if (wishes before since).getLast? = some .back then 1 else 0
        attempts ((after {} inputs).effects failure (.child generation (.exited code))) = tried ∧
          ((after {} inputs).next failure
              (.child generation (.exited code))).supervisor.generation =
            (after {} inputs).supervisor.generation + tried := by
  refine ⟨exists_shutDownSince hdown, ?_⟩
  rintro before since generation code failure rfl hsince hadmits tried
  have hs : (after {} (before ++ since)).Sound := Sound.initial.after orderly
  have htried : (after {} (before ++ since)).supervisor.restarts.toNat = tried := by
    rw [restarts_eq orderly hsince]
    exact apply_ite Bool.toNat _ true false
  rw [← htried, effects, next, hs.step_child hadmits]
  exact Supervisor.handleExit_collapses hdown failure code

/-- A child that runs is stopped, and its source changes, which counts for nothing. Then a caller
starts the backend, the source changes twice, and one child is tried when the old one is gone. -/
theorem shutdown_collapses_stopped_and_wanted :
    ∃ (before since : SupervisorInputs), Orderly {} (before ++ since) ∧
      ShutDownSince before since ∧ wishes before since = [.gone, .back, .back, .back] ∧
      attempts ((after {} (before ++ since)).effects none (.child 1 (.exited none))) = 1 ∧
      ((after {} (before ++ since)).next none
        (.child 1 (.exited none))).supervisor.generation = 2 := by
  let before : SupervisorInputs := [(.command (.start "a"), none), (.child 1 .ready, none)]
  let since : SupervisorInputs := [(.command (.stop "b"), none), (.command .sourceChanged, none),
    (.command (.start "c"), none), (.command .sourceChanged, none), (.command .sourceChanged, none)]
  have orderly : Orderly {} (before ++ since) := by decide
  have hsince : ShutDownSince before since := by
    have hstays : ∀ soFar ∈ since.inits, soFar ≠ [] →
        (after {} (before ++ soFar)).supervisor.state = .shuttingDown := by decide
    refine ⟨by decide, fun soFar hpart => hstays soFar ?_⟩
    exact (List.mem_inits soFar since).mpr hpart
  obtain ⟨-, hexit⟩ := shutdown_collapses orderly (by decide)
  obtain ⟨hattempts, hgeneration⟩ :=
    hexit before since 1 none none rfl hsince (by decide)
  exact ⟨before, since, orderly, hsince, rfl, hattempts, hgeneration⟩

end TrackedSupervisor

end LiveDoc
