import LiveDoc.Proofs.Supervisor.Turns

/-!
# LiveDoc — why a supervisor does something

Every effect that starts something or answers somebody has a cause: the input that the supervisor
handles, the state that it finds, and whether a spawn in its course fails.

* `Supervisor.Cause` — the causes of effects.
* `Supervisor.cause_handleCommand`, `Supervisor.cause_handleChild`,
  `Supervisor.cause_handleServer` — every effect has one.
-/

namespace LiveDoc.Supervisor

/-- Why an effect comes with an input that a supervisor handles, which leads to another. -/
inductive Cause (s : Supervisor) (failure : Option SupervisorError) (input : SupervisorInput)
    (s' : Supervisor) : SupervisorEffect → Prop where
  | aside {effect : SupervisorEffect} (aside : effect.isAside) : Cause s failure input s' effect
  | spawned (spawns : failure = none) (generation : s'.generation = s.generation + 1) :
      Cause s failure input s' (.spawned (s.generation + 1))
  | unspawned {caller : String} {error : SupervisorError} (fails : failure = some error)
      (generation : s'.generation = s.generation + 1) :
      Cause s failure input s' (.answer caller (.error error))
  | running {caller : String} (asked : input = .command (.start caller))
      (state : s.state = .running) : Cause s failure input s' (.answer caller (.ok ()))
  | ready {caller : String} (report : input = .child s.generation .ready)
      (state : s.state = .starting) : Cause s failure input s' (.answer caller (.ok ()))
  | handshake {caller reason : String}
      (report : input = .child s.generation (.handshakeFailed reason)) :
      Cause s failure input s' (.answer caller (.error (.handshake reason)))
  | earlyExit {caller : String} {code : Option Nat}
      (report : input = .child s.generation (.exited code)) (state : s.state = .starting) :
      Cause s failure input s' (.answer caller (.error (.earlyExit code)))
  | stopped {caller : String} {code : Option Nat}
      (report : input = .child s.generation (.exited code)) (state : s.state = .shuttingDown)
      (stopped : s.isStopped = true) : Cause s failure input s' (.answer caller (.error .stopped))
  | gone {caller : String} : Cause s failure input s' (.acknowledge caller)
  | crash {code : Option Nat} (report : input = .child s.generation (.exited code))
      (state : s.state = .running) (epoch : s'.epoch = s.epoch + 1) :
      Cause s failure input s' (.respawnLater (s.epoch + 1))

variable {s s₀ : Supervisor} {failure : Option SupervisorError} {input : SupervisorInput}
  {effect : SupervisorEffect}

/-- A spawn answers nobody unless it fails. It may come from a state that was changed before, with
the same generation. -/
theorem cause_spawn (hgeneration : s₀.generation = s.generation)
    (hmem : effect ∈ (s₀.spawn failure).1) :
    s.Cause failure input (s₀.spawn failure).2 effect := by
  have hnext : (s₀.spawn failure).2.generation = s.generation + 1 := by
    rw [generation_spawn, hgeneration]
  rcases List.mem_append.mp hmem with hmove | hrest
  · exact .aside (isAside_moveTo hmove)
  · cases failure with
    | none =>
      rw [moveTo_snd] at hrest
      rw [List.mem_singleton.mp hrest]
      exact hgeneration ▸ .spawned rfl hnext
    | some error =>
      rcases List.mem_append.mp hrest with hmove | hanswer
      · exact .aside (isAside_moveTo hmove)
      · obtain ⟨caller, -, rfl⟩ := List.mem_map.mp hanswer
        exact .unspawned rfl hnext

/-- A cycle causes no more than the spawn in its course, where no process is left to be shut
down. -/
theorem cause_cycle (hgeneration : s₀.generation = s.generation)
    (hmem : effect ∈ (s₀.cycle failure).1) :
    s.Cause failure input (s₀.cycle failure).2 effect := by
  rcases s₀.up_or_shuttingDown_or_idle with hup | hdown | hidle
  · rw [cycle_of_up failure hup] at hmem
    exact .aside (isAside_killChild hmem)
  · rw [cycle_of_shuttingDown failure hdown] at hmem
    cases hmem
  · rw [cycle_of_idle failure hidle] at hmem ⊢
    exact cause_spawn hgeneration hmem

/-- A start is answered at once where the backend runs, or by the spawn in its course if
this fails. -/
theorem cause_start {caller : String} (hmem : effect ∈ (s.start failure caller).1) :
    s.Cause failure (.command (.start caller)) (s.start failure caller).2 effect := by
  rcases s.up_or_shuttingDown_or_idle with (hstarting | hrunning) | hdown | hidle
  · rw [start_of_starting failure caller hstarting] at hmem
    cases hmem
  · rw [start_of_running failure caller hrunning] at hmem
    rw [List.mem_singleton.mp hmem]
    exact .running rfl hrunning
  · rw [start_of_shuttingDown failure caller hdown] at hmem
    cases hmem
  · rw [start_of_idle failure caller hidle] at hmem ⊢
    exact cause_spawn rfl hmem

/-- A stop acknowledges none but its own caller. -/
theorem cause_stop {caller : String} (hmem : effect ∈ (s.stop caller).1) :
    s.Cause failure (.command (.stop caller)) (s.stop caller).2 effect := by
  rcases s.up_or_shuttingDown_or_idle with hup | hdown | hidle
  · rw [stop_of_up caller hup] at hmem
    exact .aside (isAside_killChild hmem)
  · rw [stop_of_shuttingDown caller hdown] at hmem
    cases hmem
  · rw [stop_of_idle caller hidle] at hmem
    rw [List.mem_singleton.mp hmem]
    exact .gone

/-- Every effect of a command has a cause. -/
theorem cause_handleCommand {command : SupervisorCommand}
    (hmem : effect ∈ (s.handleCommand failure command).1) :
    s.Cause failure (.command command) (s.handleCommand failure command).2 effect := by
  cases command with
  | start caller => exact cause_start hmem
  | stop caller => exact cause_stop hmem
  | restart caller =>
    let s₀ : Supervisor := { s with isStopped := false, starters := s.starters ++ [caller] }
    have hgeneration : s₀.generation = s.generation := rfl
    exact cause_cycle hgeneration hmem
  | send frame => exact .aside (isAside_forward hmem)
  | sourceChanged =>
    rcases s.sourceChanged_cases failure with ⟨-, hturn⟩ | ⟨-, hturn⟩ <;> rw [hturn] at hmem ⊢
    · cases hmem
    · exact cause_cycle rfl hmem
  | respawn epoch =>
    rcases s.respawn_cases failure epoch with hturn | ⟨-, hturn⟩ <;> rw [hturn] at hmem ⊢
    · cases hmem
    · exact cause_spawn rfl hmem

/-- What comes behind the acknowledgements when a child has shut down. -/
theorem cause_resume {code : Option Nat} (hgeneration : s₀.generation = s.generation)
    (hstopped : s₀.isStopped = s.isStopped)
    (report : input = .child s.generation (.exited code)) (hdown : s.state = .shuttingDown)
    (hmem : effect ∈ (s₀.resume failure).1) :
    s.Cause failure input (s₀.resume failure).2 effect := by
  unfold resume at hmem ⊢
  split at hmem
  · next hrestarts =>
    rw [if_pos hrestarts]
    exact cause_spawn hgeneration hmem
  · split at hmem
    · next hstop =>
      obtain ⟨caller, -, rfl⟩ := List.mem_map.mp hmem
      exact .stopped report hdown (hstopped ▸ hstop)
    · cases hmem

/-- Whom an exit answers depends on the state that it finds: those who start, those who stop, or
nobody. -/
theorem cause_handleExit {code : Option Nat} (hup : s.state = .running → s.isStopped = false)
    (hprocess : s.state.hasProcess = true) (hmem : effect ∈ (s.handleExit failure code).1) :
    s.Cause failure (.child s.generation (.exited code)) (s.handleExit failure code).2 effect := by
  rcases up_or_shuttingDown hprocess with (hstarting | hrunning) | hdown
  · rw [handleExit_of_starting failure code hstarting] at hmem
    rcases List.mem_cons.mp hmem with rfl | hmem
    · exact .aside rfl
    rcases List.mem_cons.mp hmem with rfl | hmem
    · exact .aside rfl
    obtain ⟨caller, -, rfl⟩ := List.mem_map.mp hmem
    exact .earlyExit rfl hstarting
  · rw [handleExit_of_running failure code hrunning (hup hrunning)] at hmem ⊢
    simp only [List.mem_cons, List.not_mem_nil, or_false] at hmem
    rcases hmem with rfl | rfl | rfl
    · exact .aside rfl
    · exact .aside rfl
    · exact .crash rfl hrunning rfl
  · rw [handleExit_of_shuttingDown failure code hdown] at hmem ⊢
    rcases List.mem_append.mp hmem with hmem | hmem
    · rcases List.mem_cons.mp hmem with rfl | hmem
      · exact .aside rfl
      · obtain ⟨caller, -, rfl⟩ := List.mem_map.mp hmem
        exact .gone
    · exact cause_resume rfl rfl rfl hdown hmem

/-- Every effect of a report of the current child has a cause. -/
theorem cause_handleChild {event : ChildEvent} (hup : s.state = .running → s.isStopped = false)
    (hprocess : s.state.hasProcess = true) (hmem : effect ∈ (s.handleChild failure event).1) :
    s.Cause failure (.child s.generation event) (s.handleChild failure event).2 effect := by
  cases event with
  | ready =>
    by_cases hstarting : s.state = .starting
    · rw [handleChild_ready_of_starting failure hstarting] at hmem
      rcases List.mem_cons.mp hmem with rfl | hmem
      · exact .aside rfl
      · obtain ⟨caller, -, rfl⟩ := List.mem_map.mp hmem
        exact .ready rfl hstarting
    · rw [handleChild_ready_of_ne failure hstarting] at hmem
      cases hmem
  | handshakeFailed reason =>
    rw [handleChild_handshakeFailed] at hmem
    rcases List.mem_append.mp hmem with hanswer | hkill
    · obtain ⟨caller, -, rfl⟩ := List.mem_map.mp hanswer
      exact .handshake rfl
    · exact .aside (isAside_killChild hkill)
  | message message => exact .aside (isAside_dispatch hmem)
  | malformed line error => cases hmem
  | exited code => exact cause_handleExit hup hprocess hmem

/-- An event of the server has effects by the side only. -/
theorem cause_handleServer {event : ServerEvent} (hmem : effect ∈ (s.handleServer event).1) :
    s.Cause failure (.server event) (s.handleServer event).2 effect :=
  .aside (isAside_handleServer hmem)

end LiveDoc.Supervisor
