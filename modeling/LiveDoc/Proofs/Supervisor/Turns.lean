import LiveDoc.Supervisor.Basic

/-!
# LiveDoc — what the turns of a supervisor come to

What each function does and leaves behind, by the state that it finds, so that nothing else looks
into turns that are made of others. Of the effects only a few start something or answer somebody;
the others go by the side.

* `Supervisor.up_or_shuttingDown_or_idle` — the states that functions tell apart.
* `SupervisorEffect.isAside` — effects that start nothing and answer nobody.
* `Supervisor.relays_handleChild` — what is handed on of what a child says.
-/

namespace LiveDoc

/-- Whether an effect starts nothing, now or later, and answers nobody. -/
def SupervisorEffect.isAside : SupervisorEffect → Bool
  | .spawned _ | .answer _ _ | .acknowledge _ | .respawnLater _ => false
  | .kill _ | .write _ _ | .notify _ | .relay _ => true

/-- What an effect hands on to the rest of the system. -/
def SupervisorEffect.relay? : SupervisorEffect → Option Relay
  | .relay handed => some handed
  | _ => none

/-- What is handed on of what a child says: only its messages are. -/
def ChildEvent.relays : ChildEvent → List Relay
  | .message said => Relay.ofMessage said
  | _ => []

namespace Supervisor

variable {s : Supervisor} {failure : Option SupervisorError}

@[simp] theorem andThen_fst (t : Turn) (f : Supervisor → Turn) :
    (andThen t f).1 = t.1 ++ (f t.2).1 := rfl

@[simp] theorem andThen_snd (t : Turn) (f : Supervisor → Turn) :
    (andThen t f).2 = (f t.2).2 := rfl

/-- A change of state leaves the state asked for, also where it was the state before and nobody was
told. -/
@[simp] theorem moveTo_snd (s : Supervisor) (next : BackendState) :
    (s.moveTo next).2 = { s with state := next } := by
  unfold moveTo
  split
  · next h =>
    subst h
    rfl
  · rfl

@[simp] theorem answerStarters_snd (s : Supervisor) (outcome : Except SupervisorError Unit) :
    (s.answerStarters outcome).2 = { s with starters := [] } := rfl

/-- A kill only changes the state; the child is kept until its exit is reported. -/
@[simp] theorem killChild_snd (s : Supervisor) :
    s.killChild.2 = { s with state := .shuttingDown } := by
  simp [killChild]

/-- A frame forwarded leaves the supervisor as it was, whether or not there was a child to write it
to. -/
@[simp] theorem forward_snd (s : Supervisor) (frame : ChannelFrame) : (s.forward frame).2 = s := by
  unfold forward
  split <;> rfl

/-- No event of the server changes the supervisor: what it asks for is written to the child or
answered. -/
@[simp] theorem handleServer_snd (s : Supervisor) (event : ServerEvent) :
    (s.handleServer event).2 = s := by
  unfold handleServer
  split
  · split
    · exact forward_snd s _
    · rfl
  · rfl

/-! ## Spawning and killing -/

/-- A spawn that succeeds makes the child of the new generation the current one and leaves the
backend starting. -/
theorem spawn_none (h : s.state ≠ .starting) : s.spawn none =
    ([.notify (.stateChanged s.state .starting), .spawned (s.generation + 1)],
      { s with
        generation := s.generation + 1
        state := .starting
        child := some (s.generation + 1) }) := by
  simp [spawn, andThen, moveTo, h]

/-- A spawn that fails uses a generation up all the same. The backend passes through starting to
dead, and all who wait for it are told the error. -/
theorem spawn_some (h : s.state ≠ .starting) (error : SupervisorError) : s.spawn (some error) =
    (.notify (.stateChanged s.state .starting) :: .notify (.stateChanged .starting .dead) ::
        s.starters.map (.answer · (.error error)),
      { s with generation := s.generation + 1, state := .dead, starters := [] }) := by
  simp [spawn, andThen, moveTo, h, answerStarters]

/-- A spawn leaves the backend starting, or dead where it failed. -/
theorem state_spawn (s : Supervisor) (failure : Option SupervisorError) :
    (s.spawn failure).2.state = .starting ∨ (s.spawn failure).2.state = .dead := by
  cases failure <;> simp [spawn]

/-- Every spawn uses up one generation, so that no report of an older child can be taken for one of
the next. -/
theorem generation_spawn (s : Supervisor) (failure : Option SupervisorError) :
    (s.spawn failure).2.generation = s.generation + 1 := by
  cases failure <;> simp [spawn]

/-- A spawn does not overtake a respawn that is due; only a stop, a cycle and a crash do. -/
theorem epoch_spawn (s : Supervisor) (failure : Option SupervisorError) :
    (s.spawn failure).2.epoch = s.epoch := by
  cases failure <;> simp [spawn]

/-- The first kill is told to the owner, behind the kill itself. -/
theorem killChild_of_ne (h : s.state ≠ .shuttingDown) : s.killChild =
    (s.child.toList.map .kill ++ [.notify (.stateChanged s.state .shuttingDown)],
      { s with state := .shuttingDown }) := by
  simp [killChild, andThen, moveTo, h]

/-- A child that shuts down may be killed once more, and the owner hears nothing of it. -/
theorem killChild_of_shuttingDown (h : s.state = .shuttingDown) :
    s.killChild = (s.child.toList.map .kill, s) := by
  simp [killChild, andThen, moveTo, h]

/-! ## Effects by the side -/

variable {effect : SupervisorEffect}

/-- A change of state is only told. -/
theorem isAside_moveTo {next : BackendState} (h : effect ∈ (s.moveTo next).1) : effect.isAside := by
  unfold moveTo at h
  split at h
  · cases h
  · rw [List.mem_singleton.mp h]
    rfl

/-- A kill answers nobody: who stopped the backend is answered when it is gone. -/
theorem isAside_killChild (h : effect ∈ s.killChild.1) : effect.isAside := by
  rcases List.mem_append.mp h with hkill | hmove
  · obtain ⟨generation, -, rfl⟩ := List.mem_map.mp hkill
    rfl
  · exact isAside_moveTo hmove

theorem isAside_forward {frame : ChannelFrame} (h : effect ∈ (s.forward frame).1) :
    effect.isAside := by
  unfold forward at h
  split at h
  · rw [List.mem_singleton.mp h]
    rfl
  · cases h

/-- A message of the child is handed on and, if it is a response, told to the owner; nothing is
started by it. -/
theorem isAside_dispatch {message : Message} (h : effect ∈ (s.dispatch message).1) :
    effect.isAside := by
  rcases List.mem_append.mp h with hrelay | htold
  · obtain ⟨relay, -, rfl⟩ := List.mem_map.mp hrelay
    rfl
  · split at htold
    · rw [List.mem_singleton.mp htold]
      rfl
    · cases htold

/-- An event of the server is forwarded or answered over the server; no caller of the
supervisor is. -/
theorem isAside_handleServer {event : ServerEvent} (h : effect ∈ (s.handleServer event).1) :
    effect.isAside := by
  unfold handleServer at h
  split at h
  · split at h
    · exact isAside_forward h
    · cases h
  · obtain ⟨relay, -, rfl⟩ := List.mem_map.mp h
    rfl

/-! ## Relays -/

/-- What a turn hands on to the rest of the system. -/
def Turn.relays (t : Turn) : List Relay := t.1.filterMap SupervisorEffect.relay?

/-- What a turn hands on is what its effects of that kind hold. -/
theorem Turn.mem_relays {t : Turn} {relay : Relay} :
    relay ∈ t.relays ↔ SupervisorEffect.relay relay ∈ t.1 := by
  refine ⟨fun h => ?_, fun h => List.mem_filterMap.mpr ⟨_, h, rfl⟩⟩
  obtain ⟨effect, hmem, hrelay⟩ := List.mem_filterMap.mp h
  cases effect with
  | relay handed =>
    cases hrelay
    exact hmem
  | _ => cases hrelay

@[simp] theorem relays_andThen (t : Turn) (f : Supervisor → Turn) :
    (andThen t f).relays = t.relays ++ (f t.2).relays :=
  List.filterMap_append

@[simp] theorem relays_moveTo (s : Supervisor) (next : BackendState) :
    (s.moveTo next).relays = [] := by
  unfold moveTo
  split <;> rfl

/-- A list of effects none of which hands anything on is none of what the turn hands on. -/
theorem filterMap_relay?_map {α : Type} (effect : α → SupervisorEffect)
    (h : ∀ a, (effect a).relay? = none) (l : List α) :
    (l.map effect).filterMap SupervisorEffect.relay? = [] := by
  simp [List.filterMap_map, h]

@[simp] theorem relays_answerStarters (s : Supervisor) (outcome : Except SupervisorError Unit) :
    (s.answerStarters outcome).relays = [] :=
  filterMap_relay?_map _ (fun _ => rfl) _

@[simp] theorem relays_acknowledgeStoppers (s : Supervisor) : s.acknowledgeStoppers.relays = [] :=
  filterMap_relay?_map _ (fun _ => rfl) _

@[simp] theorem relays_killChild (s : Supervisor) : s.killChild.relays = [] := by
  rw [killChild, relays_andThen, relays_moveTo, List.append_nil]
  exact filterMap_relay?_map _ (fun _ => rfl) _

/-- A spawn hands on nothing, whether it succeeds or not. -/
@[simp] theorem relays_spawn (s : Supervisor) (failure : Option SupervisorError) :
    (s.spawn failure).relays = [] := by
  cases failure <;> simp [spawn]
  rfl

/-- An exit hands on nothing. -/
@[simp] theorem relays_handleExit (s : Supervisor) (failure : Option SupervisorError)
    (code : Option Nat) : (s.handleExit failure code).relays = [] := by
  have hnotify (event : SupervisorEvent) (s : Supervisor) :
      Turn.relays ([.notify event], s) = [] := rfl
  have hnothing (s : Supervisor) : Turn.relays ([], s) = [] := rfl
  unfold handleExit afterExit
  cases s.state with
  | starting => simp [hnotify]
  | running =>
    simp only [relays_andThen, relays_moveTo, hnotify, List.nil_append]
    split <;> rfl
  | _ =>
    simp only [relays_andThen, relays_moveTo, relays_acknowledgeStoppers, List.nil_append]
    split
    · exact relays_spawn _ _
    · split
      · exact relays_answerStarters _ _
      · exact hnothing _

/-- Of what a child says only its messages are handed on. -/
theorem relays_handleChild (s : Supervisor) (failure : Option SupervisorError)
    (event : ChildEvent) : (s.handleChild failure event).relays = event.relays := by
  cases event with
  | ready =>
    rw [handleChild]
    split
    · simp [ChildEvent.relays]
    · rfl
  | handshakeFailed reason => simp [handleChild, ChildEvent.relays]
  | message message =>
    have hrelays (relays : List Relay) :
        (relays.map .relay).filterMap SupervisorEffect.relay? = relays := by
      rw [List.filterMap_map]
      exact List.filterMap_some
    unfold handleChild dispatch
    rw [Turn.relays, List.filterMap_append, hrelays]
    -- What the owner is told of a response is not handed on.
    cases message <;> exact List.append_nil _
  | malformed line error => rfl
  | exited code => exact relays_handleExit s failure code

/-! ## States -/

/-- A backend is up, shuts down, or has no process: the three cases in which commands differ. -/
theorem up_or_shuttingDown_or_idle (s : Supervisor) :
    (s.state = .starting ∨ s.state = .running) ∨ s.state = .shuttingDown ∨
      s.state.hasProcess = false := by
  cases s.state <;> simp [BackendState.hasProcess]

/-- A backend with a process is up or shuts down. -/
theorem up_or_shuttingDown (h : s.state.hasProcess = true) :
    (s.state = .starting ∨ s.state = .running) ∨ s.state = .shuttingDown := by
  cases hstate : s.state <;> simp_all [BackendState.hasProcess]

theorem hasProcess_of_up (h : s.state = .starting ∨ s.state = .running) :
    s.state.hasProcess = true := by
  rcases h with h | h <;> rw [h] <;> rfl

/-- A backend without a process is in none of the states of one with a process. -/
theorem ne_of_idle (h : s.state.hasProcess = false) :
    s.state ≠ .starting ∧ s.state ≠ .running ∧ s.state ≠ .shuttingDown := by
  cases hstate : s.state <;> simp_all [BackendState.hasProcess]

/-! ## Commands, by the state that they come in -/

section Commands

variable (failure : Option SupervisorError) (caller : String)

/-- Who starts a backend that runs is answered at once. -/
theorem start_of_running (h : s.state = .running) :
    s.start failure caller = ([.answer caller (.ok ())], { s with isStopped := false }) := by
  simp only [start, h]

/-- Who starts a backend that is being started waits with the others. -/
theorem start_of_starting (h : s.state = .starting) : s.start failure caller =
    ([], { s with isStopped := false, starters := s.starters ++ [caller] }) := by
  simp only [start, h]

/-- Who starts a backend that shuts down waits for the child that comes after it. -/
theorem start_of_shuttingDown (h : s.state = .shuttingDown) : s.start failure caller =
    ([], { s with
      isStopped := false, starters := s.starters ++ [caller], restarts := true }) := by
  simp only [start, h]

/-- Who starts a backend without a process has one spawned, and waits for it. -/
theorem start_of_idle (h : s.state.hasProcess = false) : s.start failure caller =
    { s with isStopped := false, starters := s.starters ++ [caller] }.spawn failure := by
  cases hstate : s.state <;> simp only [hstate, BackendState.hasProcess, reduceCtorEq] at h <;>
    simp only [start, hstate]

/-- A stop kills the child that is up, takes back a restart that was asked for, and overtakes any
respawn. -/
theorem stop_of_up (h : s.state = .starting ∨ s.state = .running) : s.stop caller =
    { s with
      isStopped := true, restarts := false, epoch := s.epoch + 1
      stoppers := s.stoppers ++ [caller] }.killChild := by
  rcases h with h | h <;> simp only [stop, h]

/-- A stop while the backend shuts down takes back the restart and waits for the same exit. -/
theorem stop_of_shuttingDown (h : s.state = .shuttingDown) : s.stop caller =
    ([], { s with
      isStopped := true, restarts := false, epoch := s.epoch + 1
      stoppers := s.stoppers ++ [caller] }) := by
  simp only [stop, h]

/-- A stop without a process is acknowledged at once; a respawn that is due is overtaken. -/
theorem stop_of_idle (h : s.state.hasProcess = false) : s.stop caller =
    ([.acknowledge caller],
      { s with isStopped := true, restarts := false, epoch := s.epoch + 1 }) := by
  cases hstate : s.state <;> simp only [hstate, BackendState.hasProcess, reduceCtorEq] at h <;>
    simp only [stop, hstate]

/-- A cycle kills the child that is up, and a new one is spawned when it is gone. -/
theorem cycle_of_up (h : s.state = .starting ∨ s.state = .running) : s.cycle failure =
    { s with epoch := s.epoch + 1, restarts := true }.killChild := by
  rcases h with h | h <;> simp only [cycle, h]

/-- Cycles that come while the backend shuts down are joined into one restart. -/
theorem cycle_of_shuttingDown (h : s.state = .shuttingDown) : s.cycle failure =
    ([], { s with epoch := s.epoch + 1, restarts := true }) := by
  simp only [cycle, h]

/-- A cycle without a process spawns one at once. -/
theorem cycle_of_idle (h : s.state.hasProcess = false) : s.cycle failure =
    { s with epoch := s.epoch + 1 }.spawn failure := by
  cases hstate : s.state <;> simp only [hstate, BackendState.hasProcess, reduceCtorEq] at h <;>
    simp only [cycle, hstate]

/-- A change of the source is a cycle, unless the backend was stopped. -/
theorem sourceChanged_cases (s : Supervisor) (failure : Option SupervisorError) :
    s.isStopped = true ∧ s.handleCommand failure .sourceChanged = ([], s) ∨
      s.isStopped = false ∧ s.handleCommand failure .sourceChanged = s.cycle failure := by
  cases hstopped : s.isStopped with
  | true => exact .inl ⟨rfl, if_pos hstopped⟩
  | false => exact .inr ⟨rfl, if_neg (by rw [hstopped]; decide)⟩

/-- A respawn spawns a child in its epoch if the backend is dead and was not stopped. -/
theorem respawn_cases (s : Supervisor) (failure : Option SupervisorError) (epoch : Nat) :
    s.handleCommand failure (.respawn epoch) = ([], s) ∨
      (epoch = s.epoch ∧ s.state = .dead ∧ s.isStopped = false) ∧
        s.handleCommand failure (.respawn epoch) = s.spawn failure := by
  by_cases hdue : epoch = s.epoch ∧ s.state = .dead ∧ ¬s.isStopped
  · exact .inr ⟨⟨hdue.1, hdue.2.1, by simpa using hdue.2.2⟩, if_pos hdue⟩
  · exact .inl (if_neg hdue)

end Commands

/-! ## Exits, by the state that they come in -/

section Exits

variable (failure : Option SupervisorError) (code : Option Nat)

/-- A child that exits before it was ready fails all who wait for it, and no respawn is planned. -/
theorem handleExit_of_starting (h : s.state = .starting) : s.handleExit failure code =
    (.notify (.stateChanged .starting .dead) :: .notify (.crashed code true) ::
        s.starters.map (.answer · (.error (.earlyExit code))),
      { s with child := none, state := .dead, restarts := false, starters := [] }) := by
  simp [handleExit, afterExit, andThen, moveTo, h, answerStarters]

/-- A child that exits while it runs has crashed, and a respawn is planned in a new epoch. -/
theorem handleExit_of_running (h : s.state = .running) (hstopped : s.isStopped = false) :
    s.handleExit failure code =
      ([.notify (.stateChanged .running .dead), .notify (.crashed code false),
          .respawnLater (s.epoch + 1)],
        { s with child := none, state := .dead, epoch := s.epoch + 1 }) := by
  simp [handleExit, afterExit, andThen, moveTo, h, hstopped, scheduleRespawn]

/-- What comes behind the acknowledgements when a child has shut down. -/
def resume (failure : Option SupervisorError) (s : Supervisor) : Turn :=
  if s.restarts then { s with restarts := false }.spawn failure
  else if s.isStopped then s.answerStarters (.error .stopped)
  else ([], s)

/-- When a child has shut down, who stopped it is told so before anything is started again. -/
theorem handleExit_of_shuttingDown (h : s.state = .shuttingDown) : s.handleExit failure code =
    andThen (.notify (.stateChanged .shuttingDown .dead) :: s.stoppers.map .acknowledge,
      { s with child := none, state := .dead, stoppers := [] }) (resume failure) := by
  simp [handleExit, afterExit, andThen, moveTo, h, acknowledgeStoppers, resume]

end Exits

/-! ## Reports of the child -/

/-- The first word of a child that it is ready is told to all who wait. -/
theorem handleChild_ready_of_starting (failure : Option SupervisorError) (h : s.state = .starting) :
    s.handleChild failure .ready =
      (.notify (.stateChanged .starting .running) :: s.starters.map (.answer · (.ok ())),
        { s with state := .running, starters := [] }) := by
  simp [handleChild, andThen, moveTo, h, answerStarters]

/-- A child that says that it is ready at any other time is not heard. -/
theorem handleChild_ready_of_ne (failure : Option SupervisorError) (h : s.state ≠ .starting) :
    s.handleChild failure .ready = ([], s) := by
  simp [handleChild, h]

/-- A handshake that fails is told to all who wait, in whatever state it comes, and the child is
killed. -/
theorem handleChild_handshakeFailed (s : Supervisor) (failure : Option SupervisorError)
    (reason : String) : s.handleChild failure (.handshakeFailed reason) =
      andThen (s.starters.map (.answer · (.error (.handshake reason))), { s with starters := [] })
        killChild := rfl

end Supervisor

end LiveDoc
