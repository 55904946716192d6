import LiveDoc.Proofs.Supervisor.Turns

/-!
# LiveDoc — what an input may come to

An input leaves the state of a supervisor as it is, or makes a child ready, shuts it down, finds it
gone, or spawns a new one, perhaps where one was just found gone. What this does to the generation
and to the epoch is all that is needed to tell generations and respawns from each other.

* `Supervisor.Transition` — what an input may come to.
* `Supervisor.transition_handleCommand`, `Supervisor.transition_handleChild`,
  `Supervisor.transition_handleServer` — it comes to one of these.
* `Supervisor.Ages` — the epoch never goes back, and only a stop stops.
-/

namespace LiveDoc.Supervisor

/-- A child exits. -/
def IsExit (input : SupervisorInput) : Prop :=
  ∃ generation code, input = .child generation (.exited code)

/-- What an input may come to. A child that runs does not end without a new epoch. -/
inductive Transition (s : Supervisor) : SupervisorInput → Turn → Prop where
  | stays {input : SupervisorInput} {t : Turn} (state : t.2.state = s.state)
      (generation : t.2.generation = s.generation) (other : ¬ IsExit input) : Transition s input t
  | rises {t : Turn} (before : s.state = .starting) (state : t.2.state = .running)
      (generation : t.2.generation = s.generation) : Transition s (.child s.generation .ready) t
  | shutsDown {input : SupervisorInput} {t : Turn}
      (before : s.state = .starting ∨ s.state = .running) (state : t.2.state = .shuttingDown)
      (generation : t.2.generation = s.generation)
      (epoch : s.state = .running → s.epoch < t.2.epoch) : Transition s input t
  | ends {code : Option Nat} {t : Turn} (state : t.2.state = .dead)
      (generation : t.2.generation = s.generation)
      (epoch : s.state = .running → s.epoch < t.2.epoch) :
      Transition s (.child s.generation (.exited code)) t
  | spawns {input : SupervisorInput} {t : Turn} (before : s.state ≠ .starting ∧ s.state ≠ .running)
      (state : t.2.state = .starting ∨ t.2.state = .dead)
      (generation : t.2.generation = s.generation + 1) : Transition s input t

variable {s s₀ : Supervisor} {failure : Option SupervisorError} {input : SupervisorInput}
  {event : ChildEvent}

theorem epoch_killChild (s : Supervisor) : s.killChild.2.epoch = s.epoch := by
  rw [killChild_snd]

/-- A cycle begins a new epoch in every state, so that a respawn that is due does not come on top of
it. -/
theorem epoch_cycle (s : Supervisor) (failure : Option SupervisorError) :
    (s.cycle failure).2.epoch = s.epoch + 1 := by
  rcases s.up_or_shuttingDown_or_idle with hup | hdown | hidle
  · rw [cycle_of_up failure hup, epoch_killChild]
  · rw [cycle_of_shuttingDown failure hdown]
  · rw [cycle_of_idle failure hidle, epoch_spawn]

/-- A stop begins a new epoch in every state, so that a respawn that is due does not undo it. -/
theorem epoch_stop (s : Supervisor) (caller : String) : (s.stop caller).2.epoch = s.epoch + 1 := by
  rcases s.up_or_shuttingDown_or_idle with hup | hdown | hidle
  · rw [stop_of_up caller hup, epoch_killChild]
  · rw [stop_of_shuttingDown caller hdown]
  · rw [stop_of_idle caller hidle]

/-! ## Commands -/

theorem not_isExit_command (command : SupervisorCommand) : ¬ IsExit (.command command) := by
  rintro ⟨generation, code, h⟩
  cases h

/-- A spawn where no process is begins the next generation; how it ends is left open. -/
theorem transition_spawn (hidle : s.state.hasProcess = false)
    (hgeneration : s₀.generation = s.generation) : s.Transition input (s₀.spawn failure) := by
  obtain ⟨hstarting, hrunning, -⟩ := ne_of_idle hidle
  refine .spawns ⟨hstarting, hrunning⟩ (state_spawn s₀ failure) ?_
  rw [generation_spawn, hgeneration]

/-- A cycle shuts down the child that is up, is joined to the exit that is awaited, or spawns. The
callers and the stop may have been changed before it, as a restart does. -/
theorem transition_cycle (s : Supervisor) (starters : List String) (isStopped : Bool)
    (failure : Option SupervisorError) (command : SupervisorCommand) :
    s.Transition (.command command) ({ s with starters, isStopped }.cycle failure) := by
  let s' : Supervisor := { s with starters, isStopped }
  show s.Transition _ (s'.cycle failure)
  have hepoch : (s'.cycle failure).2.epoch = s.epoch + 1 := epoch_cycle s' failure
  rcases s'.up_or_shuttingDown_or_idle with hup | hdown | hidle
  · rw [cycle_of_up failure hup] at hepoch ⊢
    exact .shutsDown hup (by rw [killChild_snd]) (by rw [killChild_snd]) fun _ => by omega
  · rw [cycle_of_shuttingDown failure hdown]
    exact .stays rfl rfl (not_isExit_command command)
  · rw [cycle_of_idle failure hidle]
    exact transition_spawn hidle rfl

/-- Behind a cycle there is a later generation, or the last one shuts down. -/
theorem later_or_shuttingDown_cycle (s : Supervisor) (failure : Option SupervisorError) :
    s.generation < (s.cycle failure).2.generation ∨
      (s.cycle failure).2.generation = s.generation ∧
        (s.cycle failure).2.state = .shuttingDown := by
  rcases s.up_or_shuttingDown_or_idle with hup | hdown | hidle
  · rw [cycle_of_up failure hup, killChild_snd]
    exact .inr ⟨rfl, rfl⟩
  · rw [cycle_of_shuttingDown failure hdown]
    exact .inr ⟨rfl, hdown⟩
  · rw [cycle_of_idle failure hidle, generation_spawn]
    exact .inl (Nat.lt_succ_self _)

/-- A start spawns where no process is, and otherwise leaves the state as it is. -/
theorem transition_start (s : Supervisor) (failure : Option SupervisorError) (caller : String) :
    s.Transition (.command (.start caller)) (s.start failure caller) := by
  have hother := not_isExit_command (.start caller)
  rcases s.up_or_shuttingDown_or_idle with (hstarting | hrunning) | hdown | hidle
  · rw [start_of_starting failure caller hstarting]
    exact .stays rfl rfl hother
  · rw [start_of_running failure caller hrunning]
    exact .stays rfl rfl hother
  · rw [start_of_shuttingDown failure caller hdown]
    exact .stays rfl rfl hother
  · rw [start_of_idle failure caller hidle]
    exact transition_spawn hidle rfl

/-- A stop shuts down the child that is up, and otherwise leaves the state as it is. -/
theorem transition_stop (s : Supervisor) (caller : String) :
    s.Transition (.command (.stop caller)) (s.stop caller) := by
  have hother := not_isExit_command (.stop caller)
  have hepoch := epoch_stop s caller
  rcases s.up_or_shuttingDown_or_idle with hup | hdown | hidle
  · rw [stop_of_up caller hup] at hepoch ⊢
    exact .shutsDown hup (by rw [killChild_snd]) (by rw [killChild_snd]) fun _ => by omega
  · rw [stop_of_shuttingDown caller hdown]
    exact .stays rfl rfl hother
  · rw [stop_of_idle caller hidle]
    exact .stays rfl rfl hother

/-- Every command comes to one of the transitions, in every state. -/
theorem transition_handleCommand (s : Supervisor) (failure : Option SupervisorError)
    (command : SupervisorCommand) :
    s.Transition (.command command) (s.handleCommand failure command) := by
  cases command with
  | start caller => exact transition_start s failure caller
  | stop caller => exact transition_stop s caller
  | restart caller => exact transition_cycle s _ _ failure _
  | send frame =>
    exact .stays (by rw [handleCommand, forward_snd]) (by rw [handleCommand, forward_snd])
      (not_isExit_command _)
  | sourceChanged =>
    rcases s.sourceChanged_cases failure with ⟨-, hturn⟩ | ⟨-, hturn⟩ <;> rw [hturn]
    · exact .stays rfl rfl (not_isExit_command _)
    · exact transition_cycle s s.starters s.isStopped failure _
  | respawn epoch =>
    rcases s.respawn_cases failure epoch with hturn | ⟨⟨-, hdead, -⟩, hturn⟩ <;> rw [hturn]
    · exact .stays rfl rfl (not_isExit_command _)
    · exact transition_spawn (by rw [hdead]; rfl) rfl

/-! ## Reports of the child, and events of the server -/

/-- Behind a child that shut down a new one is spawned, or the backend stays dead. -/
theorem resume_cases (hdead : s.state = .dead) (failure : Option SupervisorError) :
    ((s.resume failure).2.state = .starting ∨ (s.resume failure).2.state = .dead) ∧
        (s.resume failure).2.generation = s.generation + 1 ∨
      (s.resume failure).2.state = .dead ∧ (s.resume failure).2.generation = s.generation := by
  unfold resume
  split
  · exact .inl ⟨state_spawn _ failure, generation_spawn _ failure⟩
  · split <;> exact .inr ⟨hdead, rfl⟩

/-- An exit finds the child gone; where it had shut down, a new child may be spawned in the same
turn. -/
theorem transition_handleExit (hup : s.state = .running → s.isStopped = false)
    (hprocess : s.state.hasProcess = true) (failure : Option SupervisorError) (code : Option Nat) :
    s.Transition (.child s.generation (.exited code)) (s.handleExit failure code) := by
  rcases up_or_shuttingDown hprocess with (hstarting | hrunning) | hdown
  · rw [handleExit_of_starting failure code hstarting]
    exact .ends rfl rfl fun hrunning => by rw [hstarting] at hrunning; cases hrunning
  · rw [handleExit_of_running failure code hrunning (hup hrunning)]
    exact .ends rfl rfl fun _ => Nat.lt_succ_self _
  · have hne : s.state ≠ .starting ∧ s.state ≠ .running := by rw [hdown]; decide
    rw [handleExit_of_shuttingDown failure code hdown]
    let s' : Supervisor := { s with child := none, state := .dead, stoppers := [] }
    rcases resume_cases (s := s') rfl failure with ⟨hstate, hgeneration⟩ | ⟨hstate, hgeneration⟩
    · exact .spawns hne hstate hgeneration
    · exact .ends hstate hgeneration fun hrunning => absurd hrunning hne.2

/-- Every report of the current child comes to one of the transitions. A handshake that fails is one
only before the child runs, which the channel sees to. -/
theorem transition_handleChild (hup : s.state = .running → s.isStopped = false)
    (hprocess : s.state.hasProcess = true)
    (htalks : s.state = .running → ∀ reason, event ≠ .handshakeFailed reason)
    (failure : Option SupervisorError) :
    s.Transition (.child s.generation event) (s.handleChild failure event) := by
  have hother (hevent : ∀ code, event ≠ .exited code) : ¬ IsExit (.child s.generation event) := by
    rintro ⟨generation, code, h⟩
    cases h
    exact hevent code rfl
  cases event with
  | ready =>
    by_cases hstarting : s.state = .starting
    · rw [handleChild_ready_of_starting failure hstarting]
      exact .rises hstarting rfl rfl
    · rw [handleChild_ready_of_ne failure hstarting]
      exact .stays rfl rfl (hother nofun)
  | handshakeFailed reason =>
    have hrunning : s.state ≠ .running := fun h => htalks h reason rfl
    rw [handleChild_handshakeFailed]
    by_cases hdown : s.state = .shuttingDown
    · refine .stays ?_ ?_ (hother nofun)
      · rw [andThen_snd, killChild_snd, hdown]
      · rw [andThen_snd, killChild_snd]
    · have hstarting : s.state = .starting := by
        cases hstate : s.state <;> simp_all [BackendState.hasProcess]
      refine .shutsDown (.inl hstarting) ?_ ?_ fun h => absurd h hrunning <;>
        rw [andThen_snd, killChild_snd]
  | message message => exact .stays rfl rfl (hother (by simp))
  | malformed line error => exact .stays rfl rfl (hother (by simp))
  | exited code => exact transition_handleExit hup hprocess failure code

/-- No event of the server changes the state. -/
theorem transition_handleServer (s : Supervisor) (event : ServerEvent) :
    s.Transition (.server event) (s.handleServer event) := by
  have hother : ¬ IsExit (.server event) := by
    rintro ⟨generation, code, h⟩
    cases h
  refine .stays ?_ ?_ hother <;> rw [handleServer_snd]

/-! ## Epochs and stops -/

/-- What becomes of the epoch and of a stop: the epoch never goes back, and only a stop stops. -/
structure Ages (s : Supervisor) (input : SupervisorInput) (t : Turn) : Prop where
  epoch : s.epoch ≤ t.2.epoch
  isStopped : t.2.isStopped = true →
    s.isStopped = true ∨ ∃ caller, input = .command (.stop caller)

variable {s' : Supervisor} {t : Turn}

/-- What keeps the epoch and the stop keeps their order. -/
theorem ages_of_eq (hepoch : t.2.epoch = s.epoch) (hstopped : t.2.isStopped = s.isStopped) :
    s.Ages input t :=
  ⟨Nat.le_of_eq hepoch.symm, fun h => .inl (hstopped ▸ h)⟩

/-- A turn may be judged from a state with the same epoch and no more stops, such as the one in
which a caller has been added. -/
theorem Ages.of_eq (h : s'.Ages input t) (hepoch : s.epoch = s'.epoch)
    (hstopped : s'.isStopped = true → s.isStopped = true) : s.Ages input t :=
  ⟨hepoch ▸ h.epoch, fun hstop => (h.isStopped hstop).imp_left hstopped⟩

theorem ages_spawn (s : Supervisor) (failure : Option SupervisorError) :
    s.Ages input (s.spawn failure) :=
  ages_of_eq (epoch_spawn s failure) (by cases failure <;> simp [spawn])

theorem ages_killChild (s : Supervisor) : s.Ages input s.killChild :=
  ages_of_eq (epoch_killChild s) (by rw [killChild_snd])

/-- A cycle begins a new epoch and stops nothing. -/
theorem ages_cycle (s : Supervisor) (failure : Option SupervisorError) :
    s.Ages input (s.cycle failure) := by
  have hepoch : s.epoch ≤ (s.cycle failure).2.epoch := by
    rw [epoch_cycle]
    exact Nat.le_succ _
  refine ⟨hepoch, ?_⟩
  rcases s.up_or_shuttingDown_or_idle with hup | hdown | hidle
  · rw [cycle_of_up failure hup]
    exact (ages_killChild _).isStopped
  · rw [cycle_of_shuttingDown failure hdown]
    exact .inl
  · rw [cycle_of_idle failure hidle]
    exact (ages_spawn _ failure).isStopped

/-- A start takes back a stop. -/
theorem ages_start (s : Supervisor) (failure : Option SupervisorError) (caller : String) :
    s.Ages input (s.start failure caller) := by
  rcases s.up_or_shuttingDown_or_idle with (hstarting | hrunning) | hdown | hidle
  · rw [start_of_starting failure caller hstarting]
    exact ⟨Nat.le_refl _, nofun⟩
  · rw [start_of_running failure caller hrunning]
    exact ⟨Nat.le_refl _, nofun⟩
  · rw [start_of_shuttingDown failure caller hdown]
    exact ⟨Nat.le_refl _, nofun⟩
  · rw [start_of_idle failure caller hidle]
    exact (ages_spawn _ failure).of_eq rfl nofun

/-- Of the commands only a stop stops. -/
theorem ages_handleCommand (s : Supervisor) (failure : Option SupervisorError)
    (command : SupervisorCommand) :
    s.Ages (.command command) (s.handleCommand failure command) := by
  cases command with
  | start caller => exact ages_start s failure caller
  | stop caller =>
    exact ⟨Nat.le_of_lt (epoch_stop s caller ▸ Nat.lt_succ_self _), fun _ => .inr ⟨caller, rfl⟩⟩
  | restart caller => exact (ages_cycle _ failure).of_eq rfl nofun
  | send frame =>
    exact ages_of_eq (by rw [handleCommand, forward_snd]) (by rw [handleCommand, forward_snd])
  | sourceChanged =>
    rcases s.sourceChanged_cases failure with ⟨-, hturn⟩ | ⟨-, hturn⟩ <;> rw [hturn]
    · exact ages_of_eq rfl rfl
    · exact ages_cycle s failure
  | respawn epoch =>
    rcases s.respawn_cases failure epoch with hturn | ⟨-, hturn⟩ <;> rw [hturn]
    · exact ages_of_eq rfl rfl
    · exact ages_spawn s failure

theorem ages_resume (s : Supervisor) (failure : Option SupervisorError) :
    s.Ages input (s.resume failure) := by
  unfold resume
  split
  · exact (ages_spawn _ failure).of_eq rfl id
  · split <;> exact ages_of_eq rfl rfl

/-- An exit stops nothing, and a crash begins a new epoch. -/
theorem ages_handleExit (hup : s.state = .running → s.isStopped = false)
    (hprocess : s.state.hasProcess = true) (failure : Option SupervisorError) (code : Option Nat) :
    s.Ages input (s.handleExit failure code) := by
  rcases up_or_shuttingDown hprocess with (hstarting | hrunning) | hdown
  · rw [handleExit_of_starting failure code hstarting]
    exact ages_of_eq rfl rfl
  · rw [handleExit_of_running failure code hrunning (hup hrunning)]
    exact ⟨Nat.le_succ _, .inl⟩
  · rw [handleExit_of_shuttingDown failure code hdown]
    let s' : Supervisor := { s with child := none, state := .dead, stoppers := [] }
    have hresume : s'.Ages input (s'.resume failure) := ages_resume s' failure
    exact ⟨hresume.epoch, hresume.isStopped⟩

/-- Nothing that a child reports stops the backend. -/
theorem ages_handleChild (hup : s.state = .running → s.isStopped = false)
    (hprocess : s.state.hasProcess = true) (failure : Option SupervisorError) :
    s.Ages input (s.handleChild failure event) := by
  cases event with
  | ready =>
    by_cases hstarting : s.state = .starting
    · rw [handleChild_ready_of_starting failure hstarting]
      exact ages_of_eq rfl rfl
    · rw [handleChild_ready_of_ne failure hstarting]
      exact ages_of_eq rfl rfl
  | handshakeFailed reason =>
    rw [handleChild_handshakeFailed]
    refine ages_of_eq ?_ ?_ <;> rw [andThen_snd, killChild_snd]
  | message message => exact ages_of_eq rfl rfl
  | malformed line error => exact ages_of_eq rfl rfl
  | exited code => exact ages_handleExit hup hprocess failure code

end LiveDoc.Supervisor
