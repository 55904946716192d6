import LiveDoc.Proofs.Supervisor.Callers

/-!
# LiveDoc — a backend that was stopped

Four things spawn a child: a caller who starts the backend, a change of the source, a respawn that
is due, and the exit of a child that is to be replaced. A stop shuts all of them out but the first,
whatever state it finds: changes and respawns are passed over while the backend is stopped, and a
new start that was pending is taken back. So nothing is spawned until somebody starts the backend
again. This holds for inputs in any order, also for reports that no child could make.

* `Supervisor.AtRest` — the backend was stopped, and no new start is pending.
* `Supervisor.AtRest.step` — an input that starts nothing leaves it so, and spawns nothing.
* `Supervisor.stopped_until_started` — what follows a stop.
-/

namespace LiveDoc.Supervisor

/-- The backend was stopped, and no new start is pending. -/
structure AtRest (s : Supervisor) : Prop where
  isStopped : s.isStopped = true
  restarts : s.restarts = false

/-- A turn that tries no child, and leaves the backend at rest. -/
structure Rests (s : Supervisor) (t : Turn) : Prop where
  atRest : t.2.AtRest
  generation : t.2.generation = s.generation
  unspawned : ∀ g, .spawned g ∉ t.1

variable {s : Supervisor} {failure : Option SupervisorError} {t : Turn}

/-! ## Turns of a backend at rest -/

theorem Rests.andThen {f : Supervisor → Turn} (h : s.Rests t) (hf : t.2.Rests (f t.2)) :
    s.Rests (andThen t f) where
  atRest := hf.atRest
  generation := hf.generation.trans h.generation
  unspawned g hmem := by
    rcases List.mem_append.mp hmem with hfirst | hrest
    · exact h.unspawned g hfirst
    · exact hf.unspawned g hrest

theorem rests_of_isAside (hrest : t.2.AtRest) (hgeneration : t.2.generation = s.generation)
    (haside : ∀ effect ∈ t.1, effect.isAside) : s.Rests t where
  atRest := hrest
  generation := hgeneration
  unspawned g hmem := by
    have hspawned := haside _ hmem
    cases hspawned

namespace AtRest

theorem nothing (h : s.AtRest) : s.Rests ([], s) := ⟨h, rfl, fun _ => List.not_mem_nil⟩

theorem moveTo (h : s.AtRest) (next : BackendState) : s.Rests (s.moveTo next) := by
  refine rests_of_isAside ?_ ?_ fun _ => isAside_moveTo
  · rw [moveTo_snd]
    exact ⟨h.isStopped, h.restarts⟩
  · rw [moveTo_snd]

theorem killChild (h : s.AtRest) : s.Rests s.killChild := by
  refine rests_of_isAside ?_ ?_ fun _ => isAside_killChild
  · rw [killChild_snd]
    exact ⟨h.isStopped, h.restarts⟩
  · rw [killChild_snd]

theorem answerStarters (h : s.AtRest) (outcome : Except SupervisorError Unit) :
    s.Rests (s.answerStarters outcome) where
  atRest := ⟨h.isStopped, h.restarts⟩
  generation := rfl
  unspawned g hmem := by
    obtain ⟨caller, -, hanswer⟩ := List.mem_map.mp hmem
    cases hanswer

theorem acknowledgeStoppers (h : s.AtRest) : s.Rests s.acknowledgeStoppers where
  atRest := ⟨h.isStopped, h.restarts⟩
  generation := rfl
  unspawned g hmem := by
    obtain ⟨caller, -, hanswer⟩ := List.mem_map.mp hmem
    cases hanswer

/-! ## Commands -/

/-- Behind a stop the backend is at rest, whatever it was before. -/
theorem stop (s : Supervisor) (caller : String) : s.Rests (s.stop caller) := by
  let stopped : Supervisor :=
    { s with isStopped := true, restarts := false, epoch := s.epoch + 1 }
  have hstopped : stopped.AtRest := ⟨rfl, rfl⟩
  rcases s.up_or_shuttingDown_or_idle with hup | hdown | hidle
  · rw [stop_of_up caller hup]
    have hkill : Rests { stopped with stoppers := s.stoppers ++ [caller] } _ :=
      killChild ⟨rfl, rfl⟩
    exact ⟨hkill.atRest, hkill.generation, hkill.unspawned⟩
  · rw [stop_of_shuttingDown caller hdown]
    exact ⟨⟨rfl, rfl⟩, rfl, fun _ => List.not_mem_nil⟩
  · rw [stop_of_idle caller hidle]
    refine ⟨hstopped, rfl, fun g hmem => ?_⟩
    have hanswer := List.mem_singleton.mp hmem
    cases hanswer

/-- No command but a start or a restart wakes a supervisor at rest. -/
theorem handleCommand (h : s.AtRest) {command : SupervisorCommand}
    (hunasked : (SupervisorInput.command command).starter? = none) :
    s.Rests (s.handleCommand failure command) := by
  cases command with
  | start caller | restart caller => cases hunasked
  | stop caller => exact stop s caller
  | send frame =>
    show s.Rests (s.forward frame)
    refine rests_of_isAside ?_ ?_ fun _ => isAside_forward
    · rwa [forward_snd]
    · rw [forward_snd]
  | sourceChanged =>
    rcases s.sourceChanged_cases failure with ⟨-, hturn⟩ | ⟨hwanted, -⟩
    · rw [hturn]
      exact h.nothing
    · rw [h.isStopped] at hwanted
      cases hwanted
  | respawn epoch =>
    rcases s.respawn_cases failure epoch with hturn | ⟨⟨-, -, hwanted⟩, -⟩
    · rw [hturn]
      exact h.nothing
    · rw [h.isStopped] at hwanted
      cases hwanted

/-! ## Reports of the child, and events of the server -/

theorem crashed (h : s.AtRest) (code : Option Nat) (duringStart : Bool) :
    s.Rests ([.notify (.crashed code duringStart)], s) := by
  refine rests_of_isAside h rfl fun effect hmem => ?_
  rw [List.mem_singleton.mp hmem]
  rfl

/-- A new start is not pending, so whoever waits for one is told of the stop. -/
theorem shutDown (h : s.AtRest) :
    s.Rests (Supervisor.andThen s.acknowledgeStoppers (resume failure)) := by
  have hwaiting : s.acknowledgeStoppers.2.AtRest := h.acknowledgeStoppers.atRest
  refine h.acknowledgeStoppers.andThen ?_
  rw [resume, if_neg (by rw [hwaiting.restarts]; decide), if_pos hwaiting.isStopped]
  exact hwaiting.answerStarters _

/-- The exit of a child leaves a supervisor at rest: no restart is asked for, and no respawn
planned. -/
theorem afterExit (h : s.AtRest) (code : Option Nat) (before : BackendState) :
    s.Rests (s.afterExit failure code before) := by
  cases before with
  | starting =>
    have hsame : ({ s with restarts := false } : Supervisor) = s := by rw [← h.restarts]
    show s.Rests (Supervisor.andThen ([.notify (.crashed code true)], { s with restarts := false })
      (Supervisor.answerStarters · (.error (.earlyExit code))))
    rw [hsame]
    exact (h.crashed code true).andThen (h.answerStarters _)
  | running =>
    show s.Rests (Supervisor.andThen ([.notify (.crashed code false)], s)
      fun s => if s.isStopped then ([], s) else s.scheduleRespawn)
    refine (h.crashed code false).andThen ?_
    dsimp only
    rw [if_pos h.isStopped]
    exact h.nothing
  | notStarted => exact h.shutDown
  | shuttingDown => exact h.shutDown
  | dead => exact h.shutDown

/-- Nothing that a child reports wakes a supervisor at rest. -/
theorem handleChild (h : s.AtRest) (event : ChildEvent) :
    s.Rests (s.handleChild failure event) := by
  cases event with
  | ready =>
    by_cases hstarting : s.state = .starting
    · have hready : s.handleChild failure .ready = _ := if_pos hstarting
      rw [hready]
      exact (h.moveTo _).andThen ((h.moveTo _).atRest.answerStarters _)
    · rw [handleChild_ready_of_ne failure hstarting]
      exact h.nothing
  | handshakeFailed reason =>
    exact (h.answerStarters _).andThen (h.answerStarters _).atRest.killChild
  | message message => exact rests_of_isAside h rfl fun _ => isAside_dispatch
  | malformed line error => exact h.nothing
  | exited code =>
    have hgone : AtRest { s with child := none } := ⟨h.isStopped, h.restarts⟩
    have hdead := hgone.moveTo .dead
    have hexit : Rests _ (s.handleExit failure code) :=
      hdead.andThen (hdead.atRest.afterExit code s.state)
    exact ⟨hexit.atRest, hexit.generation, hexit.unspawned⟩

/-! ## Runs -/

/-- A backend at rest stays at rest until somebody starts it. -/
theorem step (h : s.AtRest) {input : SupervisorInput} (hunasked : input.starter? = none) :
    s.Rests (s.step failure input) := by
  cases input with
  | command command => exact h.handleCommand hunasked
  | child generation event =>
    rw [Supervisor.step]
    split
    · exact h.handleChild event
    · exact h.nothing
  | server event =>
    refine rests_of_isAside ?_ ?_ fun _ => isAside_handleServer <;>
      rw [Supervisor.step, handleServer_snd]
    exact h

/-- A supervisor at rest stays so through any inputs without a start or a restart. -/
theorem run {inputs : SupervisorInputs} (h : s.AtRest)
    (hunasked : ∀ input ∈ inputs, input.1.starter? = none) : s.Rests (s.run inputs) := by
  induction inputs generalizing s with
  | nil => exact h.nothing
  | cons input rest ih =>
    have hfirst : s.Rests (s.step input.2 input.1) := h.step (hunasked input List.mem_cons_self)
    refine hfirst.andThen (ih hfirst.atRest fun later hmem => ?_)
    exact hunasked later (List.mem_cons_of_mem _ hmem)

end AtRest

/-- Whatever a supervisor has come to, once it was stopped no child is spawned, and none is tried,
until somebody starts or restarts the backend. In between anything may come in any order: changes of
the source, respawns that are due or are not, reports of children, events of the server, and further
stops. -/
theorem stopped_until_started (s : Supervisor) (caller : String)
    (failure : Option SupervisorError) {since : SupervisorInputs}
    (unasked : ∀ input ∈ since, input.1.starter? = none) :
    (∀ g, .spawned g ∉ (s.run ((.command (.stop caller), failure) :: since)).1) ∧
      (s.run ((.command (.stop caller), failure) :: since)).2.generation = s.generation := by
  have hstop : s.Rests (s.step failure (.command (.stop caller))) := AtRest.stop s caller
  have hrun : s.Rests (s.run ((.command (.stop caller), failure) :: since)) :=
    hstop.andThen (hstop.atRest.run unasked)
  exact ⟨hrun.unspawned, hrun.generation⟩

/-- A child crashes and a respawn is due later. A caller restarts the backend, and while the new
child, which is to be replaced again, shuts down, another caller stops it. Neither a change, nor the
exit, nor the delay that is over brings it back. -/
theorem stopped_until_started_while_replaced :
    ∃ (before since : SupervisorInputs),
      (Supervisor.run {} before).2.state = .shuttingDown ∧
        (Supervisor.run {} before).2.restarts = true ∧
        (Supervisor.run {} before).2.generation = 2 ∧
        .command (.respawn 1) ∈ since.map Prod.fst ∧
        .child 2 (.exited none) ∈ since.map Prod.fst ∧
        ∀ g, .spawned g ∉
          ((Supervisor.run {} before).2.run ((.command (.stop "d"), none) :: since)).1 := by
  let before : SupervisorInputs := [(.command (.start "a"), none), (.child 1 .ready, none),
    (.child 1 (.exited (some 1)), none), (.command (.restart "b"), none), (.child 2 .ready, none),
    (.command (.restart "c"), none)]
  let since : SupervisorInputs := [(.command .sourceChanged, none), (.child 2 (.exited none), none),
    (.command (.respawn 1), none), (.command .sourceChanged, none)]
  have hunasked : ∀ input ∈ since, input.1.starter? = none := by decide
  obtain ⟨hunspawned, -⟩ :=
    stopped_until_started (Supervisor.run {} before).2 "d" none hunasked
  exact ⟨before, since, by decide, by decide, by decide, by decide, by decide, hunspawned⟩

end LiveDoc.Supervisor
