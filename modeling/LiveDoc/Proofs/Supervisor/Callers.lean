import LiveDoc.Proofs.Supervisor.Sound

/-!
# LiveDoc — the callers of a supervisor

Callers are kept in the order in which they came, and are answered in that order: the callers who
were answered, followed by those who wait, are all who asked. So each is answered once at most, and
none is lost. It remains to say when callers may wait, and that a turn which ends with the backend
running or dead leaves nobody waiting.

* `Supervisor.Fair` — a turn that answers the callers who came first, and keeps the others.
* `TrackedSupervisor.Sound.fair` — the turn of an input is fair to those who wait and the one who
  asks.
* `TrackedSupervisor.callers_answered` — when callers wait, and when they are answered.
-/

namespace LiveDoc

/-- The callers who started the backend and are answered, in order. -/
def answered (effects : List SupervisorEffect) : List String :=
  effects.filterMap fun
    | .answer caller _ => some caller
    | _ => none

/-- The callers who stopped the backend and are answered, in order. -/
def acknowledged (effects : List SupervisorEffect) : List String :=
  effects.filterMap fun
    | .acknowledge caller => some caller
    | _ => none

theorem answered_append (effects more : List SupervisorEffect) :
    answered (effects ++ more) = answered effects ++ answered more :=
  List.filterMap_append

theorem acknowledged_append (effects more : List SupervisorEffect) :
    acknowledged (effects ++ more) = acknowledged effects ++ acknowledged more :=
  List.filterMap_append

/-- Nobody is answered by the side. -/
theorem answered_of_isAside {effects : List SupervisorEffect}
    (h : ∀ effect ∈ effects, effect.isAside) :
    answered effects = [] ∧ acknowledged effects = [] := by
  refine ⟨List.filterMap_eq_nil_iff.mpr ?_, List.filterMap_eq_nil_iff.mpr ?_⟩ <;>
    · intro effect hmem
      have haside := h effect hmem
      cases effect <;> first | rfl | cases haside

/-- A turn that answers callers answers each of them once, in the order in which they waited. -/
theorem answered_map_answer (callers : List String) (outcome : Except SupervisorError Unit) :
    answered (callers.map (.answer · outcome)) = callers ∧
      acknowledged (callers.map (.answer · outcome)) = [] := by
  constructor
  · rw [answered, List.filterMap_map]
    exact List.filterMap_some
  · simp [acknowledged]

/-- A turn that acknowledges callers acknowledges each of them once, in the order in which they
waited. -/
theorem answered_map_acknowledge (callers : List String) :
    answered (callers.map .acknowledge) = [] ∧
      acknowledged (callers.map .acknowledge) = callers := by
  constructor
  · simp [answered]
  · rw [acknowledged, List.filterMap_map]
    exact List.filterMap_some

namespace SupervisorInput

/-- The caller who wants the backend to be started. -/
def starter? : SupervisorInput → Option String
  | .command (.start caller) | .command (.restart caller) => some caller
  | _ => none

/-- The caller who wants the backend to be gone. -/
def stopper? : SupervisorInput → Option String
  | .command (.stop caller) => some caller
  | _ => none

end SupervisorInput

/-! ## Fair turns -/

namespace Supervisor

/-- A supervisor at which the caller of an input waits as well. -/
def asked (s : Supervisor) (input : SupervisorInput) : Supervisor :=
  { s with
    starters := s.starters ++ input.starter?.toList
    stoppers := s.stoppers ++ input.stopper?.toList }

/-- The callers who are answered, and then those who wait, are those who waited, in order. -/
structure Fair (s : Supervisor) (t : Turn) : Prop where
  starters : answered t.1 ++ t.2.starters = s.starters
  stoppers : acknowledged t.1 ++ t.2.stoppers = s.stoppers

variable {s s' : Supervisor} {failure : Option SupervisorError}

/-- Nothing counts but who waits. -/
theorem Fair.of_eq {t : Turn} (h : s'.Fair t) (hstarters : s'.starters = s.starters)
    (hstoppers : s'.stoppers = s.stoppers) : s.Fair t :=
  ⟨h.starters.trans hstarters, h.stoppers.trans hstoppers⟩

theorem Fair.andThen {t : Turn} {f : Supervisor → Turn} (h : s.Fair t) (hf : t.2.Fair (f t.2)) :
    s.Fair (andThen t f) where
  starters := by
    rw [andThen_fst, andThen_snd, answered_append, List.append_assoc, hf.starters, h.starters]
  stoppers := by
    rw [andThen_fst, andThen_snd, acknowledged_append, List.append_assoc, hf.stoppers, h.stoppers]

/-- A turn that goes by the side of the callers. -/
theorem fair_of_isAside {t : Turn} (haside : ∀ effect ∈ t.1, effect.isAside)
    (hstarters : t.2.starters = s.starters) (hstoppers : t.2.stoppers = s.stoppers) : s.Fair t where
  starters := by rw [(answered_of_isAside haside).1, hstarters, List.nil_append]
  stoppers := by rw [(answered_of_isAside haside).2, hstoppers, List.nil_append]

theorem fair_nothing (s : Supervisor) : s.Fair ([], s) := fair_of_isAside (by simp) rfl rfl

theorem fair_moveTo (s : Supervisor) (next : BackendState) : s.Fair (s.moveTo next) :=
  fair_of_isAside (fun _ => isAside_moveTo) (by rw [moveTo_snd]) (by rw [moveTo_snd])

theorem fair_killChild (s : Supervisor) : s.Fair s.killChild :=
  fair_of_isAside (fun _ => isAside_killChild) (by rw [killChild_snd]) (by rw [killChild_snd])

/-- Who is answered waits no longer. -/
theorem fair_answerStarters (s : Supervisor) (outcome : Except SupervisorError Unit) :
    s.Fair (s.answerStarters outcome) where
  starters := by
    rw [answerStarters, (answered_map_answer _ _).1, List.append_nil]
  stoppers := by
    rw [answerStarters, (answered_map_answer _ _).2, List.nil_append]

theorem fair_acknowledgeStoppers (s : Supervisor) : s.Fair s.acknowledgeStoppers where
  starters := by
    rw [acknowledgeStoppers, (answered_map_acknowledge _).1, List.nil_append]
  stoppers := by
    rw [acknowledgeStoppers, (answered_map_acknowledge _).2, List.append_nil]

/-- A spawn that fails answers all who wait for it, and one that succeeds keeps them waiting. -/
theorem fair_spawn (s : Supervisor) (failure : Option SupervisorError) :
    s.Fair (s.spawn failure) := by
  have hmove : s.Fair ({ s with generation := s.generation + 1 }.moveTo .starting) :=
    (fair_moveTo _ _).of_eq rfl rfl
  refine hmove.andThen ?_
  cases failure with
  | none => exact ⟨rfl, rfl⟩
  | some error => exact (fair_moveTo _ _).andThen (fair_answerStarters _ _)

/-- A cycle answers only with the spawn in its course. -/
theorem fair_cycle (s : Supervisor) (failure : Option SupervisorError) :
    s.Fair (s.cycle failure) := by
  rcases s.up_or_shuttingDown_or_idle with hup | hdown | hidle
  · rw [cycle_of_up failure hup]
    exact (fair_killChild _).of_eq rfl rfl
  · rw [cycle_of_shuttingDown failure hdown]
    exact ⟨rfl, rfl⟩
  · rw [cycle_of_idle failure hidle]
    exact (fair_spawn _ failure).of_eq rfl rfl

/-- Nobody waits while the backend runs, so whoever starts it then is the next one. -/
theorem fair_start (hrunning : s.state = .running → s.starters = []) (caller : String) :
    ({ s with starters := s.starters ++ [caller] } : Supervisor).Fair (s.start failure caller) := by
  rcases s.up_or_shuttingDown_or_idle with (hstarting | hup) | hdown | hidle
  · rw [start_of_starting failure caller hstarting]
    exact ⟨rfl, rfl⟩
  · rw [start_of_running failure caller hup]
    constructor <;> simp [answered, acknowledged, hrunning hup]
  · rw [start_of_shuttingDown failure caller hdown]
    exact ⟨rfl, rfl⟩
  · rw [start_of_idle failure caller hidle]
    exact (fair_spawn _ failure).of_eq rfl rfl

/-- A stop lets its caller wait, or acknowledges it at once where nobody else waits. -/
theorem fair_stop (hidle : s.state.hasProcess = false → s.stoppers = []) (caller : String) :
    ({ s with stoppers := s.stoppers ++ [caller] } : Supervisor).Fair (s.stop caller) := by
  rcases s.up_or_shuttingDown_or_idle with hup | hdown | hnone
  · rw [stop_of_up caller hup]
    exact (fair_killChild _).of_eq rfl rfl
  · rw [stop_of_shuttingDown caller hdown]
    exact ⟨rfl, rfl⟩
  · rw [stop_of_idle caller hnone]
    constructor <;> simp [answered, acknowledged, hidle hnone]

theorem fair_forward (s : Supervisor) (frame : ChannelFrame) : s.Fair (s.forward frame) :=
  fair_of_isAside (fun _ => isAside_forward) (by rw [forward_snd]) (by rw [forward_snd])

/-- Events of the server answer no caller. -/
theorem fair_handleServer (s : Supervisor) (event : ServerEvent) : s.Fair (s.handleServer event) :=
  fair_of_isAside (fun _ => isAside_handleServer) (by rw [handleServer_snd])
    (by rw [handleServer_snd])

/-- An input that asks nothing lets nobody wait. -/
theorem asked_of_silent {input : SupervisorInput} (hstart : input.starter? = none)
    (hstop : input.stopper? = none) : s.asked input = s := by
  simp [asked, hstart, hstop]

/-- A command is fair to all who waited and to the caller that it brings. -/
theorem Consistent.fair_handleCommand (h : s.Consistent) (failure : Option SupervisorError)
    (command : SupervisorCommand) :
    (s.asked (.command command)).Fair (s.handleCommand failure command) := by
  cases command with
  | start caller =>
    exact (fair_start h.running caller).of_eq rfl (List.append_nil _).symm
  | stop caller =>
    have hidle (hidle : s.state.hasProcess = false) : s.stoppers = [] := (h.idle hidle).2.2.1
    exact (fair_stop hidle caller).of_eq (List.append_nil _).symm rfl
  | restart caller =>
    exact (fair_cycle _ failure).of_eq rfl (List.append_nil _).symm
  | send frame =>
    rw [asked_of_silent rfl rfl]
    exact fair_forward s frame
  | sourceChanged =>
    rw [asked_of_silent rfl rfl]
    rcases s.sourceChanged_cases failure with ⟨-, hturn⟩ | ⟨-, hturn⟩ <;> rw [hturn]
    · exact fair_nothing s
    · exact fair_cycle s failure
  | respawn epoch =>
    rw [asked_of_silent rfl rfl]
    rcases s.respawn_cases failure epoch with hturn | ⟨-, hturn⟩ <;> rw [hturn]
    · exact fair_nothing s
    · exact fair_spawn s failure

/-- What follows a child that has shut down answers those who start, or keeps them waiting for the
next child. -/
theorem fair_resume (s : Supervisor) (failure : Option SupervisorError) :
    s.Fair (s.resume failure) := by
  unfold resume
  split
  · exact (fair_spawn _ failure).of_eq rfl rfl
  · split
    · exact fair_answerStarters s _
    · exact fair_nothing s

theorem fair_afterExit (s : Supervisor) (failure : Option SupervisorError) (code : Option Nat)
    (before : BackendState) : s.Fair (s.afterExit failure code before) := by
  have hshutDown : s.Fair (Supervisor.andThen s.acknowledgeStoppers (resume failure)) :=
    (fair_acknowledgeStoppers s).andThen (fair_resume _ failure)
  cases before with
  | starting =>
    show s.Fair (Supervisor.andThen ([.notify (.crashed code true)], { s with restarts := false })
      (answerStarters · (.error (.earlyExit code))))
    exact Fair.andThen ⟨rfl, rfl⟩ (fair_answerStarters _ _)
  | running =>
    show s.Fair (Supervisor.andThen ([.notify (.crashed code false)], s)
      fun s => if s.isStopped then ([], s) else s.scheduleRespawn)
    refine Fair.andThen ⟨rfl, rfl⟩ ?_
    dsimp only
    split
    · exact fair_nothing s
    · exact ⟨rfl, rfl⟩
  | notStarted => exact hshutDown
  | shuttingDown => exact hshutDown
  | dead => exact hshutDown

/-- Whatever a child reports, nobody who waits is forgotten or answered twice. -/
theorem fair_handleChild (s : Supervisor) (failure : Option SupervisorError) (event : ChildEvent) :
    s.Fair (s.handleChild failure event) := by
  cases event with
  | ready =>
    show s.Fair (if s.state = .starting then
      Supervisor.andThen (s.moveTo .running) (answerStarters · (.ok ())) else ([], s))
    split
    · exact (fair_moveTo s _).andThen (fair_answerStarters _ _)
    · exact fair_nothing s
  | handshakeFailed reason => exact (fair_answerStarters s _).andThen (fair_killChild _)
  | message message => exact fair_of_isAside (fun _ => isAside_dispatch) rfl rfl
  | malformed line error => exact fair_nothing s
  | exited code =>
    have hmove : s.Fair ({ s with child := none }.moveTo .dead) := (fair_moveTo _ _).of_eq rfl rfl
    exact hmove.andThen (fair_afterExit _ failure code s.state)

end Supervisor

/-! ## Callers in a run -/

/-- The callers who want the backend to be started, in order. -/
def starts (inputs : SupervisorInputs) : List String := inputs.filterMap (·.1.starter?)

/-- The callers who want the backend to be gone, in order. -/
def stops (inputs : SupervisorInputs) : List String := inputs.filterMap (·.1.stopper?)

namespace TrackedSupervisor

variable {h : TrackedSupervisor} {input : SupervisorInput} {failure : Option SupervisorError}
  {inputs : SupervisorInputs}

/-- Every step is fair to all who waited and to the caller that it brings. -/
theorem Sound.fair (hs : h.Sound) (input : SupervisorInput) (failure : Option SupervisorError) :
    (h.supervisor.asked input).Fair (h.supervisor.step failure input) := by
  cases input with
  | command command => exact hs.consistent.fair_handleCommand failure command
  | server event =>
    rw [Supervisor.asked_of_silent rfl rfl]
    exact Supervisor.fair_handleServer _ event
  | child generation event =>
    rw [Supervisor.asked_of_silent rfl rfl, Supervisor.step]
    split
    · exact Supervisor.fair_handleChild _ failure event
    · exact Supervisor.fair_nothing _

theorem starts_append (inputs more : SupervisorInputs) :
    starts (inputs ++ more) = starts inputs ++ starts more :=
  List.filterMap_append

theorem starts_cons (input : SupervisorInput) (failure : Option SupervisorError)
    (rest : SupervisorInputs) :
    starts ((input, failure) :: rest) = input.starter?.toList ++ starts rest ∧
      stops ((input, failure) :: rest) = input.stopper?.toList ++ stops rest := by
  simp only [starts, stops, List.filterMap_cons]
  constructor <;> split <;> simp [*]

theorem append_turns {first rest waited waiting before later : List String}
    (h : first ++ waited = before) (hrest : rest ++ waiting = waited ++ later) :
    first ++ rest ++ waiting = before ++ later := by
  rw [List.append_assoc, hrest, ← List.append_assoc, h]

/-- The callers of a run are answered or wait. -/
theorem Sound.fair_run (hs : h.Sound) (orderly : h.Orderly inputs) :
    answered (h.supervisor.run inputs).1 ++ (h.supervisor.run inputs).2.starters =
        h.supervisor.starters ++ starts inputs ∧
      acknowledged (h.supervisor.run inputs).1 ++ (h.supervisor.run inputs).2.stoppers =
        h.supervisor.stoppers ++ stops inputs := by
  induction inputs generalizing h with
  | nil => exact ⟨(List.append_nil _).symm, (List.append_nil _).symm⟩
  | cons input rest ih =>
    obtain ⟨input, failure⟩ := input
    have hfair := hs.fair input failure
    obtain ⟨hstarters, hstoppers⟩ := ih (hs.next orderly.1) orderly.2
    obtain ⟨hstarts, hstops⟩ := starts_cons input failure rest
    rw [hstarts, hstops, ← List.append_assoc, ← List.append_assoc]
    constructor
    · show answered ((h.supervisor.step failure input).1 ++ _) ++ _ = _
      rw [answered_append]
      exact append_turns hfair.starters hstarters
    · show acknowledged ((h.supervisor.step failure input).1 ++ _) ++ _ = _
      rw [acknowledged_append]
      exact append_turns hfair.stoppers hstoppers

/-- A turn that ends with the backend running or dead answers everyone who waits for a start. -/
theorem Sound.answered_of_settled (hs : h.Sound) (hadmits : h.admits input)
    (hstate : (h.supervisor.step failure input).2.state = .running ∨
      (h.supervisor.step failure input).2.state = .dead) :
    answered (h.supervisor.step failure input).1 =
      h.supervisor.starters ++ input.starter?.toList := by
  have hnext : (h.supervisor.step failure input).2.Consistent := (hs.next hadmits).consistent
  have hfair := (hs.fair input failure).starters
  rw [hnext.settled hstate, List.append_nil] at hfair
  exact hfair

/-- In every reachable state callers wait for a start only while a child starts, or while one shuts
down and a new start or a stop will tell them, and they wait for the end only while a child shuts
down. Those who were answered, followed by those who wait, are those who asked, in order, so nobody
is answered twice and nobody is lost. The turn that makes the backend run, or leaves it dead,
answers everyone who waits for a start. A stop is acknowledged when no process exists. -/
theorem callers_answered {s : Supervisor} {effects : List SupervisorEffect}
    (orderly : Orderly {} inputs) (hrun : Supervisor.run {} inputs = (effects, s)) :
    (s.starters ≠ [] → s.state = .starting ∨
        s.state = .shuttingDown ∧ (s.restarts = true ∨ s.isStopped = true)) ∧
      (s.stoppers ≠ [] → s.state = .shuttingDown) ∧
      answered effects ++ s.starters = starts inputs ∧
      acknowledged effects ++ s.stoppers = stops inputs ∧
      ∀ input failure, (after {} inputs).admits input →
        ((s.step failure input).2.state = .running ∨ (s.step failure input).2.state = .dead →
          answered (s.step failure input).1 = s.starters ++ input.starter?.toList) ∧
        ∀ before caller rest, (s.step failure input).1 = before ++ .acknowledge caller :: rest →
          Vacant (before.foldl notice ((after {} inputs).hear input)) := by
  have hs : (after {} inputs).Sound := Sound.initial.after orderly
  have hsupervisor : (after {} inputs).supervisor = s := by rw [supervisor_after, hrun]
  obtain ⟨hstarters, hstoppers⟩ := Sound.initial.fair_run orderly
  rw [hrun] at hstarters hstoppers
  subst hsupervisor
  refine ⟨hs.consistent.starters, hs.consistent.stoppers, hstarters, hstoppers, ?_⟩
  intro input failure hadmits
  refine ⟨hs.answered_of_settled hadmits, fun before caller rest hsplit => ?_⟩
  exact Observation.vacant_of_follow (hs.knows_hear hadmits) (hs.follow hadmits) hsplit
    (.inr ⟨caller, rfl⟩)

/-- A child is up, is stopped and then wanted again. One caller waits for the end and one for a
start; when the child is gone and the next cannot be spawned, the one is acknowledged and the other
is answered. -/
theorem callers_answered_stopped_and_wanted :
    ∃ (inputs : SupervisorInputs) (effects : List SupervisorEffect) (s : Supervisor)
        (failure : SupervisorError),
      Orderly {} inputs ∧ Supervisor.run {} inputs = (effects, s) ∧
        s.starters = ["c"] ∧ s.stoppers = ["b"] ∧
        answered effects ++ ["c"] = ["a", "c"] ∧ acknowledged effects ++ ["b"] = ["b"] ∧
        answered (s.step (some failure) (.child 1 (.exited none))).1 = ["c"] ∧
        Vacant ([.notify (.stateChanged .shuttingDown .dead)].foldl notice
          ((after {} inputs).hear (.child 1 (.exited none)))) := by
  let inputs : SupervisorInputs := [(.command (.start "a"), none), (.child 1 .ready, none),
    (.command (.stop "b"), none), (.command (.start "c"), none)]
  have orderly : Orderly {} inputs := by decide
  obtain ⟨-, -, hstarters, hstoppers, hnext⟩ := callers_answered orderly rfl
  obtain ⟨hsettled, hgone⟩ :=
    hnext (.child 1 (.exited none)) (some (.spawn "backend" "not found")) (by decide)
  exact ⟨inputs, _, _, .spawn "backend" "not found", orderly, rfl, rfl, rfl, hstarters, hstoppers,
    hsettled (.inr rfl), hgone _ "b" _ rfl⟩

end TrackedSupervisor

end LiveDoc
