import LiveDoc.Proofs.Supervisor.Callers

/-!
# LiveDoc — what a restart is answered with

Whoever restarts the backend, or starts it while it shuts down, shares the list of those who wait
with callers of the child that is to be replaced, and this child may still report something. While
it shuts down its readiness answers nobody, and its exit answers nobody unless the backend was
stopped, so the caller is answered with what becomes of a later generation. Only the failure of a
handshake answers everybody who waits, whatever the state, and a caller who asked before the child
had said anything may be answered with it.

* `Supervisor.Decides` — how the start of a generation ends.
* `Supervisor.AsksAnew` — who asks for a child that is yet to be spawned.
* `TrackedSupervisor.Answers` — what such a caller may be answered with.
* `TrackedSupervisor.Awaits` — where a supervisor stands while such a caller waits.
* `TrackedSupervisor.restart_answered` — it is answered with one of these, once at most.
* `TrackedSupervisor.exists_restart_answered_by_old_child` — the failed handshake of the old child.
-/

namespace LiveDoc

/-- The start of a generation ends in an outcome: its child is ready, fails its handshake or exits
before, or cannot be spawned. -/
inductive Supervisor.Decides (s : Supervisor) (failure : Option SupervisorError)
    (input : SupervisorInput) : Nat → Except SupervisorError Unit → Prop where
  | ready (report : input = .child s.generation .ready) (state : s.state = .starting) :
      Decides s failure input s.generation (.ok ())
  | handshake {reason : String} (report : input = .child s.generation (.handshakeFailed reason)) :
      Decides s failure input s.generation (.error (.handshake reason))
  | earlyExit {code : Option Nat} (report : input = .child s.generation (.exited code))
      (state : s.state = .starting) :
      Decides s failure input s.generation (.error (.earlyExit code))
  | unspawned {error : SupervisorError} (fails : failure = some error)
      (generation : (s.step failure input).2.generation = s.generation + 1) :
      Decides s failure input (s.generation + 1) (.error error)

/-- A command by which a caller asks for a child that is yet to be spawned. -/
def Supervisor.AsksAnew (s : Supervisor) (caller : String) (ask : SupervisorCommand) : Prop :=
  ask = .restart caller ∨ ask = .start caller ∧ s.state = .shuttingDown

namespace TrackedSupervisor

variable {h asked : TrackedSupervisor} {input : SupervisorInput} {failure : Option SupervisorError}
  {inputs : SupervisorInputs} {caller : String} {outcome : Except SupervisorError Unit}

/-- What a caller may be answered with who asked a supervisor: what becomes of a later generation, or
that a stop came since. If the child had said nothing when the caller asked, it may also be that its
handshake failed while it shut down. -/
inductive Answers (asked h : TrackedSupervisor) (since : SupervisorInputs)
    (failure : Option SupervisorError) (input : SupervisorInput) :
    Except SupervisorError Unit → Prop where
  | later {g : Nat} {outcome : Except SupervisorError Unit}
      (later : asked.supervisor.generation < g)
      (decides : h.supervisor.Decides failure input g outcome) :
      Answers asked h since failure input outcome
  | stopped {stopper : String} {stopFailure : Option SupervisorError}
      (stop : (.command (.stop stopper), stopFailure) ∈ since) :
      Answers asked h since failure input (.error .stopped)
  | oldHandshake {reason : String}
      (silent : asked.reporting asked.supervisor.generation = .silent)
      (state : h.supervisor.state = .shuttingDown)
      (report : input = .child asked.supervisor.generation (.handshakeFailed reason)) :
      Answers asked h since failure input (.error (.handshake reason))

/-- Where a supervisor stands while a caller waits who asked it before: a later generation was tried,
or the last one still shuts down, which said nothing since it had said nothing before. -/
def Awaits (asked : TrackedSupervisor) (caller : String) (h : TrackedSupervisor) : Prop :=
  caller ∈ h.supervisor.starters →
    asked.supervisor.generation < h.supervisor.generation ∨
      h.supervisor.generation = asked.supervisor.generation ∧
        h.supervisor.state = .shuttingDown ∧
        (h.reporting h.supervisor.generation = .silent →
          asked.reporting asked.supervisor.generation = .silent)

/-! ## Who waits, and who is silent -/

/-- A caller who waits behind an input waited before, or came with it. -/
theorem Sound.mem_starters_of_next (hs : h.Sound)
    (hmem : caller ∈ (h.next failure input).supervisor.starters) :
    caller ∈ h.supervisor.starters ∨ input.starter? = some caller := by
  have hasked : caller ∈ (h.supervisor.asked input).starters := by
    rw [← (hs.fair input failure).starters]
    exact List.mem_append_right _ hmem
  simpa [Supervisor.asked] using hasked

/-- A caller who is answered waited before, or came with the input. -/
theorem Sound.mem_starters_of_answer (hs : h.Sound)
    (hmem : .answer caller outcome ∈ h.effects failure input) :
    caller ∈ h.supervisor.starters ∨ input.starter? = some caller := by
  have hasked : caller ∈ (h.supervisor.asked input).starters := by
    rw [← (hs.fair input failure).starters]
    exact List.mem_append_left _ (List.mem_filterMap.mpr ⟨_, hmem, rfl⟩)
  simpa [Supervisor.asked] using hasked

/-- A child that has reported nothing had reported nothing before, unless it is new. -/
theorem Sound.silent_of_next (hs : h.Sound) (hadmits : h.admits input)
    (hgeneration : (h.next failure input).supervisor.generation = h.supervisor.generation)
    {g : Nat} (hsilent : (h.next failure input).reporting g = .silent) :
    h.reporting g = .silent := by
  have hreporting : (h.next failure input).reporting = h.hear input :=
    foldl_notice_of_quiet (hs.quiet hadmits hgeneration) _
  rw [hreporting] at hsilent
  cases input with
  | command command => exact hsilent
  | server event => exact hsilent
  | child generation event =>
    rw [hear, Function.update_apply] at hsilent
    split at hsilent
    · cases event <;> cases hsilent
    · exact hsilent

/-! ## From the question to the answer -/

/-- A restart, or a start while a child shuts down, waits for a later generation. -/
theorem Sound.awaits_ask (hs : asked.Sound) {ask : SupervisorCommand}
    (hask : asked.supervisor.AsksAnew caller ask) :
    asked.Awaits caller (asked.next failure (.command ask)) := by
  intro _
  have hstep : asked.supervisor.generation <
        (asked.supervisor.handleCommand failure ask).2.generation ∨
      (asked.supervisor.handleCommand failure ask).2.generation = asked.supervisor.generation ∧
        (asked.supervisor.handleCommand failure ask).2.state = .shuttingDown := by
    rcases hask with rfl | ⟨rfl, hdown⟩
    · exact Supervisor.later_or_shuttingDown_cycle { asked.supervisor with
        isStopped := false, starters := asked.supervisor.starters ++ [caller] } failure
    · rw [Supervisor.handleCommand, Supervisor.start_of_shuttingDown failure caller hdown]
      exact .inr ⟨rfl, hdown⟩
  rcases hstep with hlater | ⟨hgeneration, hdown⟩
  · exact .inl hlater
  · refine .inr ⟨hgeneration, hdown, fun hsilent => ?_⟩
    have hgeneration' : (asked.next failure (.command ask)).supervisor.generation =
      asked.supervisor.generation := hgeneration
    rw [hgeneration'] at hsilent
    exact hs.silent_of_next rfl hgeneration' hsilent

/-- Whatever comes while such a caller waits. -/
theorem Sound.awaits_next (hs : h.Sound) (hadmits : h.admits input)
    (hawaits : asked.Awaits caller h) (hother : input.starter? ≠ some caller) :
    asked.Awaits caller (h.next failure input) := by
  intro hwaits
  have hpending := hawaits ((hs.mem_starters_of_next hwaits).resolve_right hother)
  -- A child that starts or runs is a later one.
  have hlater (hup : h.supervisor.state = .starting ∨ h.supervisor.state = .running) :
      asked.supervisor.generation < h.supervisor.generation := by
    refine hpending.resolve_right fun ⟨_, hdown, _⟩ => ?_
    rw [hdown] at hup
    rcases hup with hup | hup <;> cases hup
  show _ < (h.supervisor.step failure input).2.generation ∨ _
  cases hs.transition hadmits failure with
  | stays state generation other =>
    rcases hpending with hpending | ⟨hsame, hdown, hsilent⟩
    · exact .inl (by omega)
    · refine .inr ⟨generation.trans hsame, state.trans hdown, fun hnext => hsilent ?_⟩
      rw [show (h.next failure input).supervisor.generation = _ from generation] at hnext
      exact hs.silent_of_next hadmits generation hnext
  | rises before state generation =>
    have := hlater (.inl before)
    exact .inl (by omega)
  | shutsDown before state generation epoch =>
    have := hlater before
    exact .inl (by omega)
  | ends state generation epoch =>
    have hnobody := (hs.next hadmits).consistent.settled (.inr state)
    rw [hnobody] at hwaits
    cases hwaits
  | spawns before state generation =>
    have hle : asked.supervisor.generation ≤ h.supervisor.generation := by
      rcases hpending with hpending | ⟨hsame, -, -⟩ <;> omega
    exact .inl (by omega)

theorem Sound.awaits_after (hs : h.Sound) (orderly : h.Orderly inputs)
    (hawaits : asked.Awaits caller h) (honce : caller ∉ starts inputs) :
    asked.Awaits caller (h.after inputs) := by
  induction inputs generalizing h with
  | nil => exact hawaits
  | cons input rest ih =>
    obtain ⟨input, failure⟩ := input
    rw [(starts_cons input failure rest).1, List.mem_append, not_or] at honce
    have hother : input.starter? ≠ some caller := by simpa using honce.1
    exact ih (hs.next orderly.1) orderly.2 (hs.awaits_next orderly.1 hawaits hother) honce.2

/-- A supervisor that was not stopped is stopped by a stop only. -/
theorem Sound.stop_mem_of_isStopped (hs : h.Sound) (orderly : h.Orderly inputs)
    (hstopped : (h.after inputs).supervisor.isStopped = true) :
    h.supervisor.isStopped = true ∨
      ∃ stopper failure, (.command (.stop stopper), failure) ∈ inputs := by
  induction inputs generalizing h with
  | nil => exact .inl hstopped
  | cons input rest ih =>
    obtain ⟨input, failure⟩ := input
    rcases ih (hs.next orderly.1) orderly.2 hstopped with hnext | ⟨stopper, failure', hmem⟩
    · rcases (hs.ages orderly.1 failure).isStopped hnext with hbefore | ⟨stopper, rfl⟩
      · exact .inl hbefore
      · exact .inr ⟨stopper, failure, List.mem_cons_self⟩
    · exact .inr ⟨stopper, failure', List.mem_cons_of_mem _ hmem⟩

/-- What a caller who waits is answered with. -/
theorem Sound.answers_of_awaits (hs : h.Sound) (hadmits : h.admits input)
    (hawaits : asked.Awaits caller h) (hother : input.starter? ≠ some caller)
    {since : SupervisorInputs}
    (hstops : h.supervisor.isStopped = true →
      ∃ stopper failure, (.command (.stop stopper), failure) ∈ since)
    (hmem : .answer caller outcome ∈ h.effects failure input) :
    asked.Answers h since failure input outcome := by
  have hpending := hawaits ((hs.mem_starters_of_answer hmem).resolve_right hother)
  have hlater (hstarting : h.supervisor.state = .starting) :
      asked.supervisor.generation < h.supervisor.generation := by
    refine hpending.resolve_right fun ⟨_, hdown, _⟩ => ?_
    rw [hstarting] at hdown
    cases hdown
  cases hs.cause hadmits hmem with
  | aside haside => cases haside
  | unspawned fails generation =>
    have hle : asked.supervisor.generation ≤ h.supervisor.generation := by
      rcases hpending with hpending | ⟨hsame, -, -⟩ <;> omega
    exact .later (Nat.lt_succ_of_le hle) (.unspawned fails generation)
  | running asks state =>
    subst asks
    exact absurd rfl hother
  | ready report state => exact .later (hlater state) (.ready report state)
  | handshake report =>
    rcases hpending with hpending | ⟨hsame, hdown, hsilent⟩
    · exact .later hpending (.handshake report)
    · -- Only a child that has reported nothing may fail its handshake.
      subst report
      have hsilent' : h.reporting h.supervisor.generation = .silent := by
        cases hreporting : h.reporting h.supervisor.generation <;>
          simp [admits, hreporting, Reporting.admits] at hadmits ⊢
      exact .oldHandshake (hsilent hsilent') hdown (by rw [hsame])
  | earlyExit report state => exact .later (hlater state) (.earlyExit report state)
  | stopped report state stopped =>
    obtain ⟨stopper, stopFailure, hstop⟩ := hstops stopped
    exact .stopped hstop

/-- What a caller is answered with at once: that no child could be spawned. -/
theorem Sound.answers_ask (hs : asked.Sound) {ask : SupervisorCommand}
    (hask : asked.supervisor.AsksAnew caller ask)
    (hmem : .answer caller outcome ∈ asked.effects failure (.command ask)) :
    asked.Answers asked [] failure (.command ask) outcome := by
  cases hs.cause rfl hmem with
  | aside haside => cases haside
  | unspawned fails generation => exact .later (Nat.lt_succ_self _) (.unspawned fails generation)
  | running asks state =>
    rcases hask with rfl | ⟨-, hdown⟩
    · cases asks
    · rw [hdown] at state
      cases state
  | ready report | handshake report | earlyExit report | stopped report => cases report

/-- Whoever asks for a start takes a stop back. -/
theorem isStopped_ask {ask : SupervisorCommand}
    (hask : asked.supervisor.AsksAnew caller ask) :
    (asked.next failure (.command ask)).supervisor.isStopped ≠ true := by
  intro hstopped
  rcases hask with rfl | ⟨rfl, hdown⟩
  · let s : Supervisor := { asked.supervisor with
      isStopped := false, starters := asked.supervisor.starters ++ [caller] }
    have hages : s.Ages (.command (.restart caller)) (s.cycle failure) :=
      Supervisor.ages_cycle s failure
    rcases hages.isStopped hstopped with h | ⟨stopper, h⟩ <;> cases h
  · have hstart := Supervisor.start_of_shuttingDown failure caller hdown
    rw [next, Supervisor.step, Supervisor.handleCommand, hstart] at hstopped
    cases hstopped

/-- In every run a caller who restarts the backend, or starts it while it shuts down, is answered
once or still waits, and is answered with what becomes of a later generation or with a stop that
came since — or, if the child had not said anything when the caller asked, with the failure of its
handshake. -/
theorem restart_answered {before rest : SupervisorInputs} {ask : SupervisorCommand}
    (orderly : Orderly {} (before ++ (.command ask, failure) :: rest))
    (hask : (after {} before).supervisor.AsksAnew caller ask)
    (hnew : caller ∉ (after {} before).supervisor.starters) (honce : caller ∉ starts rest) :
    (∀ since input failure' later outcome,
      (.command ask, failure) :: rest = since ++ (input, failure') :: later →
      .answer caller outcome ∈ (after {} (before ++ since)).effects failure' input →
      (after {} before).Answers (after {} (before ++ since)) since failure' input outcome) ∧
      (answered ((after {} before).supervisor.run ((.command ask, failure) :: rest)).1 ++
        ((after {} before).supervisor.run ((.command ask, failure) :: rest)).2.starters).count
          caller = 1 := by
  rw [orderly_append] at orderly
  have hs : (after {} before).Sound := Sound.initial.after orderly.1
  have hstarter : (SupervisorInput.command ask).starter? = some caller := by
    rcases hask with rfl | ⟨rfl, -⟩ <;> rfl
  constructor
  · intro since input failure' later outcome hsplit hmem
    rw [after_append] at hmem ⊢
    cases since with
    | nil =>
      cases hsplit
      exact hs.answers_ask hask hmem
    | cons first since =>
      rw [List.cons_append, List.cons.injEq] at hsplit
      obtain ⟨rfl, rfl⟩ := hsplit
      have hrest := orderly_append.mp orderly.2.2
      have hnext : ((after {} before).next failure (.command ask)).Sound := hs.next orderly.2.1
      rw [starts_append, (starts_cons input failure' later).1] at honce
      simp only [List.mem_append, Option.mem_toList, not_or] at honce
      obtain ⟨hsince, hother, -⟩ := honce
      have hawaits := hnext.awaits_after hrest.1 (hs.awaits_ask hask) hsince
      refine (hnext.after hrest.1).answers_of_awaits hrest.2.1 hawaits hother ?_ hmem
      intro hstopped
      obtain ⟨stopper, stopFailure, hstop⟩ :=
        (hnext.stop_mem_of_isStopped hrest.1 hstopped).resolve_left (isStopped_ask hask)
      exact ⟨stopper, stopFailure, List.mem_cons_of_mem _ hstop⟩
  · rw [(hs.fair_run orderly.2).1, (starts_cons _ _ _).1, hstarter, Option.toList_some,
      List.count_append, List.count_append, List.count_eq_zero_of_not_mem hnew,
      List.count_eq_zero_of_not_mem honce, List.count_singleton_self]

/-- A child that runs is restarted. It shuts down, and the caller is answered when the next child is
ready. -/
theorem restart_answered_ready :
    ∃ (before since : SupervisorInputs),
      Orderly {} (before ++ (.command (.restart "r"), none) :: since) ∧
        (after {} before).Answers
          (after {} (before ++ [(.command (.restart "r"), none), (.child 1 (.exited none), none)]))
          [(.command (.restart "r"), none), (.child 1 (.exited none), none)] none (.child 2 .ready)
          (.ok ()) ∧
        (answered ((after {} before).supervisor.run ((.command (.restart "r"), none) :: since)).1 ++
          ((after {} before).supervisor.run
            ((.command (.restart "r"), none) :: since)).2.starters).count "r" = 1 := by
  let before : SupervisorInputs := [(.command (.start "s"), none), (.child 1 .ready, none)]
  let since : SupervisorInputs := [(.child 1 (.exited none), none), (.child 2 .ready, none)]
  have orderly : Orderly {} (before ++ (.command (.restart "r"), none) :: since) := by decide
  obtain ⟨hanswers, hcount⟩ := restart_answered orderly (.inl rfl) (by decide) (by decide)
  exact ⟨before, since, orderly,
    hanswers [_, _] (.child 2 .ready) none [] _ rfl (.tail _ (.head _)), hcount⟩

/-- A child is restarted before it has said anything, and its handshake fails while it shuts down.
The caller is answered with that, though no later child was spawned. -/
theorem exists_restart_answered_by_old_child :
    ∃ (before : SupervisorInputs) (caller reason : String) (input : SupervisorInput),
      Orderly {} (before ++ [(.command (.restart caller), none), (input, none)]) ∧
        caller ∉ (after {} before).supervisor.starters ∧
        .answer caller (.error (.handshake reason)) ∈
          (after {} (before ++ [(.command (.restart caller), none)])).effects none input ∧
        ∀ g, (after {} before).supervisor.generation < g →
          ¬ (after {} (before ++ [(.command (.restart caller), none)])).supervisor.Decides none
            input g (.error (.handshake reason)) := by
  refine ⟨[(.command (.start "s"), none)], "r", "no ready message within 120ms",
    .child 1 (.handshakeFailed "no ready message within 120ms"), by decide, by decide,
    .tail _ (.head _), fun g hlater hdecides => ?_⟩
  generalize houtcome : Except.error _ = outcome at hdecides
  cases hdecides with
  | ready report state => cases report
  | handshake report => exact absurd hlater (by decide)
  | earlyExit report state => cases report
  | unspawned fails generation => cases fails

end TrackedSupervisor

end LiveDoc
