import LiveDoc.Supervisor.Child
import Mathlib.Data.List.Forall2

/-!
# LiveDoc — what is heard of a child

A supervisor hears the lines of a child, that its channel has ended, that its process has, and that
its time is over. Each of these does one of a few things, and what the lines come to follows from
that: to nothing yet, to a failed handshake, or to a child that is ready, and then to one event for
each later line that is not blank. Such a line is a message or malformed, as it is read, and nothing
else about the child counts for that. The exit is reported behind all of them, and once.

* `Child.Hears` — what an input does.
* `Child.IsReportedAs`, `Child.AreReportedAs` — what a line is reported as, and lines in turn.
* `Child.Told` — what the lines that were taken come to.
* `Hears.told` — an input adds to what was told, or to the exit behind it.
-/

namespace LiveDoc

/-! ## The supervisor's end -/

/-- The code of a process that ends. -/
def ChildInput.code? : ChildInput → Option (Option Nat)
  | .exit code => some code
  | _ => none

/-- The line that is taken from the channel. -/
def ChildInput.line? : ChildInput → Option String
  | .line text => some text
  | _ => none

namespace Child

/-- The report of the exit, which is due when the process and the channel have both ended. -/
def farewell (c : Child) : List ChildEvent :=
  if c.phase = .finished then c.exit.toList.map .exited else []

/-- The channel is read no more. -/
def ended (c : Child) : Child := { c with phase := .finished, isGone := c.exit.isSome }

def exitedWith (c : Child) (code : Option Nat) : Child :=
  { c with exit := some code, isGone := decide (c.phase = .finished) }

/-- The exit was reported if the process and the channel have both ended, and not before. -/
def IsTimely (c : Child) : Prop :=
  c.isGone = true ↔ c.exit.isSome = true ∧ c.phase = .finished

/-- What an input does to a child, and what it reports. -/
inductive Hears (c : Child) : ChildInput → List ChildEvent → Child → Prop
  | ready (first : String) (hphase : c.phase = .awaited) (hfirst : parseLine first = .ok .ready) :
    Hears c (.line first) [.ready] { c with phase := .established }
  | refuse (first : String) (hphase : c.phase = .awaited)
      (hfirst : parseLine first ≠ .ok .ready) :
    Hears c (.line first)
      (.handshakeFailed s!"expected ready, got {first}" :: c.ended.farewell) c.ended
  | say (text : String) (hphase : c.phase = .established) :
    Hears c (.line text) (report text).toList c
  -- No first line will come, or none in time.
  | giveUp (input : ChildInput) (reason : String) (hphase : c.phase = .awaited)
      (hinput : input = .hangUp ∨ input = .broken reason ∨ input = .deadline) :
    Hears c input (.handshakeFailed reason :: c.ended.farewell) c.ended
  | hangUp (input : ChildInput) (hphase : c.phase = .established)
      (hinput : input = .hangUp ∨ ∃ reason, input = .broken reason) :
    Hears c input c.ended.farewell c.ended
  | drain (hphase : c.phase ≠ .finished) (hexit : c.exit.isSome = true) :
    Hears c .drained c.ended.farewell c.ended
  | exit (code : Option Nat) (hexit : c.exit = none) :
    Hears c (.exit code) (c.exitedWith code).farewell (c.exitedWith code)
  -- What comes too late or too early does nothing.
  | exitAgain (code : Option Nat) (hexit : c.exit.isSome = true) : Hears c (.exit code) [] c
  | inTime (hphase : c.phase ≠ .awaited) : Hears c .deadline [] c
  | alive (hexit : c.exit = none) : Hears c .drained [] c
  | deaf (input : ChildInput) (hphase : c.phase = .finished)
      (hinput : ∀ code, input ≠ .exit code) : Hears c input [] c

variable {c c' : Child} {input : ChildInput} {out : List ChildEvent}

@[simp] theorem ended_phase (c : Child) : c.ended.phase = .finished := rfl

@[simp] theorem exitedWith_phase (c : Child) (code : Option Nat) :
    (c.exitedWith code).phase = c.phase := rfl

/-- The exit is not reported while the channel is read. -/
theorem farewell_of_ne (h : c.phase ≠ .finished) : c.farewell = [] := if_neg h

/-- The last report is that of an exit, and no other. -/
theorem ready_notMem_farewell (c : Child) : ChildEvent.ready ∉ c.farewell := by
  unfold farewell
  split <;> simp

/-- A later line that says that the child is ready is an ordinary message. -/
theorem report_ne_ready (text : String) : report text ≠ some .ready := by
  unfold report
  split
  · simp
  · split <;> simp

theorem isTimely_ended (c : Child) : c.ended.IsTimely := by simp [IsTimely, ended]

theorem isTimely_exitedWith (c : Child) (code : Option Nat) : (c.exitedWith code).IsTimely := by
  simp [IsTimely, exitedWith]

/-- As long as the channel is read the exit is not reported. -/
theorem IsTimely.isGone_of_ne (h : c.IsTimely) (hphase : c.phase ≠ .finished) :
    c.isGone = false :=
  Bool.eq_false_iff.mpr fun hgone => hphase (h.mp hgone).2

theorem IsTimely.isGone_of_none (h : c.IsTimely) (hexit : c.exit = none) : c.isGone = false :=
  Bool.eq_false_iff.mpr fun hgone => by simpa [hexit] using (h.mp hgone).1

/-- The channel is read no more, and the exit is reported if it was waited for. -/
theorem finish_eq (h : c.isGone = false) : c.finish = (c.ended.farewell, c.ended) := by
  cases hexit : c.exit <;> simp [finish, ended, farewell, hexit, h]

/-- A failed handshake is reported before the exit. -/
theorem fail_eq (h : c.isGone = false) (reason : String) :
    c.fail reason = (.handshakeFailed reason :: c.ended.farewell, c.ended) := by
  rw [fail, finish_eq h]

/-- An exit waits for the channel to be read to its end. -/
theorem terminate_eq (h : c.isGone = false) (hexit : c.exit = none) (code : Option Nat) :
    c.terminate code = ((c.exitedWith code).farewell, c.exitedWith code) := by
  by_cases hphase : c.phase = .finished
  · simp [terminate, hexit, hphase, finish, exitedWith, farewell]
  · simp [terminate, hexit, hphase, exitedWith, farewell, h]

/-- The first exit counts, in whatever phase the channel is. -/
theorem step_exit (hc : c.IsTimely) (code : Option Nat) :
    c.step (.exit code) =
      if c.exit = none then ((c.exitedWith code).farewell, c.exitedWith code) else ([], c) := by
  split
  · next hexit =>
    have hgone := hc.isGone_of_none hexit
    rw [← terminate_eq hgone hexit, step, hgone, if_neg Bool.false_ne_true]
  · next hexit => simp [step, terminate, Option.isSome_iff_ne_none.mpr hexit]

/-- Nothing but an exit is heard of a channel that is read no more. -/
theorem step_of_finished (h : c.phase = .finished) (hc : c.IsTimely)
    (hinput : ∀ code, input ≠ .exit code) : c.step input = ([], c) := by
  cases input with
  | line text => simp [step, line, h]
  | hangUp => simp [step, Child.hangUp, h]
  | broken reason => simp [step, Child.hangUp, h]
  | deadline => simp [step, h]
  | exit code => exact absurd rfl (hinput code)
  | drained =>
    by_cases hexit : c.exit.isSome = true
    · simp [step, hc.mpr ⟨hexit, h⟩]
    · simp [step, hexit]

/-- Before the first line an input settles the handshake or does nothing. -/
theorem hears_of_awaited (h : c.phase = .awaited) (hgone : c.isGone = false)
    (hinput : ∀ code, input ≠ .exit code) : Hears c input (c.step input).1 (c.step input).2 := by
  rw [step.eq_def, hgone, if_neg Bool.false_ne_true]
  cases input with
  | line first =>
    by_cases hfirst : parseLine first = .ok .ready
    · simp only [line, h, hfirst]
      exact .ready first h hfirst
    · simp only [line, h, fail_eq hgone]
      exact .refuse first h hfirst
  | hangUp =>
    simp only [Child.hangUp, h, fail_eq hgone]
    exact .giveUp _ _ h (.inl rfl)
  | broken reason =>
    simp only [Child.hangUp, h, fail_eq hgone]
    exact .giveUp _ _ h (.inr (.inl rfl))
  | deadline =>
    simp only [h, fail_eq hgone, ↓reduceIte]
    exact .giveUp _ _ h (.inr (.inr rfl))
  | exit code => exact absurd rfl (hinput code)
  | drained =>
    simp only [finish_eq hgone]
    split
    · next hexit => exact .drain (by simp [h]) hexit
    · next hexit => exact .alive (by simpa using hexit)

/-- Behind the first line an input is one more line, the end of the channel, or nothing. -/
theorem hears_of_established (h : c.phase = .established) (hgone : c.isGone = false)
    (hinput : ∀ code, input ≠ .exit code) : Hears c input (c.step input).1 (c.step input).2 := by
  rw [step.eq_def, hgone, if_neg Bool.false_ne_true]
  cases input with
  | line text =>
    simp only [line, h]
    exact .say text h
  | hangUp =>
    simp only [Child.hangUp, h, finish_eq hgone]
    exact .hangUp _ h (.inl rfl)
  | broken reason =>
    simp only [Child.hangUp, h, finish_eq hgone]
    exact .hangUp _ h (.inr ⟨reason, rfl⟩)
  | deadline =>
    simp only [h, reduceCtorEq, ↓reduceIte]
    exact .inTime (by simp [h])
  | exit code => exact absurd rfl (hinput code)
  | drained =>
    simp only [finish_eq hgone]
    split
    · next hexit => exact .drain (by simp [h]) hexit
    · next hexit => exact .alive (by simpa using hexit)

/-- An input does one of the things listed. -/
theorem IsTimely.hears (hc : c.IsTimely) (input : ChildInput) :
    Hears c input (c.step input).1 (c.step input).2 := by
  by_cases hexit : ∃ code, input = .exit code
  · obtain ⟨code, rfl⟩ := hexit
    rw [step_exit hc]
    split
    · next hnone => exact .exit code hnone
    · next hsome => exact .exitAgain code (Option.isSome_iff_ne_none.mpr hsome)
  have hinput : ∀ code, input ≠ .exit code := fun code heq => hexit ⟨code, heq⟩
  cases hphase : c.phase with
  | awaited => exact hears_of_awaited hphase (hc.isGone_of_ne (by simp [hphase])) hinput
  | established => exact hears_of_established hphase (hc.isGone_of_ne (by simp [hphase])) hinput
  | finished =>
    rw [step_of_finished hphase hc hinput]
    exact .deaf input hphase hinput

/-! ### What each thing comes to -/

/-- No input reports an exit too early, or forgets to report it. -/
theorem Hears.isTimely (h : Hears c input out c') (hc : c.IsTimely) : c'.IsTimely := by
  cases h with
  | ready first hphase hfirst => simp [IsTimely, hc.isGone_of_ne, hphase]
  | refuse | giveUp | hangUp | drain => exact isTimely_ended c
  | exit code hexit => exact isTimely_exitedWith c code
  | say | exitAgain | inTime | alive | deaf => exact hc

/-- The first exit counts. -/
theorem Hears.exit_eq (h : Hears c input out c') : c'.exit = c.exit.or input.code? := by
  cases h with
  | ready | refuse | say => simp [ChildInput.code?, ended]
  | giveUp input reason hphase hinput =>
    rcases hinput with rfl | rfl | rfl <;> simp [ChildInput.code?, ended]
  | hangUp input hphase hinput =>
    rcases hinput with rfl | ⟨reason, rfl⟩ <;> simp [ChildInput.code?, ended]
  | drain | alive | inTime => simp [ChildInput.code?, ended]
  | exit code hexit => simp [ChildInput.code?, exitedWith, hexit]
  | exitAgain code hexit => simp [Option.or_of_isSome hexit]
  | deaf input hphase hinput =>
    cases input with
    | exit code => exact absurd rfl (hinput code)
    | _ => simp [ChildInput.code?]

theorem Hears.finished (h : Hears c input out c') (hphase : c.phase = .finished) :
    c'.phase = .finished := by
  cases h <;> simp_all [exitedWith]

/-- Nothing was heard yet, and the time is not over. -/
theorem Hears.awaited (h : Hears c input out c') (hphase : c'.phase = .awaited) :
    c.phase = .awaited ∧ input.line? = none ∧ input ≠ .deadline := by
  cases h with
  | ready | refuse | giveUp | hangUp | drain => cases hphase
  | exit | exitAgain | alive => exact ⟨hphase, rfl, by simp⟩
  | say text hsay => simp [hsay] at hphase
  | inTime hne => exact absurd hphase hne
  | deaf input hover => simp [hover] at hphase

/-- A child gets ready by a first line that says so. -/
theorem Hears.ready_mem (h : Hears c input out c') (hmem : .ready ∈ out) :
    c.phase = .awaited ∧ c'.phase = .established ∧
      ∃ first, input = .line first ∧ parseLine first = .ok .ready := by
  cases h with
  | ready first hphase hfirst => exact ⟨hphase, rfl, first, rfl, hfirst⟩
  | refuse | giveUp | hangUp | drain | exit => simp [ready_notMem_farewell] at hmem
  | say text hphase => simp [report_ne_ready] at hmem
  | exitAgain | inTime | alive | deaf => cases hmem

/-- An established channel ends if it is closed or breaks, or if the process has ended before. -/
theorem Hears.ended (h : Hears c input out c') (hphase : c.phase = .established)
    (hphase' : c'.phase = .finished) :
    input = .hangUp ∨ (∃ reason, input = .broken reason) ∨
      input = .drained ∧ c.exit.isSome = true := by
  cases h with
  | ready _ hawaited | refuse _ hawaited | giveUp _ _ hawaited => simp [hphase] at hawaited
  | hangUp _ _ hinput => exact hinput.imp_right .inl
  | drain _ hexit => exact .inr (.inr ⟨rfl, hexit⟩)
  | say | exit | exitAgain | inTime | alive | deaf => simp_all

theorem Hears.drained (h : Hears c .drained out c') (hexit : c.exit.isSome = true) :
    c'.phase = .finished := by
  cases h with
  | giveUp _ reason hphase hinput => rfl
  | hangUp _ hphase hinput => rfl
  | drain => rfl
  | alive hnone => simp [hnone] at hexit
  | deaf _ hphase => exact hphase

/-! ### What was told -/

/-- What a line that is not blank is reported as on an established channel. This is settled by its
text alone. -/
inductive IsReportedAs : String → ChildEvent → Prop
  | message {text : String} {m : Message} (hread : parseLine text = .ok m) :
    IsReportedAs text (.message m)
  | malformed {text : String} {e : WireError} (hread : parseLine text = .error e) :
    IsReportedAs text (.malformed text e)

/-- The lines are reported in order: a blank one as nothing, and any other one by one event. -/
def AreReportedAs (lines : List String) (events : List ChildEvent) : Prop :=
  List.Forall₂ IsReportedAs (lines.filter fun text => !text.toList.all Text.isBlank) events

/-- A blank line is reported as nothing, and any other as the message that it is read as, or as
malformed. -/
theorem areReportedAs_singleton (text : String) : AreReportedAs [text] (report text).toList := by
  unfold AreReportedAs report
  by_cases hblank : text.toList.all Text.isBlank = true
  · simp [hblank]
  · cases hread : parseLine text with
    | ok m => simpa [hblank] using IsReportedAs.message hread
    | error e => simpa [hblank] using IsReportedAs.malformed hread

/-- Lines that come behind others are reported behind them. -/
theorem AreReportedAs.append {lines more : List String} {said further : List ChildEvent}
    (h : AreReportedAs lines said) (hmore : AreReportedAs more further) :
    AreReportedAs (lines ++ more) (said ++ further) := by
  rw [AreReportedAs, List.filter_append]
  exact List.rel_append h hmore

/-- Lines taken one by one are reported as lines in turn. -/
theorem areReportedAs_filterMap (lines : List String) :
    AreReportedAs lines (lines.filterMap report) := by
  induction lines with
  | nil => exact .nil
  | cons text rest ih =>
    have hsplit : (text :: rest).filterMap report = (report text).toList ++ rest.filterMap report := by
      cases hsaid : report text <;> simp [hsaid]
    rw [hsplit]
    exact (areReportedAs_singleton text).append ih

/-- What is reported of the lines that were taken, while the channel is in the phase. -/
inductive Told : ChannelPhase → List String → List ChildEvent → Prop
  | awaited : Told .awaited [] []
  -- The process ended before anything was heard.
  | silent : Told .finished [] []
  | failed (reason : String) : Told .finished [] [.handshakeFailed reason]
  | refused (first : String) (hfirst : parseLine first ≠ .ok .ready) :
    Told .finished [first] [.handshakeFailed s!"expected ready, got {first}"]
  -- Behind the first line, each line that is not blank is reported by its own text.
  | ready (phase : ChannelPhase) (first : String) (rest : List String) (said : List ChildEvent)
      (hphase : phase ≠ .awaited) (hfirst : parseLine first = .ok .ready)
      (hsaid : AreReportedAs rest said) :
    Told phase (first :: rest) (.ready :: said)

variable {taken : List String} {events : List ChildEvent}

/-- Before the first line nothing is told. -/
theorem Told.of_awaited (h : Told .awaited taken events) : taken = [] ∧ events = [] := by
  cases h with
  | awaited => exact ⟨rfl, rfl⟩
  | ready _ _ _ _ hphase => exact absurd rfl hphase

/-- Behind the first line the child has told that it is ready, and then what its later lines are
read as. -/
theorem Told.of_established (h : Told .established taken events) :
    ∃ first rest said, taken = first :: rest ∧ parseLine first = .ok .ready ∧
      AreReportedAs rest said ∧ events = .ready :: said := by
  cases h with
  | ready _ first rest said _ hfirst hsaid => exact ⟨first, rest, said, rfl, hfirst, hsaid, rfl⟩

/-- The channel may end with what was told. -/
theorem Told.ended {phase : ChannelPhase} (h : Told phase taken events) :
    Told .finished taken events := by
  cases h with
  | awaited | silent => exact .silent
  | failed reason => exact .failed reason
  | refused first hfirst => exact .refused first hfirst
  | ready _ first rest said _ hfirst hsaid => exact .ready _ first rest said (by simp) hfirst hsaid

/-- An input adds to what was told, or to the exit behind it. -/
theorem Hears.told (h : Hears c input out c') (ht : Told c.phase taken events)
    (hline : input.line?.isSome = true → c.phase ≠ .finished) :
    ∃ events', Told c'.phase (taken ++ input.line?.toList) events' ∧
      events ++ c.farewell ++ out = events' ++ c'.farewell := by
  cases h with
  | ready first hphase hfirst =>
    rw [hphase] at ht
    obtain ⟨rfl, rfl⟩ := ht.of_awaited
    exact ⟨[.ready], .ready _ first [] [] (by simp) hfirst .nil, by simp [farewell, hphase]⟩
  | refuse first hphase hfirst =>
    rw [hphase] at ht
    obtain ⟨rfl, rfl⟩ := ht.of_awaited
    exact ⟨_, .refused first hfirst, by simp [farewell, hphase]⟩
  | say text hphase =>
    have hnone : c.farewell = [] := farewell_of_ne (by simp [hphase])
    rw [hphase] at ht
    obtain ⟨first, rest, said, rfl, hfirst, hsaid, rfl⟩ := ht.of_established
    exact ⟨.ready :: (said ++ (report text).toList), .ready _ first (rest ++ [text]) _
      (by simp [hphase]) hfirst (hsaid.append (areReportedAs_singleton text)), by simp [hnone]⟩
  | giveUp input reason hphase hinput =>
    rw [hphase] at ht
    obtain ⟨rfl, rfl⟩ := ht.of_awaited
    have hnone : input.line? = none := by rcases hinput with rfl | rfl | rfl <;> rfl
    rw [hnone]
    exact ⟨_, .failed reason, by simp [farewell, hphase]⟩
  | hangUp input hphase hinput =>
    have hnone : input.line? = none := by rcases hinput with rfl | ⟨reason, rfl⟩ <;> rfl
    rw [hnone]
    exact ⟨events, by simpa using ht.ended, by simp [farewell, hphase]⟩
  | drain hphase hexit =>
    exact ⟨events, by simpa [ChildInput.line?] using ht.ended, by simp [farewell_of_ne hphase]⟩
  | exit code hexit =>
    exact ⟨events, by simpa [ChildInput.line?] using ht, by simp [farewell, hexit]⟩
  | exitAgain | inTime | alive =>
    exact ⟨events, by simpa [ChildInput.line?] using ht, by simp⟩
  | deaf input hphase hinput =>
    have hnone : input.line? = none := by
      rw [← Option.not_isSome_iff_eq_none]
      exact fun hsome => hline hsome hphase
    rw [hnone]
    exact ⟨events, by simpa using ht, by simp⟩

end Child

end LiveDoc
