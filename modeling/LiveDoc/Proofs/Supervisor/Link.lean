import LiveDoc.Proofs.Supervisor.Hearing
import Mathlib.Data.List.Induction

/-!
# LiveDoc — the channel of a child

A child and its supervisor share a channel and nothing else. The child connects, writes lines and
closes its end; the supervisor takes line after line, and its clock tells it when the child was too
slow to get ready, and when a process that has ended has been listened to long enough. All this may
happen at any moment. A `Link` is the channel with both its ends, and with all that was written,
taken and reported.

* `Link.Moves` — what a step does.
* `Link.Sound` — what was told, and the exit behind it.
* `Link.isHeard` — all that is reported in a run.
-/

namespace LiveDoc

/-- A channel with its ends, and what has become of it. -/
structure Link where
  child : Child := {}
  -- The child has connected, and it has closed its end.
  isOpen : Bool := false
  isClosed : Bool := false
  -- The lines that the child wrote, in order, are those that the supervisor took and the others.
  written : List String := []
  taken : List String := []
  unread : List String := []
  -- What was reported of the child.
  reported : List ChildEvent := []

inductive LinkStep where
  | connect
  | write (line : String)
  | close
  -- The supervisor reads on, as long as it listens: a line or the end, if either is there.
  | take
  -- The channel breaks, for either end.
  | fail (reason : String)
  | deadline
  -- The process ends, by itself or because it was killed.
  | exit (code : Option Nat)
  | drained
  deriving DecidableEq

/-- What reaches the supervisor beside the channel. -/
def LinkStep.input? : LinkStep → Option ChildInput
  | .fail reason => some (.broken reason)
  | .deadline => some .deadline
  | .exit code => some (.exit code)
  | .drained => some .drained
  | .connect | .write _ | .close | .take => none

/-- The code of a process that ends. -/
def LinkStep.code? (s : LinkStep) : Option (Option Nat) := s.input?.bind ChildInput.code?

namespace Link

/-- The supervisor has the input. -/
def tell (l : Link) (input : ChildInput) : Link :=
  { l with
    child := (l.child.step input).2
    taken := l.taken ++ input.line?.toList
    reported := l.reported ++ (l.child.step input).1 }

def take (l : Link) : Link :=
  if l.isOpen = true ∧ l.child.phase ≠ .finished then
    match l.unread with
    | line :: rest => { l with unread := rest }.tell (.line line)
    | [] => if l.isClosed then l.tell .hangUp else l
  else l

/-- What can happen, at any moment. -/
def step (l : Link) : LinkStep → Link
  | .connect => { l with isOpen := true }
  | .write line =>
    if l.isOpen = true ∧ l.isClosed = false then
      { l with written := l.written ++ [line], unread := l.unread ++ [line] }
    else l
  | .close => { l with isClosed := l.isClosed || l.isOpen }
  | .take => l.take
  | .fail reason => l.tell (.broken reason)
  | .deadline => l.tell .deadline
  | .exit code => l.tell (.exit code)
  | .drained => l.tell .drained

/-- The channel of a child that was spawned, after the steps. -/
def after (readyTimeoutMs : Nat) (steps : List LinkStep) : Link :=
  steps.foldl step { child := { readyTimeoutMs } }

variable {l l' : Link} {s : LinkStep} {readyTimeoutMs : Nat} {steps : List LinkStep}

@[simp] theorem after_concat (s : LinkStep) :
    after readyTimeoutMs (steps ++ [s]) = (after readyTimeoutMs steps).step s := by
  simp [after]

/-- What a step does: the child alone does something, or the supervisor has an input. -/
inductive Moves (l : Link) : LinkStep → Link → Prop
  | child (s : LinkStep) (isOpen isClosed : Bool) (lines : List String) (hinput : s.input? = none)
      (hline : lines ≠ [] → l.isOpen = true ∧ l.isClosed = false)
      (hopen : l.isOpen = true → isOpen = true) (hclosed : l.isClosed = true → isClosed = true) :
    Moves l s
      { l with isOpen, isClosed, written := l.written ++ lines, unread := l.unread ++ lines }
  | line (text : String) (rest : List String) (hphase : l.child.phase ≠ .finished)
      (hunread : l.unread = text :: rest) :
    Moves l .take ({ l with unread := rest }.tell (.line text))
  | hangUp (hphase : l.child.phase ≠ .finished) (hclosed : l.isClosed = true)
      (hunread : l.unread = []) :
    Moves l .take (l.tell .hangUp)
  | beside (s : LinkStep) (input : ChildInput) (hinput : s.input? = some input) :
    Moves l s (l.tell input)

/-- To take a line is to report what it comes to, if the channel is still read. -/
theorem moves_take (l : Link) : l.Moves .take l.take := by
  have hsame : l.Moves .take l := by
    simpa using Moves.child (l := l) .take l.isOpen l.isClosed [] rfl (by simp) id id
  rw [take]
  split
  · next hopen =>
    split
    · next text rest hunread => exact .line text rest hopen.2 hunread
    · next hunread =>
      split
      · next hclosed => exact .hangUp hopen.2 hclosed hunread
      · exact hsame
  · exact hsame

theorem moves_step (l : Link) (s : LinkStep) : l.Moves s (l.step s) := by
  cases s with
  | connect =>
    simpa [step] using Moves.child (l := l) .connect true l.isClosed [] rfl (by simp) (by simp) id
  | write line =>
    rw [step]
    split
    · next hopen => exact .child _ l.isOpen l.isClosed [line] rfl (fun _ => hopen) id id
    · simpa using Moves.child (l := l) (.write line) l.isOpen l.isClosed [] rfl (by simp) id id
  | close =>
    simpa [step] using Moves.child (l := l) .close l.isOpen (l.isClosed || l.isOpen) [] rfl
      (by simp) id (by simp +contextual)
  | take => exact moves_take l
  | fail reason => exact .beside _ _ rfl
  | deadline => exact .beside _ _ rfl
  | exit code => exact .beside _ _ rfl
  | drained => exact .beside _ _ rfl

/-! ### What holds at any moment -/

/-- What was told, and the exit behind it. -/
structure Sound (l : Link) : Prop where
  timely : l.child.IsTimely
  opened : l.written ≠ [] → l.isOpen = true
  order : l.written = l.taken ++ l.unread
  told : ∃ events, Child.Told l.child.phase l.taken events ∧
    l.reported = events ++ l.child.farewell

theorem Sound.hears (h : l.Sound) (input : ChildInput) :
    l.child.Hears input (l.child.step input).1 (l.tell input).child :=
  h.timely.hears input

/-- An input that leaves the unread lines in order keeps the link sound. -/
theorem Sound.tell (h : l.Sound) {input : ChildInput} (unread : List String)
    (hunread : l.unread = input.line?.toList ++ unread)
    (hline : input.line?.isSome = true → l.child.phase ≠ .finished) :
    Sound ({ l with unread }.tell input) where
  timely := (h.hears input).isTimely h.timely
  opened := h.opened
  order := by simp [Link.tell, h.order, hunread]
  told := by
    obtain ⟨events, htold, hreported⟩ := h.told
    obtain ⟨events', htold', heq⟩ := (h.hears input).told htold hline
    exact ⟨events', htold', by simpa [Link.tell, hreported] using heq⟩

theorem LinkStep.line?_of_input? {input : ChildInput} (h : s.input? = some input) :
    input.line? = none := by
  cases s <;> cases h <;> rfl

/-- Every move keeps the link sound. -/
theorem Moves.sound (h : l.Moves s l') (hl : l.Sound) : l'.Sound := by
  cases h with
  | child s isOpen isClosed lines _ hline hopen =>
    refine ⟨hl.timely, fun hwritten => hopen ?_, by simp [hl.order], hl.told⟩
    by_cases hlines : lines = []
    · exact hl.opened (by simpa [hlines] using hwritten)
    · exact (hline hlines).1
  | line text rest hphase hunread => exact hl.tell rest hunread fun _ => hphase
  | hangUp => exact hl.tell l.unread rfl (by simp [ChildInput.line?])
  | beside s input hinput =>
    have hnone := LinkStep.line?_of_input? hinput
    exact hl.tell l.unread (by simp [hnone]) (by simp [hnone])

theorem Moves.exit_eq (h : l.Moves s l') (hl : l.Sound) :
    l'.child.exit = l.child.exit.or s.code? := by
  cases h with
  | child s isOpen isClosed lines hinput => simp [LinkStep.code?, hinput]
  | line => exact (hl.hears _).exit_eq
  | hangUp => exact (hl.hears _).exit_eq
  | beside s input hinput => simpa [LinkStep.code?, hinput] using (hl.hears input).exit_eq

theorem Moves.finished (h : l.Moves s l') (hl : l.Sound) (hphase : l.child.phase = .finished) :
    l'.child.phase = .finished := by
  cases h with
  | child => exact hphase
  | line _ _ hne => exact absurd hphase hne
  | hangUp hne => exact absurd hphase hne
  | beside s input => exact (hl.hears input).finished hphase

theorem Moves.drained (h : l.Moves .drained l') (hl : l.Sound)
    (hexit : l.child.exit.isSome = true) : l'.child.phase = .finished := by
  cases h with
  | child _ _ _ _ hinput => cases hinput
  | beside _ input hinput =>
    cases hinput
    exact (hl.hears .drained).drained hexit

/-- Nothing was heard yet, and the time is not over. -/
theorem Moves.awaited (h : l.Moves s l') (hl : l.Sound) (hphase : l'.child.phase = .awaited) :
    l.child.phase = .awaited ∧ s ≠ .deadline := by
  cases h with
  | child s _ _ _ hinput => exact ⟨hphase, by rintro rfl; cases hinput⟩
  | line text => exact ⟨((hl.hears (.line text)).awaited hphase).1, by simp⟩
  | hangUp => exact ⟨((hl.hears .hangUp).awaited hphase).1, by simp⟩
  | beside s input hinput =>
    obtain ⟨hbefore, -, hne⟩ := (hl.hears input).awaited hphase
    refine ⟨hbefore, ?_⟩
    rintro rfl
    cases hinput
    exact hne rfl

/-- A child gets ready when its first line is taken and says so. -/
theorem Moves.ready_mem (h : l.Moves s l') (hl : l.Sound) (hnew : .ready ∉ l.reported)
    (hmem : .ready ∈ l'.reported) :
    s = .take ∧ l.child.phase = .awaited ∧ l'.child.phase = .established ∧
      ∃ first, l.unread.head? = some first ∧ parseLine first = .ok .ready := by
  have hout {input : ChildInput} (h : .ready ∈ l.reported ++ (l.child.step input).1) :
      .ready ∈ (l.child.step input).1 := (List.mem_append.mp h).resolve_left hnew
  cases h with
  | child => exact absurd hmem hnew
  | line text rest hphase hunread =>
    obtain ⟨hawaited, hready, first, heq, hfirst⟩ := (hl.hears _).ready_mem (hout hmem)
    cases heq
    exact ⟨rfl, hawaited, hready, text, by simp [hunread], hfirst⟩
  | hangUp =>
    obtain ⟨-, -, first, heq, -⟩ := (hl.hears _).ready_mem (hout hmem)
    cases heq
  | beside s input hinput =>
    obtain ⟨-, -, first, rfl, -⟩ := (hl.hears _).ready_mem (hout hmem)
    cases LinkStep.line?_of_input? hinput

/-- The child has closed its end, and all its lines are taken. -/
def IsSpent (l : Link) : Prop := l.isClosed = true ∧ l.unread = []

theorem Moves.isSpent (h : l.Moves s l') (hspent : l.IsSpent) : l'.IsSpent := by
  obtain ⟨hclosed, hunread⟩ := hspent
  cases h with
  | child s isOpen isClosed lines hinput hline hopen hstill =>
    have hnil : lines = [] := by
      by_contra hne
      simp [hline hne] at hclosed
    exact ⟨hstill hclosed, by simp [hunread, hnil]⟩
  | line text rest _ hcons => simp [hunread] at hcons
  | hangUp | beside => exact ⟨hclosed, hunread⟩

/-- An established channel ends if it is spent or breaks, or if the process has ended before. -/
theorem Moves.ended (h : l.Moves s l') (hl : l.Sound) (hphase : l.child.phase = .established)
    (hphase' : l'.child.phase = .finished) :
    l'.IsSpent ∨ (∃ reason, s = .fail reason) ∨ s = .drained ∧ l.child.exit.isSome = true := by
  cases h with
  | child => simp [hphase] at hphase'
  | line text =>
    rcases (hl.hears (.line text)).ended hphase hphase' with heq | ⟨_, heq⟩ | ⟨heq, -⟩ <;> cases heq
  | hangUp _ hclosed hunread => exact .inl ⟨hclosed, hunread⟩
  | beside s input hinput =>
    rcases (hl.hears input).ended hphase hphase' with rfl | ⟨reason, rfl⟩ | ⟨rfl, hexit⟩
    · cases s <;> cases hinput
    · cases s <;> cases hinput
      exact .inr (.inl ⟨reason, rfl⟩)
    · cases s <;> cases hinput
      exact .inr (.inr ⟨rfl, hexit⟩)

/-! ### What holds of a run -/

theorem sound_after (readyTimeoutMs : Nat) (steps : List LinkStep) :
    (after readyTimeoutMs steps).Sound := by
  induction steps using List.reverseRecOn with
  | nil => exact ⟨by simp [Child.IsTimely, after], by simp [after], rfl, [], .awaited, rfl⟩
  | append_singleton steps s ih =>
    rw [after_concat]
    exact (moves_step _ s).sound ih

/-- The exit that counts is the first of the steps. -/
theorem exit_after (readyTimeoutMs : Nat) (steps : List LinkStep) :
    (after readyTimeoutMs steps).child.exit = steps.findSome? LinkStep.code? := by
  induction steps using List.reverseRecOn with
  | nil => rfl
  | append_singleton steps s ih =>
    rw [after_concat, (moves_step _ s).exit_eq (sound_after _ _), ih, List.findSome?_append]
    simp

/-- A child whose first line is still waited for has time left. -/
theorem not_deadline_of_awaited (h : (after readyTimeoutMs steps).child.phase = .awaited) :
    .deadline ∉ steps := by
  induction steps using List.reverseRecOn with
  | nil => simp
  | append_singleton steps s ih =>
    rw [after_concat] at h
    obtain ⟨hbefore, hne⟩ := (moves_step _ s).awaited (sound_after _ _) h
    simp [ih hbefore, hne.symm]

/-- The process had ended, and what it left was read for as long as it is. -/
def IsDrained (steps : List LinkStep) : Prop :=
  ∃ before code rest, steps = before ++ .drained :: rest ∧ .exit code ∈ before

theorem exit_isSome_of_mem {code : Option Nat} (h : .exit code ∈ steps) :
    (after readyTimeoutMs steps).child.exit.isSome = true := by
  rw [exit_after, List.findSome?_isSome_iff]
  exact ⟨_, h, rfl⟩

theorem exit_mem_of_isSome (h : (after readyTimeoutMs steps).child.exit.isSome = true) :
    ∃ code, .exit code ∈ steps := by
  rw [exit_after, List.findSome?_isSome_iff] at h
  obtain ⟨s, hmem, hcode⟩ := h
  cases s with
  | exit code => exact ⟨code, hmem⟩
  | _ => cases hcode

/-- Where the process is gone and its output was drained behind it, the channel is read no more. -/
theorem finished_of_isDrained (h : IsDrained steps) :
    (after readyTimeoutMs steps).child.phase = .finished := by
  obtain ⟨before, code, rest, rfl, hexit⟩ := h
  induction rest using List.reverseRecOn with
  | nil =>
    rw [after_concat]
    exact (moves_step _ .drained).drained (sound_after _ _) (exit_isSome_of_mem hexit)
  | append_singleton rest s ih =>
    rw [← List.cons_append, ← List.append_assoc, after_concat]
    exact (moves_step _ s).finished (sound_after _ _) ih

theorem IsDrained.concat (h : IsDrained steps) (s : LinkStep) : IsDrained (steps ++ [s]) := by
  obtain ⟨before, code, rest, rfl, hexit⟩ := h
  exact ⟨before, code, rest ++ [s], by simp, hexit⟩

/-- A child that was reported ready said so in its first line. -/
theorem Sound.told_of_ready (h : l.Sound) (hready : .ready ∈ l.reported) :
    l.child.phase ≠ .awaited ∧ ∃ first, l.taken.head? = some first ∧
      parseLine first = .ok .ready := by
  obtain ⟨events, htold, hreported⟩ := h.told
  rw [hreported, List.mem_append] at hready
  have hmem := hready.resolve_right l.child.ready_notMem_farewell
  generalize l.child.phase = phase, l.taken = taken at htold
  cases htold with
  | awaited | silent => cases hmem
  | failed | refused => simp at hmem
  | ready _ first rest _ hphase hfirst => exact ⟨hphase, first, rfl, hfirst⟩

/-- The first line was taken in time. -/
theorem ready_after (h : .ready ∈ (after readyTimeoutMs steps).reported) :
    ∃ before rest, steps = before ++ .take :: rest ∧ .deadline ∉ before ∧
      (after readyTimeoutMs before).taken = [] := by
  induction steps using List.reverseRecOn with
  | nil => cases h
  | append_singleton steps s ih =>
    rw [after_concat] at h
    by_cases hnew : .ready ∈ (after readyTimeoutMs steps).reported
    · obtain ⟨before, rest, rfl, hbefore⟩ := ih hnew
      exact ⟨before, rest ++ [s], by simp, hbefore⟩
    · obtain ⟨rfl, hphase, -⟩ := (moves_step _ s).ready_mem (sound_after _ _) hnew h
      obtain ⟨events, htold, -⟩ := (sound_after readyTimeoutMs steps).told
      rw [hphase] at htold
      exact ⟨steps, [], rfl, not_deadline_of_awaited hphase, htold.of_awaited.1⟩

/-- Why a channel has ended on which the child got ready. -/
theorem ended_after (h : .ready ∈ (after readyTimeoutMs steps).reported)
    (hphase : (after readyTimeoutMs steps).child.phase = .finished) :
    (after readyTimeoutMs steps).IsSpent ∨ (∃ reason, .fail reason ∈ steps) ∨ IsDrained steps := by
  induction steps using List.reverseRecOn with
  | nil => cases h
  | append_singleton steps s ih =>
    have hl := sound_after readyTimeoutMs steps
    have hmoves := moves_step (after readyTimeoutMs steps) s
    rw [after_concat] at h hphase ⊢
    by_cases hnew : .ready ∈ (after readyTimeoutMs steps).reported
    swap
    · simp [(hmoves.ready_mem hl hnew h).2.2.1] at hphase
    cases hbefore : (after readyTimeoutMs steps).child.phase with
    | awaited => exact absurd hbefore (hl.told_of_ready hnew).1
    | established =>
      rcases hmoves.ended hl hbefore hphase with hspent | ⟨reason, rfl⟩ | ⟨rfl, hexit⟩
      · exact .inl hspent
      · exact .inr (.inl ⟨reason, by simp⟩)
      · obtain ⟨code, hcode⟩ := exit_mem_of_isSome hexit
        exact .inr (.inr ⟨steps, code, [], rfl, hcode⟩)
    | finished =>
      rcases ih hnew hbefore with hspent | ⟨reason, hmem⟩ | hdrained
      · exact .inl (hmoves.isSpent hspent)
      · exact .inr (.inl ⟨reason, List.mem_append_left _ hmem⟩)
      · exact .inr (.inr (hdrained.concat s))

/-- The next line of an established channel is reported, and the channel stays. -/
theorem Sound.step_take (h : l.Sound) (hphase : l.child.phase = .established) {text : String}
    {rest : List String} (hunread : l.unread = text :: rest) :
    l.step .take =
      { l with
        taken := l.taken ++ [text]
        unread := rest
        reported := l.reported ++ (Child.report text).toList } := by
  have hopen : l.isOpen = true := h.opened (by simp [h.order, hunread])
  have hgone := h.timely.isGone_of_ne (by simp [hphase])
  simp [step, take, Link.tell, hopen, hphase, hunread, hgone, Child.step, Child.line,
    ChildInput.line?]

/-- If the supervisor reads on, all that the child has written gets taken and reported. -/
theorem Sound.reads (h : l.Sound) (hphase : l.child.phase = .established) :
    (List.replicate l.unread.length .take).foldl step l =
      { l with
        taken := l.written
        unread := []
        reported := l.reported ++ l.unread.filterMap Child.report } := by
  generalize hunread : l.unread = unread
  induction unread generalizing l with
  | nil =>
    have horder : l.written = l.taken := by simp [h.order, hunread]
    cases l
    simp_all
  | cons text rest ih =>
    have hstep := h.step_take hphase hunread
    have hnext := (moves_step l .take).sound h
    rw [List.length_cons, List.replicate_succ, List.foldl_cons, ih hnext (by simp [hstep, hphase])
      (by simp [hstep]), hstep]
    cases hsaid : Child.report text <;> simp [hsaid]

/-! ## The law -/

/-- What is heard of a child, whatever it does and whatever becomes of it. -/
structure IsHeard (readyTimeoutMs : Nat) (steps : List LinkStep) (l : Link) : Prop where
  -- What the taken lines come to, and behind it the exit, once the channel has ended too.
  told : ∃ events, Child.Told l.child.phase l.taken events ∧ l.reported = events ++ l.child.farewell
  order : l.written = l.taken ++ l.unread
  exit : l.child.exit = steps.findSome? LinkStep.code?
  drained : IsDrained steps → l.child.phase = .finished
  -- The child gets ready by its first line, if that is taken in time.
  ready : .ready ∈ l.reported →
    (∃ first, l.written.head? = some first ∧ parseLine first = .ok .ready) ∧
      ∃ before rest, steps = before ++ .take :: rest ∧ .deadline ∉ before ∧
        (after readyTimeoutMs before).taken = []
  -- No line ends the channel then.
  ended : .ready ∈ l.reported → l.child.phase = .finished →
    l.IsSpent ∨ (∃ reason, .fail reason ∈ steps) ∨ IsDrained steps
  -- As long as it lasts, what was not taken yet is taken and reported by reading on.
  reads : l.child.phase = .established → ∃ said, Child.AreReportedAs l.unread said ∧
    (List.replicate l.unread.length .take).foldl step l =
      { l with taken := l.written, unread := [], reported := l.reported ++ said }

/-- All that is reported of a child, for any steps in any order. -/
theorem isHeard (readyTimeoutMs : Nat) (steps : List LinkStep) :
    IsHeard readyTimeoutMs steps (after readyTimeoutMs steps) where
  told := (sound_after _ _).told
  order := (sound_after _ _).order
  exit := exit_after _ _
  drained := finished_of_isDrained
  ready h := by
    obtain ⟨-, first, hhead, hfirst⟩ := (sound_after _ _).told_of_ready h
    refine ⟨⟨first, ?_, hfirst⟩, ready_after h⟩
    rw [(sound_after _ _).order, List.head?_append, hhead, Option.some_or]
  ended := ended_after
  reads h := ⟨_, Child.areReportedAs_filterMap _, (sound_after _ _).reads h⟩

/-- A killed child left three lines, a blank one among them; the channel lasts until it is closed. -/
theorem isHeard_killed_child :
    let steps : List LinkStep :=
      [.connect, .write Message.ready.line, .write " ", .take, .write "nope",
        .write Message.ready.line, .exit none, .take, .take, .take, .close, .take]
    IsHeard 30000 steps (after 30000 steps) ∧
      (after 30000 steps).reported =
        [.ready, .malformed "nope" (.invalidJson Json.unreadable), .message .ready,
          .exited none] :=
  ⟨isHeard 30000 _, by decide +kernel⟩

end Link

end LiveDoc
