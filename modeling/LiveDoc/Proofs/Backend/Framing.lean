import LiveDoc.Backend.Channel
import LiveDoc.Proofs.Backend.FailClosed
import LiveDoc.Proofs.Json.Printable
import LiveDoc.Proofs.Message.Frames
import LiveDoc.Proofs.Text.Lines
import Mathlib.Data.List.Induction

/-!
# LiveDoc — what a backend says is what its supervisor hears

A backend queues messages as lines, before it connects and after. Once there is a connection it
greets its supervisor and writes the lines, in the order in which they were queued. The text of a
message is one line, whatever texts are in it, so among the bytes that were written the supervisor
finds these lines again. Each of them is read back as the message it was written for, if no free
member of it takes a declared name and its values can be read from text at all.

* `Uplink` — a backend's end of the channel as it writes.
* `Uplink.exists_holds` — what was written and what still waits is what was queued.
* `Child.run_lines` — what a supervisor hears of lines that were read back.
* `Backend.speaks` — the two together, for every run of a backend.
-/

namespace LiveDoc

open Json

/-! ## Lines -/

theorem Json.Value.isLine_text (v : Value) : Text.IsLine v.text := by
  have hprintable := v.isPrintable_chars
  rw [Text.IsLine, Value.text, String.toList_ofList]
  refine ⟨fun hfeed => ?_, fun hreturn => ?_⟩
  · exact absurd (hprintable '\n' hfeed) (by decide)
  · exact absurd (hprintable '\r' (List.mem_of_getLast? hreturn)) (by decide)

theorem Message.isLine_line (m : Message) : Text.IsLine m.line := m.draft.isLine_text

/-! ## Writing -/

/-- A backend's end of the channel as it writes. -/
structure Uplink where
  -- The lines that were queued and are not written yet.
  waiting : List String := []
  -- What was written, once there is a connection.
  written : Option (List UInt8) := none

inductive UplinkStep where
  | queue (message : Message)
  | connect
  -- The next line is written.
  | write

namespace Uplink

/-- The effect of one step. The greeting is written with the connection; without one nothing is. -/
def step (u : Uplink) : UplinkStep → Uplink
  | .queue m => { u with waiting := u.waiting ++ [m.line] }
  | .connect =>
    match u.written with
    | none => { u with written := some (Utf8.encode (Message.ready.line ++ "\n")) }
    | some _ => u
  | .write =>
    match u.written, u.waiting with
    | some sent, line :: rest =>
      { waiting := rest, written := some (sent ++ Utf8.encode (line ++ "\n")) }
    | _, _ => u

def after (steps : List UplinkStep) : Uplink := steps.foldl step {}

end Uplink

def UplinkStep.message? : UplinkStep → Option Message
  | .queue m => some m
  | _ => none

/-- The messages that were queued in a run. -/
def UplinkStep.queued (steps : List UplinkStep) : List Message := steps.filterMap message?

namespace Uplink

variable {u : Uplink} {done pending : List Message}

/-- Some messages were written, and others wait. -/
structure Holds (u : Uplink) (done pending : List Message) : Prop where
  waiting : u.waiting = pending.map Message.line
  written : u.written = none ∧ done = [] ∨
    u.written = some (Utf8.encode (Outbox.written { queued := done }))

theorem outbox_written (done : List Message) :
    Outbox.written { queued := done } =
      Text.unlines (Message.ready.line :: done.map Message.line) := rfl

/-- One more message makes one more line. -/
theorem encode_written_concat (done : List Message) (m : Message) :
    Utf8.encode (Outbox.written { queued := done ++ [m] }) =
      Utf8.encode (Outbox.written { queued := done }) ++ Utf8.encode (m.line ++ "\n") := by
  rw [outbox_written, List.map_append, List.map_singleton, ← List.cons_append,
    Text.unlines_concat, Utf8.encode_append, ← outbox_written]

/-- A step moves the first message that waits, or adds one behind them. -/
theorem Holds.step (h : u.Holds done pending) (s : UplinkStep) :
    ∃ done' pending', done' ++ pending' = done ++ pending ++ s.message?.toList ∧
      (u.step s).Holds done' pending' := by
  cases s with
  | queue m =>
    refine ⟨done, pending ++ [m], by simp [UplinkStep.message?], ?_, h.written⟩
    simp [Uplink.step, h.waiting]
  | connect =>
    refine ⟨done, pending, by simp [UplinkStep.message?], ?_⟩
    rcases h.written with ⟨hnone, rfl⟩ | hsome
    · refine ⟨by simp [Uplink.step, hnone, h.waiting], .inr ?_⟩
      simp [Uplink.step, hnone, Outbox.written, Outbox.lines]
    · have hstep : u.step .connect = u := by simp [Uplink.step, hsome]
      rwa [hstep]
  | write =>
    rcases h.written with ⟨hnone, rfl⟩ | hsome
    · have hstep : u.step .write = u := by simp [Uplink.step, hnone]
      exact ⟨[], pending, by simp [UplinkStep.message?], by rwa [hstep]⟩
    cases pending with
    | nil =>
      have hstep : u.step .write = u := by simp [Uplink.step, hsome, h.waiting]
      exact ⟨done, [], by simp [UplinkStep.message?], by rwa [hstep]⟩
    | cons m pending =>
      refine ⟨done ++ [m], pending, by simp [UplinkStep.message?], ?_, .inr ?_⟩
      · simp [Uplink.step, hsome, h.waiting]
      · simp [Uplink.step, hsome, h.waiting, encode_written_concat]

/-- What was written and what waits are together what was queued, in that order. -/
theorem exists_holds (steps : List UplinkStep) :
    ∃ done pending, done ++ pending = UplinkStep.queued steps ∧
      (after steps).Holds done pending := by
  induction steps using List.reverseRecOn with
  | nil => exact ⟨[], [], rfl, rfl, .inl ⟨rfl, rfl⟩⟩
  | append_singleton steps s ih =>
    obtain ⟨done, pending, hqueued, hholds⟩ := ih
    obtain ⟨done', pending', hstep, hholds'⟩ := hholds.step s
    refine ⟨done', pending', ?_, ?_⟩
    · rw [hstep, hqueued, UplinkStep.queued, UplinkStep.queued, List.filterMap_append]
      cases hs : s.message? <;> simp [hs]
    · rw [after, List.foldl_concat]
      exact hholds'

end Uplink

/-! ## Reading -/

theorem Child.run_cons (c : Child) (input : ChildInput) (rest : List ChildInput) :
    c.run (input :: rest) =
      ((c.step input).1 ++ ((c.step input).2.run rest).1, ((c.step input).2.run rest).2) := rfl

/-- On an established channel the lines are heard one by one. -/
theorem Child.run_established {c : Child} (hphase : c.phase = .established)
    (hgone : c.isGone = false) {messages : List Message}
    (h : ∀ m ∈ messages, parseLine m.line = .ok m) :
    c.run ((messages.map Message.line).map .line) = (messages.map .message, c) := by
  induction messages with
  | nil => rfl
  | cons m messages ih =>
    have hm : c.step (.line m.line) = ([.message m], c) := by
      rw [step_line hphase hgone, report_of_ok (h m List.mem_cons_self)]
      rfl
    have hrest := ih fun other hother => h other (List.mem_cons_of_mem _ hother)
    rw [List.map_cons, List.map_cons, run_cons, hm]
    dsimp only
    rw [hrest]
    rfl

/-- A supervisor that awaits its child hears that it is ready, and then the messages of the lines. -/
theorem Child.run_lines {c : Child} (hphase : c.phase = .awaited) (hgone : c.isGone = false)
    {messages : List Message} (h : ∀ m ∈ messages, parseLine m.line = .ok m) :
    c.run ((Message.ready.line :: messages.map Message.line).map .line) =
      (.ready :: messages.map .message, { c with phase := .established }) := by
  have hready : c.step (.line Message.ready.line) = ([.ready], { c with phase := .established }) := by
    simp [step, line, hphase, hgone, parseLine_ready]
  have hestablished : ({ c with phase := .established } : Child).phase = .established := rfl
  rw [List.map_cons, run_cons, hready]
  dsimp only
  rw [run_established hestablished hgone h]
  rfl

/-! ## What a backend sends -/

/-- What a backend sends, by itself or in reply to a frame. -/
inductive Backend.Sends (b : Backend) : Message → Prop
  | batch (edits : List Edit) : b.Sends (.apply edits)
  | log (lines : List String) : b.Sends (.log lines)
  | reply {frame : ChannelFrame} {m : Message} (h : m ∈ b.replies frame) : b.Sends m

namespace Message

/-- The names of the members that a message declares besides its tag, if it has free ones. -/
def declaredNames (m : Message) : List String := m.reservedNames.filter (· ≠ "type")

/-- The message can be written as text and read from it: its objects are maps, no free member has a
declared name, and its values are such that a parser takes them. -/
structure IsSpeakable (m : Message) : Prop where
  canonical : m.IsCanonical
  declared : ∀ key ∈ KeyMap.keys m.freeMembers, key ∉ m.declaredNames
  numbers : m.draft.AllNumbers Number.ReadsBack
  depth : m.draft.depth ≤ maxDepth

end Message

/-- No free member of what a backend sends names a message. -/
theorem Backend.Sends.type_notMem {b : Backend} {m : Message} (h : b.Sends m) :
    "type" ∉ KeyMap.keys m.freeMembers := by
  cases h with
  | batch | log => simp [Message.freeMembers]
  | reply hreply =>
    rcases of_mem_replies hreply with ⟨request, verdict, -, hverdict, rfl⟩ | ⟨-, hfree⟩
    · exact notMem_keys_of_isKept (fun _ => isKept_of_mem_authorize hverdict) (by decide)
    · simp [hfree]

/-- What a backend sends is read back from its line. -/
theorem Backend.Sends.parseLine_line {b : Backend} {m : Message} (h : b.Sends m)
    (hm : m.IsSpeakable) : parseLine m.line = .ok m := by
  refine LiveDoc.parseLine_line hm.canonical (fun key hkey hreserved => ?_) hm.numbers hm.depth
  have hne : key ≠ "type" := by
    rintro rfl
    exact h.type_notMem hkey
  exact hm.declared key hkey (List.mem_filter.mpr ⟨hreserved, by simpa using hne⟩)

/-- What a backend queued, before it connected and after, is what its supervisor hears. The bytes
that it wrote are the greeting and the messages that do not wait any more, each on a line of its
own, in the order in which they were queued; and whoever takes these bytes for lines and awaits the
backend hears that it is ready and then exactly these messages. -/
theorem Backend.speaks (b : Backend) {steps : List UplinkStep}
    (hsteps : ∀ m ∈ UplinkStep.queued steps, b.Sends m ∧ m.IsSpeakable) :
    ∃ done pending, done ++ pending = UplinkStep.queued steps ∧
      (Uplink.after steps).waiting = pending.map Message.line ∧
      ((Uplink.after steps).written = none → done = []) ∧
      ∀ sent, (Uplink.after steps).written = some sent →
        sent = Utf8.encode (Outbox.written { queued := done }) ∧
        ∃ lines, Utf8.lines? sent = some lines ∧
          ∀ c : Child, c.phase = .awaited → c.isGone = false →
            c.run (lines.map .line) =
              (.ready :: done.map .message, { c with phase := .established }) := by
  obtain ⟨done, pending, hqueued, hholds⟩ := Uplink.exists_holds steps
  refine ⟨done, pending, hqueued, hholds.waiting, fun hnone => ?_, fun sent hsent => ?_⟩
  · rcases hholds.written with ⟨-, hdone⟩ | hsome
    · exact hdone
    · rw [hnone] at hsome
      cases hsome
  · obtain rfl : sent = Utf8.encode (Outbox.written { queued := done }) := by
      rcases hholds.written with ⟨hnone, -⟩ | hsome
      · rw [hnone] at hsent
        cases hsent
      · rw [hsome] at hsent
        exact (Option.some.inj hsent).symm
    have hlines : ∀ line ∈ Message.ready.line :: done.map Message.line, Text.IsLine line := by
      intro line hline
      rcases List.mem_cons.mp hline with rfl | hline
      · exact Message.isLine_line _
      · obtain ⟨m, -, rfl⟩ := List.mem_map.mp hline
        exact m.isLine_line
    have hread : ∀ m ∈ done, parseLine m.line = .ok m := fun m hm =>
      have hqueue := hsteps m (by rw [← hqueued]; exact List.mem_append_left _ hm)
      hqueue.1.parseLine_line hqueue.2
    refine ⟨rfl, Message.ready.line :: done.map Message.line, ?_, fun c hphase hgone =>
      Child.run_lines hphase hgone hread⟩
    rw [Utf8.lines?_encode, Uplink.outbox_written, Text.lines_unlines hlines]

/-- A text of two lines, logged before there is a connection, is heard as the text that it is. -/
theorem Backend.speaks_two_lines :
    ∃ sent lines,
      (Uplink.after [.queue (.log ["a\r\nb\r"]), .connect, .write]).written = some sent ∧
      Utf8.lines? sent = some lines ∧
      (({} : Child).run (lines.map .line)).1 = [.ready, .message (.log ["a\r\nb\r"])] := by
  let m : Message := .log ["a\r\nb\r"]
  let steps : List UplinkStep := [.queue m, .connect, .write]
  have hspeakable : m.IsSpeakable :=
    { canonical := trivial
      declared := nofun
      numbers := by simp [m, Message.draft, Message.draftMembers]
      depth := by decide }
  have hsteps : ∀ other ∈ UplinkStep.queued steps, ({} : Backend).Sends other ∧ other.IsSpeakable := by
    intro other hother
    obtain rfl : other = m := by
      simpa [UplinkStep.queued, steps, UplinkStep.message?] using hother
    exact ⟨.log _, hspeakable⟩
  obtain ⟨done, pending, hqueued, hwaiting, -, hsent⟩ := Backend.speaks {} hsteps
  have hpending : pending = [] := List.map_eq_nil_iff.mp hwaiting.symm
  have hdone : done = [m] := by rwa [hpending, List.append_nil] at hqueued
  obtain ⟨-, lines, hlines, hheard⟩ := hsent _ rfl
  refine ⟨_, lines, rfl, hlines, ?_⟩
  rw [hheard {} rfl rfl, hdone]
  rfl

end LiveDoc
