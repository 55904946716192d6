import LiveDoc.Backend.Channel
import LiveDoc.Proofs.Supervisor.Turns

/-!
# LiveDoc — lines that a supervisor hears

A line of a child whose channel is established makes at most one event, and of that event only a
message is handed on. So what a line does to the rest of the system is settled by what the line is
read as: the message goes where messages of its kind go, and nothing comes of any other line.

* `Supervisor.hear` — the turn that a line causes.
* `Server.handed` — what comes of a turn at the server.
-/

namespace LiveDoc

open Json

/-! ## Lines and events -/

theorem Child.step_line {c : Child} (hphase : c.phase = .established) (hgone : c.isGone = false)
    (text : String) : c.step (.line text) = ((report text).toList, c) := by
  simp [step, line, hphase, hgone]

/-- No object is a blank line. -/
theorem isBlankLine_object (members : Fields) :
    isBlankLine (Value.object members).text = false := by
  have hbrace : Text.isBlank '{' = false := by decide
  cases members <;> simp [isBlankLine, Value.text, Value.chars, hbrace]

/-- What a backend answers to a line that a frame was written to. -/
theorem Backend.answerLine_line (b : Backend) (f : ChannelFrame) :
    b.answerLine f.line = (ChannelFrame.read? f.line).elim [] b.replies := by
  have hblank : isBlankLine f.line = false := isBlankLine_object _
  rw [answerLine, hblank, if_neg Bool.false_ne_true]
  cases ChannelFrame.read? f.line <;> rfl

theorem Child.report_of_ok {m read : Message} (h : parseLine m.line = .ok read) :
    report m.line = some (.message read) := by
  have hblank : m.line.toList.all Text.isBlank = false := isBlankLine_object _
  rw [report, hblank, if_neg Bool.false_ne_true, h]

theorem Child.report_of_error {m : Message} {error : WireError}
    (h : parseLine m.line = .error error) : report m.line = some (.malformed m.line error) := by
  have hblank : m.line.toList.all Text.isBlank = false := isBlankLine_object _
  rw [report, hblank, if_neg Bool.false_ne_true, h]

/-! ## Turns -/

namespace Supervisor

/-- The turn of a supervisor on a line of its current child. -/
def hear (s : Supervisor) (c : Child) (text : String) : Turn :=
  s.run ((c.step (.line text)).1.map fun event => (.child s.generation event, none))

variable {c : Child} {s : Supervisor}

/-- A line of an established channel is heard as the event that it reports. -/
theorem hear_eq (hphase : c.phase = .established) (hgone : c.isGone = false) (text : String) :
    s.hear c text = (Child.report text).elim ([], s) (s.handleChild none) := by
  rw [hear, Child.step_line hphase hgone]
  cases Child.report text with
  | none => rfl
  | some event => simp [run, step, andThen]

/-- What is handed on of a line is what is handed on of the event that it reports. -/
theorem relays_hear (hphase : c.phase = .established) (hgone : c.isGone = false) (text : String) :
    (s.hear c text).relays = (Child.report text).elim [] ChildEvent.relays := by
  rw [hear_eq hphase hgone]
  cases Child.report text with
  | none => rfl
  | some event => exact relays_handleChild s none event

end Supervisor

/-! ## What comes of a line at the server -/

namespace Server

/-- The server when all that a turn of its supervisor hands on was done. -/
def handed (s : Server) (t : Supervisor.Turn) : Server := t.relays.foldl perform s

variable {c : Child} {m : Message} {s : Supervisor} (server : Server)
  (hphase : c.phase = .established) (hgone : c.isGone = false)
include hphase hgone

theorem handed_of_ok {read : Message} (h : parseLine m.line = .ok read) :
    server.handed (s.hear c m.line) = (Relay.ofMessage read).foldl perform server := by
  rw [handed, Supervisor.relays_hear hphase hgone, Child.report_of_ok h]
  rfl

theorem handed_of_error {error : WireError} (h : parseLine m.line = .error error) :
    server.handed (s.hear c m.line) = server := by
  rw [handed, Supervisor.relays_hear hphase hgone, Child.report_of_error h]
  rfl

end Server

end LiveDoc
