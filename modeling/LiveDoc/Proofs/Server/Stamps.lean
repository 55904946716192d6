import LiveDoc.Proofs.Fanout.Backlog
import LiveDoc.Proofs.Server.Frames

/-!
# LiveDoc — frames with the document of their time

A stamped frame carries the document that the model had when the frame was submitted. The commands
that wait for the pump lead, one after the other, from the document that was reached by those who
read to the document that the model has now: a batch takes one document to the next, a refresh is a
document as it is, and what is neither finds and leaves it. So of the frames that are due to one
reader each takes its replica to the document on its stamp.

* `PumpCommand.Brings`, `Leads` — what a command, and commands in turn, do to the document.
* `FollowsStamps` — each frame takes the replica of its reader to its stamp.
* `Pump.InOrder` — the invariant.
-/

namespace LiveDoc

open Json

/-- A frame, and the document that the model had when the frame was submitted. -/
structure Stamped where
  frame : SocketFrame
  document : Document
  deriving Inhabited

namespace Document

/-- A replica after stamped frames. -/
def afterAll (replica : Document) (frames : List Stamped) : Document :=
  frames.foldl (fun replica x => replica.afterFrame x.frame) replica

theorem afterAll_append (replica : Document) (frames more : List Stamped) :
    replica.afterAll (frames ++ more) = (replica.afterAll frames).afterAll more :=
  List.foldl_append

/-- A frame without a batch leaves a replica as it is. -/
theorem afterFrame_of_none {f : SocketFrame} (h : f.edits? = none) (replica : Document) :
    replica.afterFrame f = replica := by
  rw [afterFrame, h]

end Document

/-- What a command brings to those who have reached a document: the frames that it sends are stamped
with the document that it leads to. -/
inductive PumpCommand.Brings (reached : Document) : PumpCommand Stamped → Document → Prop where
  | attach (info : ClientInfo) (queue : Nat) {x : Stamped}
      (whole : ∀ replica : Document, replica.afterFrame x.frame = reached)
      (stamp : x.document = reached) : Brings reached (.attach info queue x) reached
  | detach (client : String) : Brings reached (.detach client) reached
  | broadcast {x : Stamped} (leads : reached.afterFrame x.frame = x.document) :
      Brings reached (.broadcast x) x.document
  | unicast (client : String) {x : Stamped} (silent : x.frame.edits? = none)
      (stamp : x.document = reached) : Brings reached (.unicast client x) reached
  | shutdown : Brings reached .shutdown reached

/-- Commands in turn lead from one document to another. -/
inductive Leads : Document → List (PumpCommand Stamped) → Document → Prop where
  | nil (reached : Document) : Leads reached [] reached
  | cons {reached next document : Document} {command : PumpCommand Stamped}
      {rest : List (PumpCommand Stamped)} (first : command.Brings reached next)
      (rest_leads : Leads next rest document) : Leads reached (command :: rest) document

theorem Leads.concat {reached document next : Document} {commands : List (PumpCommand Stamped)}
    {command : PumpCommand Stamped} (h : Leads reached commands document)
    (hlast : command.Brings document next) : Leads reached (commands ++ [command]) next := by
  induction h with
  | nil reached => exact .cons hlast (.nil next)
  | cons first _ ih => exact .cons first (ih hlast)

/-- Only a frame for all takes those who read to another document. -/
theorem PumpCommand.Brings.eq_of_silent {reached next : Document} {command : PumpCommand Stamped}
    (h : command.Brings reached next) (hsilent : command.broadcast? = none) : next = reached := by
  cases h with
  | broadcast leads => cases hsilent
  | attach | detach | unicast | shutdown => rfl

/-- A frame that becomes due to a reader takes the replica to its stamp, and so to the document that
is reached. -/
theorem PumpCommand.Brings.afterFrame_eq {reached next : Document} {command : PumpCommand Stamped}
    {x : Stamped} (h : command.Brings reached next)
    (hframe : command = .broadcast x ∨ ∃ client, command = .unicast client x) :
    reached.afterFrame x.frame = x.document ∧ x.document = next := by
  rcases hframe with rfl | ⟨client, rfl⟩
  · cases h with
    | broadcast leads => exact ⟨leads, rfl⟩
  · cases h with
    | unicast _ silent stamp => exact ⟨(reached.afterFrame_of_none silent).trans stamp.symm, stamp⟩

/-! ## Frames in turn -/

/-- Whatever replica a reader begins with, each frame takes it to the document on its stamp. -/
def FollowsStamps (frames : List Stamped) : Prop :=
  ∀ before x, before ++ [x] <+: frames → ∀ replica : Document,
    replica.afterAll (before ++ [x]) = x.document

theorem followsStamps_nil : FollowsStamps [] := by
  intro before x h
  simp at h

theorem followsStamps_singleton {x : Stamped}
    (h : ∀ replica : Document, replica.afterFrame x.frame = x.document) : FollowsStamps [x] := by
  intro before y hprefix replica
  have hlength := hprefix.length_le
  obtain rfl : before = [] := by simpa using hlength
  obtain rfl : y = x := by simpa using hprefix
  exact h replica

/-- A frame goes on from the document on the stamp before it. -/
theorem FollowsStamps.concat {frames : List Stamped} {x y : Stamped}
    (h : FollowsStamps (frames ++ [x])) (hy : x.document.afterFrame y.frame = y.document) :
    FollowsStamps (frames ++ [x] ++ [y]) := by
  intro before z hprefix replica
  rcases List.prefix_concat_iff.mp hprefix with heq | hearlier
  · obtain ⟨rfl, hzy⟩ := List.append_inj' heq rfl
    obtain rfl : z = y := by simpa using hzy
    rw [Document.afterAll_append, h _ x (List.prefix_refl _)]
    exact hy
  · exact h before z hearlier replica

/-! ## The pump -/

/-- The commands that wait lead from where all who are attached have come, or will come with what is
due to them, to the document. -/
structure Pump.InOrder (p : Pump Stamped) (account : Nat → Account Stamped) (document : Document) :
    Prop where
  follows : ∀ n, FollowsStamps (account n).due
  running : ∀ n, (account n).client ≠ none → p.running = true
  waiting : p.running = true → ∃ reached, Leads reached p.commands document ∧
    ∀ n, (account n).client ≠ none → ∃ before x,
      (account n).due = before ++ [x] ∧ x.document = reached

namespace Pump.InOrder

variable {p p' : Pump Stamped} {account account' : Nat → Account Stamped}
  {document document' : Document} {command : PumpCommand Stamped}

/-- A command that is submitted leads on to the document of the model. -/
theorem submit (h : p.InOrder account document) (hbrings : command.Brings document document')
    (hcommands : p'.commands = p.commands) (hrunning : p'.running = p.running) :
    (p'.submit command).InOrder account document' where
  follows := h.follows
  running n hclient := by rw [running_submit, hrunning, h.running n hclient]
  waiting hrun := by
    rw [running_submit, hrunning] at hrun
    obtain ⟨reached, hleads, hlast⟩ := h.waiting hrun
    refine ⟨reached, ?_, hlast⟩
    rw [commands_submit, hrunning, if_pos hrun, hcommands]
    exact hleads.concat hbrings

/-- What a command does to one reader. -/
theorem handle (h : p.InOrder account document) {reached next : Document} (n : Nat)
    (hbrings : command.Brings reached next)
    (hlast : (account n).client ≠ none → ∃ before x,
      (account n).due = before ++ [x] ∧ x.document = reached) :
    FollowsStamps ((account n).handle n command).due ∧
      (((account n).handle n command).client ≠ none → ∃ before x,
        ((account n).handle n command).due = before ++ [x] ∧ x.document = next) := by
  rcases (account n).handle_cases n command with
    ⟨hnone, hdue⟩ | ⟨-, ⟨info, x, rfl, hdue⟩ | ⟨hattached, hsilent, hdue⟩ |
      ⟨hattached, y, hframe, hdue⟩⟩
  · rw [hdue]
    exact ⟨h.follows n, fun hclient => absurd hnone hclient⟩
  · -- A new client is sent the document as it is.
    rw [hdue]
    cases hbrings with
    | attach _ _ whole stamp =>
      exact ⟨followsStamps_singleton fun replica => (whole replica).trans stamp.symm,
        fun _ => ⟨[], x, rfl, stamp⟩⟩
  · rw [hdue, hbrings.eq_of_silent hsilent]
    exact ⟨h.follows n, fun _ => hlast hattached⟩
  · obtain ⟨before, x, hbefore, hx⟩ := hlast hattached
    obtain ⟨hleads, hstamp⟩ := hbrings.afterFrame_eq hframe
    have hfollows := h.follows n
    rw [hbefore] at hfollows
    rw [hdue, hbefore]
    exact ⟨hfollows.concat (hx ▸ hleads), fun _ => ⟨_, y, rfl, hstamp⟩⟩

/-- The next command is handled. -/
theorem start (h : p.InOrder account document) {rest : List (PumpCommand Stamped)}
    (hnext : p.commands = command :: rest) :
    (({ p with commands := rest } : Pump Stamped).start command).InOrder
      (fun n => (if p.running then [.handled command] else []).foldl (Account.note n) (account n))
      document := by
  by_cases hrun : p.running = true
  · obtain ⟨reached, hleads, hlast⟩ := h.waiting hrun
    rw [hnext] at hleads
    obtain _ | ⟨hbrings, hrest⟩ := hleads
    have hhandle : ∀ n, _ := fun n => h.handle n hbrings (hlast n)
    rw [if_pos hrun]
    refine ⟨fun n => (hhandle n).1, fun n hclient => ?_, fun _ => ⟨_, ?_, fun n => (hhandle n).2⟩⟩
    · have hnot : command ≠ .shutdown := by
        rintro rfl
        exact hclient ((account n).client_handle_shutdown n)
      exact (running_start _ hnot).trans hrun
    · rw [commands_start]
      exact hrest
  · rw [if_neg hrun]
    exact ⟨h.follows, fun n hclient => absurd (h.running n hclient) hrun,
      fun hrun' => absurd (running_of_start _ hrun') hrun⟩

/-- Whatever else happens to the pump handles no command. -/
theorem stay (h : p.InOrder account document) {entries : PumpRecord Stamped} (hstays : p.Stays p')
    (hentries : ∀ command, PumpEntry.handled command ∉ entries) :
    p'.InOrder (fun n => entries.foldl (Account.note n) (account n)) document := by
  obtain ⟨hcommands, hrunning⟩ := hstays
  have hdue : ∀ n, _ := fun n => ((account n).foldl_note_of_unhandled n hentries).1
  have hattached : ∀ n, (entries.foldl (Account.note n) (account n)).client ≠ none →
      (account n).client ≠ none := by
    intro n hclient
    rwa [((account n).foldl_note_of_unhandled n hentries).2 hclient] at hclient
  refine ⟨fun n => ?_, fun n hclient => hrunning.trans (h.running n (hattached n hclient)),
    fun hrun => ?_⟩
  · rw [hdue]
    exact h.follows n
  · obtain ⟨reached, hleads, hlast⟩ := h.waiting (hrunning.symm.trans hrun)
    refine ⟨reached, hcommands ▸ hleads, fun n hclient => ?_⟩
    rw [hdue]
    exact hlast n (hattached n hclient)

end Pump.InOrder

end LiveDoc
