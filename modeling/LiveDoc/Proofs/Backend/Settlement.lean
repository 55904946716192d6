import LiveDoc.Proofs.Backend.FailClosed
import LiveDoc.Proofs.Server.Waiting

/-!
# LiveDoc — verdicts arrive

What an auth handler returns is meant to end the upgrade that it was asked about: with the status
that it gives, with 200 if it gives none, and with 500 if it gives no status that there is. But only
a number is taken for a status. Any other value by that name, and an error that is neither a text
nor null, becomes a free member, which the line lists behind the declared one and which hides it
from the reader. No message is read from such a line, and the upgrade is held until its deadline.

* `Backend.isLegible` — what a handler has to return to be heard.
* `Backend.parseLine_verdictOf` — what the line of a verdict is read as.
* `Server.settled_by_verdict` — what a verdict does to an upgrade that is held.
* `Backend.returned_verdict_settles` — which upgrades are ended by their verdict.
-/

namespace LiveDoc

open Json Json.Value

namespace Backend

/-! ## What a handler gives -/

/-- The status that a handler gives. -/
def statusIn (members : Fields) : UInt16 :=
  match KeyMap.get? members "status" with
  | none => 200
  | some v => (Record.word16? (some v)).getD 500

def errorIn (members : Fields) : Option String :=
  (KeyMap.get? members "error").bind Value.text?

/-- What is given by the name of the status is taken for one. -/
def isStatus : Option Value → Bool
  | none | some (.number _) => true
  | some _ => false

/-- What is given by the name of the error is taken for one. -/
def isError : Option Value → Bool
  | none | some .null | some (.string _) => true
  | some _ => false

/-- The status, if there is one, is a number, and the error is a text or null. -/
def isLegible (members : Fields) : Bool :=
  isStatus (KeyMap.get? members "status") && isError (KeyMap.get? members "error")

/-- The members of a verdict that are not free. -/
def declaredNames : List String := ["type", "clientId", "status", "error"]

/-- The verdict that a handler means by what it returns. -/
def meantBy (client : String) (members : Fields) : AuthVerdict where
  client
  status := statusIn members
  error := errorIn members
  extra := Record.others declaredNames members

/-! ## The verdict and its line -/

theorem statusOf?_of_ne {member : String × Value} (h : member.1 ≠ "status") :
    statusOf? member = none := by
  unfold statusOf?
  split <;> simp_all

theorem errorOf?_of_ne {member : String × Value} (h : member.1 ≠ "error") :
    errorOf? member = none := by
  unfold errorOf?
  split <;> simp_all

section Line

variable {members : Fields} (client : String) (h : KeyMap.Sorted members)
include h

theorem status_verdictOf : (verdictOf client members).status =
    ((KeyMap.get? members "status").bind fun v => statusOf? ("status", v)).getD 200 := by
  rw [verdictOf_eq]
  exact congrArg (·.getD 200) (h.findSome?_reverse fun _ hname => statusOf?_of_ne hname)

theorem error_verdictOf : (verdictOf client members).error =
    (KeyMap.get? members "error").bind fun v => errorOf? ("error", v) := by
  rw [verdictOf_eq]
  exact h.findSome?_reverse fun _ hname => errorOf?_of_ne hname

theorem extra_verdictOf : (verdictOf client members).extra = members.filter isKept := by
  rw [verdictOf_eq]
  exact KeyMap.ofEntries_eq_self (h.filter _)

/-- The status that is read is the one that is given, if that is a number. -/
theorem word16?_verdictOf :
    Record.word16? ((KeyMap.get? (verdictOf client members).extra "status").or
        (some (.nat (verdictOf client members).status.toNat))) =
      if isStatus (KeyMap.get? members "status") then some (statusIn members) else none := by
  rw [extra_verdictOf client h, h.get?_filter, status_verdictOf client h, statusIn]
  cases KeyMap.get? members "status" with
  | none => rfl
  | some v =>
    cases v with
    | number n => exact Record.word16?_nat _
    | _ => rfl

/-- The error that is read is the one that is given, if that is a text or null. -/
theorem optionalText?_verdictOf :
    Record.optionalText? ((KeyMap.get? (verdictOf client members).extra "error").or
        ((verdictOf client members).error.map .string)) =
      if isError (KeyMap.get? members "error") then some (errorIn members) else none := by
  rw [extra_verdictOf client h, h.get?_filter, error_verdictOf client h, errorIn]
  cases KeyMap.get? members "error" with
  | none => rfl
  | some v => cases v <;> rfl

/-- Every member that no verdict declares is kept. -/
theorem others_extra_verdictOf :
    Record.others declaredNames (verdictOf client members).extra =
      Record.others declaredNames members := by
  rw [extra_verdictOf client h, Record.others, Record.others, List.filter_filter]
  refine List.filter_congr fun member _ => ?_
  by_cases hname : member.1 ∈ declaredNames
  · simp [hname]
  · obtain ⟨htype, hclient, hstatus, herror⟩ : member.1 ≠ "type" ∧ member.1 ≠ "clientId" ∧
        member.1 ≠ "status" ∧ member.1 ≠ "error" := by
      simpa [declaredNames] using hname
    simp [hname, isKept, statusOf?_of_ne hstatus, errorOf?_of_ne herror, ownNames, htype, hclient]

end Line

/-- A verdict can be written if the members that it is made from can. -/
theorem isWritable_verdictOf {members : Fields} (client : String)
    (hregular : (Value.object members).Regular Number.ReadsBack)
    (hdepth : ∀ member ∈ members, member.2.depth < maxDepth) :
    (Message.authVerdict (verdictOf client members)).IsWritable := by
  obtain ⟨hsorted, hvalues⟩ := every_object.mp hregular
  have hstatus : (verdictOf client members).status.toNat < UInt64.size :=
    (UInt16.toNat_lt _).trans (by decide)
  intro member hmem
  -- A member is a text, the status, or one that was returned.
  simp only [Message.draftMembers, Message.optionalMember, List.mem_cons, List.mem_append,
    List.mem_map, Option.mem_toList] at hmem
  rcases hmem with rfl | rfl | ⟨v, hv, rfl⟩ | hmem
  · exact ⟨every_string _, by simp [depth, maxDepth]⟩
  · exact ⟨every_number.mpr (Number.readsBack_nat hstatus), by simp [depth, Value.nat, maxDepth]⟩
  · obtain ⟨text, -, rfl⟩ := Option.map_eq_some_iff.mp hv
    exact ⟨every_string _, by simp [depth, maxDepth]⟩
  · rw [extra_verdictOf client hsorted] at hmem
    have hreturned := (List.mem_filter.mp hmem).1
    exact ⟨hvalues _ hreturned, hdepth _ hreturned⟩

/-- What the line of a verdict is read as. -/
theorem parseLine_verdictOf {members : Fields} (client : String)
    (hregular : (Value.object members).Regular Number.ReadsBack)
    (hdepth : ∀ member ∈ members, member.2.depth < maxDepth) :
    parseLine (Message.authVerdict (verdictOf client members)).line =
      if isLegible members then .ok (.authVerdict (meantBy client members))
      else .error (.invalidPayload unreadable) := by
  have hsorted := (every_object.mp hregular).1
  have hcanonical : (Message.authVerdict (verdictOf client members)).IsCanonical := by
    show (Value.object (verdictOf client members).extra).IsCanonical
    rw [extra_verdictOf client hsorted]
    exact every_object.mpr ⟨hsorted.filter _, fun member hmem =>
      ((every_object.mp hregular).2 _ (List.mem_filter.mp hmem).1).isCanonical⟩
  have hown : ∀ name ∈ ["type", "clientId"],
      name ∉ KeyMap.keys (verdictOf client members).extra := fun name hname =>
    notMem_keys_of_isKept (fun _ => isKept_of_mem_verdictOf)
      (by simpa [ownNames, or_comm] using hname)
  have hclient : (verdictOf client members).client = client := by rw [verdictOf_eq]
  have hextra := others_extra_verdictOf client hsorted
  rw [declaredNames] at hextra
  rw [(isWritable_verdictOf client hregular hdepth).parseLine_line,
    Message.parse_toValue_authVerdict_eq hcanonical hown, word16?_verdictOf client hsorted,
    optionalText?_verdictOf client hsorted, hextra, hclient, isLegible]
  cases isStatus (KeyMap.get? members "status") <;>
    cases isError (KeyMap.get? members "error") <;> rfl

end Backend

/-! ## At the gate -/

/-- How a verdict ends an upgrade. -/
def AuthVerdict.upgradeEnd (v : AuthVerdict) : UpgradeEnd :=
  if v.isAllowed then .allowed
  else .rejected { status := v.status, error := v.error.getD "Unauthorized" }

/-- The upgrade of a client is over, and its deadline changes nothing any more. -/
structure Gate.Settled (g : Gate) (client : String) (how : UpgradeEnd) : Prop where
  notHeld : g.isHeld client = false
  end_eq : g.endOf? client = some how
  deadline : g.expire client = g

namespace Gate

variable {g : Gate} {client : String}

/-- A decision that was made and comes in with nothing in between ends the upgrade. -/
theorem settled_of_handover {decision : UpgradeEnd} (hheld : client ∉ g.held)
    (hhandover : g.handover? client = some { decision }) :
    (g.run [.send client, .receive client]).Settled client decision := by
  have hrun : g.run [.send client, .receive client] =
      (g.change client { decision, isSent := true }).finish client decision := by
    show (g.send client).receive client = _
    rw [send, hhandover]
    show (g.change client _).receive client = _
    rw [receive, handover?_change_self]
    rfl
  rw [hrun]
  have hisHeld : g.isHeld client = false := eq_false_of_ne_true (mt isHeld_iff.mp hheld)
  refine ⟨hisHeld, ?_, ?_⟩
  · show (if g.isHeld client then none else _) = _
    rw [hisHeld, if_neg Bool.false_ne_true]
    simp [finish]
  · have hgone :=
      handover?_finish_self (g.change client { decision, isSent := true }) client decision
    have hinput : (GateInput.deadline client).client? = some client := rfl
    refine step_of_gone ?_ hgone hinput rfl
    exact hheld

theorem settled_allow (h : g.isHeld client = true) :
    (g.settle client (.allow client)).Settled client .allowed := by
  rw [settle, if_pos h]
  exact settled_of_handover (not_mem_held_take g client _) (handover?_take (isHeld_iff.mp h) _)

theorem settled_reject (h : g.isHeld client = true) (rejection : Rejection) :
    (g.settle client (.reject client rejection)).Settled client (.rejected rejection) := by
  rw [settle, if_pos h]
  exact settled_of_handover (not_mem_held_take g client _) (handover?_take (isHeld_iff.mp h) _)

theorem endOf?_expire (h : g.isHeld client = true) :
    (g.expire client).endOf? client = some .timedOut := by
  rw [expire, if_pos h, endOf?]
  simp [isHeld, drop]

end Gate

/-- An upgrade that is held is ended by the verdict on its client. -/
theorem Server.settled_by_verdict {s : Server} {v : AuthVerdict}
    (h : s.gate.isHeld v.client = true) :
    (s.perform (.ofVerdict v)).gate.Settled v.client v.upgradeEnd := by
  unfold Relay.ofVerdict AuthVerdict.upgradeEnd
  split
  · exact Gate.settled_allow h
  · exact Gate.settled_reject h _

/-! ## The law -/

/-- Where an auth handler returns members, the line that its client's request becomes is answered by
one line. If the status among the members, if there is one, is a number, and the error a text or
null, that line is read as a verdict on this client, with the status that was given, 200 if none was
and 500 if it is no integer of 16 bits, and the upgrade that is held is ended by it. Otherwise no
message is read from the line: the upgrade is held as before, until its deadline. -/
theorem Backend.returned_verdict_settles {b : Backend} {handler : AuthRequest → Outcome Fields}
    {request : AuthRequest} {members : Fields} {frame : ChannelFrame}
    (hhandler : b.authHandler = some handler) (hreturned : handler request = .returned members)
    (hregular : (Value.object members).Regular Number.ReadsBack)
    (hdepth : ∀ member ∈ members, member.2.depth < maxDepth)
    (hheaders : KeyMap.Sorted request.headers)
    (hframe : Relay.frame? (.authRequest request) = some frame) :
    ∃ reply, b.answerLine frame.line = [reply] ∧
      parseLine reply.line =
        (if isLegible members then .ok (.authVerdict (meantBy request.client members))
          else .error (.invalidPayload unreadable)) ∧
      ∀ (c : Child) (s : Supervisor) (server : Server),
        c.phase = .established → c.isGone = false → server.gate.isHeld request.client = true →
          if isLegible members then
            (server.handed (s.hear c reply.line)).gate.Settled request.client
              (meantBy request.client members).upgradeEnd
          else
            server.handed (s.hear c reply.line) = server ∧
              (server.expireUpgrade request.client).gate.endOf? request.client =
                some .timedOut := by
  have hanswer := b.answerLine_request hheaders hframe
  have hverdict : b.authorize request = some (verdictOf request.client members) := by
    simp [authorize, hhandler, hreturned]
  have hread := parseLine_verdictOf request.client hregular hdepth
  rw [hverdict] at hanswer
  refine ⟨_, hanswer, hread, fun c s server hphase hgone hheld => ?_⟩
  split
  · next hlegible =>
    rw [if_pos hlegible] at hread
    rw [Server.handed_of_ok _ hphase hgone hread]
    exact Server.settled_by_verdict hheld
  · next hlegible =>
    rw [if_neg hlegible] at hread
    exact ⟨Server.handed_of_error _ hphase hgone hread, Gate.endOf?_expire hheld⟩

/-- A handler that turns a client away: the upgrade ends with the status that it gave. -/
theorem Backend.returned_verdict_settles_refusal :
    let request : AuthRequest := { client := "a", remote := "::1", method := "GET", url := "/" }
    let frame : ChannelFrame := { message := (Message.authRequest request).toValue }
    let members : Fields := [("error", .string "no"), ("status", .nat 401)]
    let b : Backend := { authHandler := some fun _ => .returned members }
    let c : Child := { phase := .established }
    let s : Supervisor := { state := .running, child := some 1, generation := 1 }
    let server : Server := { gate := { held := ["a"] } }
    ((Value.object members).Regular Number.ReadsBack ∧
        (∀ member ∈ members, member.2.depth < maxDepth) ∧ KeyMap.Sorted request.headers ∧
        Relay.frame? (.authRequest request) = some frame) ∧
      ∃ reply, b.answerLine frame.line = [reply] ∧
        parseLine reply.line =
          .ok (.authVerdict { client := "a", status := 401, error := some "no" }) ∧
        (server.handed (s.hear c reply.line)).gate.Settled "a"
          (.rejected { status := 401, error := "no" }) := by
  intro request frame members b c s server
  have hregular : (Value.object members).Regular Number.ReadsBack := by
    refine every_object.mpr ⟨?_, ?_⟩
    · show List.Pairwise (· < ·) ["error", "status"]
      decide
    · simpa [members, Value.nat] using Number.readsBack_nat (n := 401) (by decide)
  have hdepth : ∀ member ∈ members, member.2.depth < maxDepth := by
    simp [members, Value.nat, depth, maxDepth]
  have hheaders : KeyMap.Sorted request.headers := KeyMap.sorted_nil
  have hhandler : b.authHandler = some fun _ => .returned members := rfl
  obtain ⟨reply, hanswer, hread, hsettled⟩ :=
    b.returned_verdict_settles hhandler rfl hregular hdepth hheaders rfl
  have hlegible : isLegible members = true := rfl
  have hmeant : meantBy request.client members =
      { client := "a", status := 401, error := some "no" } := rfl
  rw [if_pos hlegible, hmeant] at hread
  refine ⟨⟨hregular, hdepth, hheaders, rfl⟩, reply, hanswer, hread, ?_⟩
  have hhere := hsettled c s server rfl rfl rfl
  rw [if_pos hlegible] at hhere
  exact hhere

/-- A status that is a text counts as 500, but the verdict that has it is not read, and the upgrade
waits for its deadline. -/
theorem Backend.exists_returned_verdict_unread :
    let request : AuthRequest := { client := "a", remote := "::1", method := "GET", url := "/" }
    let frame : ChannelFrame := { message := (Message.authRequest request).toValue }
    let members : Fields := [("status", .string "401")]
    let b : Backend := { authHandler := some fun _ => .returned members }
    let c : Child := { phase := .established }
    let s : Supervisor := { state := .running, child := some 1, generation := 1 }
    let server : Server := { gate := { held := ["a"] } }
    ((Value.object members).Regular Number.ReadsBack ∧
        (∀ member ∈ members, member.2.depth < maxDepth) ∧ statusIn members = 500) ∧
      ∃ reply, b.answerLine frame.line = [reply] ∧
        parseLine reply.line = .error (.invalidPayload unreadable) ∧
        (server.handed (s.hear c reply.line)).gate.isHeld "a" = true := by
  intro request frame members b c s server
  have hregular : (Value.object members).Regular Number.ReadsBack :=
    every_object.mpr ⟨List.pairwise_singleton _ _, by simp [members]⟩
  have hdepth : ∀ member ∈ members, member.2.depth < maxDepth := by
    simp [members, depth, maxDepth]
  have hread : parseLine (Message.authVerdict (verdictOf "a" members)).line =
      .error (.invalidPayload unreadable) := parseLine_verdictOf "a" hregular hdepth
  have hanswer : b.answerLine frame.line = [.authVerdict (verdictOf "a" members)] :=
    b.answerLine_request KeyMap.sorted_nil rfl
  refine ⟨⟨hregular, hdepth, rfl⟩, _, hanswer, hread, ?_⟩
  rw [Server.handed_of_error _ rfl rfl hread]
  rfl

end LiveDoc
