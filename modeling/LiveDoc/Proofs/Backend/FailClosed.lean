import LiveDoc.Proofs.Backend.Verdict
import LiveDoc.Proofs.Message.Serializers
import LiveDoc.Proofs.Supervisor.Lines

/-!
# LiveDoc — verdicts fail closed

On its way from an auth handler to the gate a verdict is merged from what the handler returned,
written to a line, read from it and handed on. The line lists the free members behind the declared
ones, and of members of the same name the last one is read: a free status hides the declared one.
But a free status is no number, so the verdict that it makes can not be read, and no free member
names a client. What opens the gate is therefore what the handler meant to let in.

* `AuthVerdict.of_parseLine` — what a verdict is read as, if it is read at all.
* `Backend.lets_in_only_those_allowed` — whom a backend makes the supervisor let in.
-/

namespace LiveDoc

open Json Json.Value

/-! ## From the verdict to the gate -/

theorem AuthVerdict.get?_client {v : AuthVerdict} (h : "clientId" ∉ KeyMap.keys v.extra) :
    KeyMap.get? (Message.authVerdict v).draftMembers.reverse "clientId" =
      some (.string v.client) := by
  simp [Message.draftMembers, KeyMap.get?_append, KeyMap.get?,
    KeyMap.get?_reverse_eq_none_iff.mpr h]

theorem AuthVerdict.get?_status (v : AuthVerdict) :
    KeyMap.get? (Message.authVerdict v).draftMembers.reverse "status" =
      (KeyMap.get? v.extra.reverse "status").or (some (.nat v.status.toNat)) := by
  simp [Message.draftMembers, KeyMap.get?_append, KeyMap.get?]

/-- What a verdict is read as, if it is read at all: it is on the same client and has the same
status, and no free member is a status. -/
theorem AuthVerdict.of_parseLine {v : AuthVerdict} {m : Message}
    (hfree : ∀ member ∈ v.extra, Backend.isKept member = true)
    (h : parseLine (Message.authVerdict v).line = .ok m) :
    ∃ read : AuthVerdict, m = .authVerdict read ∧ read.client = v.client ∧
      read.status = v.status ∧ "status" ∉ KeyMap.keys v.extra := by
  have htype : "type" ∉ KeyMap.keys (Message.authVerdict v).draftMembers :=
    Message.type_notMem_draftMembers (Backend.notMem_keys_of_isKept hfree (by decide))
  obtain ⟨members, hof, hget⟩ := ofMembers?_of_parseLine htype h
  obtain ⟨client, hclient, hof⟩ := Option.bind_eq_some_iff.mp hof
  obtain ⟨status, hstatus, hof⟩ := Option.bind_eq_some_iff.mp hof
  obtain ⟨error, -, hof⟩ := Option.bind_eq_some_iff.mp hof
  cases hof
  rw [hget _ (by decide)] at hclient hstatus
  refine ⟨_, rfl, ?_, ?_⟩
  · rw [get?_client (Backend.notMem_keys_of_isKept hfree (by decide)), Option.map_some,
      reread_string, Record.text?_string] at hclient
    exact (Option.some.inj hclient).symm
  · rw [v.get?_status] at hstatus
    cases hextra : KeyMap.get? v.extra.reverse "status" with
    | none =>
      have hfits : v.status.toNat < UInt64.size := v.status.toNat_lt.trans (by decide)
      rw [hextra, Option.none_or, Option.map_some, reread_nat _ hfits,
        Record.word16?_nat] at hstatus
      exact ⟨(Option.some.inj hstatus).symm, KeyMap.get?_reverse_eq_none_iff.mp hextra⟩
    | some x =>
      -- A free status is no number, and so it is not read as a status.
      rw [hextra, Option.some_or, Option.map_some] at hstatus
      obtain ⟨n, rfl⟩ := exists_number_of_reread (Record.eq_nat_of_word16? hstatus)
      have hmem := List.mem_reverse.mp (KeyMap.mem_of_get? hextra)
      exact absurd rfl (Backend.ne_number_of_isKept (hfree _ hmem) n)

/-- Only a verdict of success on a client lets the client in. -/
theorem Relay.exists_verdict_of_authorize {m : Message} {client : String}
    (h : .authorize client ∈ ofMessage m) :
    ∃ v : AuthVerdict, m = .authVerdict v ∧ v.client = client ∧ v.isAllowed = true := by
  cases m with
  | authVerdict v =>
    have hverdict : Relay.authorize client = ofVerdict v := List.mem_singleton.mp h
    unfold ofVerdict at hverdict
    split at hverdict
    · next hallowed =>
      cases hverdict
      exact ⟨v, rfl, rfl, hallowed⟩
    · cases hverdict
  | rpcResponse r =>
    cases hclient : r.client <;> simp [ofMessage, hclient] at h
  | _ => simp [ofMessage] at h

/-- What is handed on of a line is the message that the line is read as. -/
theorem Child.parseLine_of_relay {c : Child} {line : String} {event : ChildEvent} {relay : Relay}
    (h : event ∈ (c.step (.line line)).1) (hrelay : relay ∈ event.relays) :
    ∃ m, parseLine line = .ok m ∧ event = .message m := by
  have hline : event ∈ (c.line line).1 := by
    cases hgone : c.isGone with
    | true => simp [step, hgone] at h
    | false => simpa [step, hgone] using h
  unfold Child.line at hline
  split at hline
  · -- Nothing is handed on of a child that is awaited, whatever it says first.
    have hnothing : event.relays = [] := by
      split at hline
      · rw [List.mem_singleton.mp hline]
        rfl
      · rcases List.mem_cons.mp hline with rfl | hexit
        · rfl
        · split at hexit
          · rw [List.mem_singleton.mp hexit]
            rfl
          · cases hexit
    rw [hnothing] at hrelay
    cases hrelay
  · rw [Option.mem_toList] at hline
    unfold report at hline
    split at hline
    · cases hline
    · split at hline
      · next m hread =>
        cases hline
        exact ⟨m, hread, rfl⟩
      · cases hline
        cases hrelay
  · cases hline

/-- A line that lets a client in is a verdict of success on that client. -/
theorem Child.parseLine_of_authorize {c : Child} {line client : String} {event : ChildEvent}
    {s : Supervisor} {failure : Option SupervisorError} {generation : Nat}
    (hevent : event ∈ (c.step (.line line)).1)
    (h : SupervisorEffect.relay (.authorize client) ∈
      (s.step failure (.child generation event)).1) :
    ∃ v : AuthVerdict, parseLine line = .ok (.authVerdict v) ∧ v.client = client ∧
      v.isAllowed = true := by
  have hrelays : Relay.authorize client ∈ event.relays := by
    rw [← Supervisor.Turn.mem_relays, Supervisor.step] at h
    split at h
    · rwa [Supervisor.relays_handleChild] at h
    · cases h
  obtain ⟨m, hread, rfl⟩ := parseLine_of_relay hevent hrelays
  obtain ⟨v, rfl, hclient, hallowed⟩ := Relay.exists_verdict_of_authorize hrelays
  exact ⟨v, hread, hclient, hallowed⟩

/-! ## What a backend is asked -/

/-- A line asks a backend to decide on a client. -/
def AuthRequest.IsAsked (request : AuthRequest) (line : String) : Prop :=
  ∃ frame, ChannelFrame.read? line = some frame ∧
    Message.parse frame.message = .ok (.authRequest request)

namespace Backend

variable {b : Backend}

/-- A backend sends a verdict only when it is asked for one. Nothing else that it sends has a free
member. -/
theorem of_mem_replies {frame : ChannelFrame} {reply : Message} (h : reply ∈ b.replies frame) :
    (∃ request verdict, Message.parse frame.message = .ok (.authRequest request) ∧
        b.authorize request = some verdict ∧ reply = .authVerdict verdict) ∨
      reply.tag ≠ "ws_auth_response" ∧ reply.freeMembers = [] := by
  rcases List.mem_append.mp h with hbatch | hreply
  · obtain ⟨edits, -, rfl⟩ := List.mem_map.mp hbatch
    exact .inr ⟨by simp [Message.tag], rfl⟩
  · rw [Option.mem_toList] at hreply
    split at hreply
    · obtain ⟨response, -, rfl⟩ := Option.map_eq_some_iff.mp hreply
      exact .inr ⟨by simp [Message.tag], rfl⟩
    · next request hparse =>
      obtain ⟨verdict, hverdict, rfl⟩ := Option.map_eq_some_iff.mp hreply
      exact .inl ⟨request, verdict, hparse, hverdict, rfl⟩
    · obtain ⟨response, -, rfl⟩ := Option.map_eq_some_iff.mp hreply
      exact .inr ⟨by simp [Message.tag], rfl⟩
    · cases hreply

/-- Whoever is let in by a line of a backend is the client that the backend was asked about, and is
let in rightly. -/
theorem of_verdict_read {line : String} {reply : Message} {v : AuthVerdict}
    (hreply : reply ∈ b.answerLine line) (hread : parseLine reply.line = .ok (.authVerdict v))
    (hallowed : v.isAllowed = true) :
    ∃ request : AuthRequest, request.IsAsked line ∧ v.client = request.client ∧
      b.LetsIn request := by
  unfold answerLine at hreply
  split at hreply
  · cases hreply
  · split at hreply
    · next frame hframe =>
      rcases of_mem_replies hreply with ⟨request, verdict, hparse, hverdict, rfl⟩ | ⟨htag, hfree⟩
      · obtain ⟨read, hmessage, hclient, hstatus, hextra⟩ :=
          AuthVerdict.of_parseLine (fun member => isKept_of_mem_authorize hverdict) hread
        cases hmessage
        have hsuccess : verdict.isAllowed = true := by
          rw [AuthVerdict.isAllowed, ← hstatus]
          exact hallowed
        exact ⟨request, ⟨frame, hframe, hparse⟩, hclient.trans (client_of_authorize hverdict),
          letsIn_of_authorize hverdict hextra hsuccess⟩
      · have htype : "type" ∉ KeyMap.keys reply.draftMembers :=
          Message.type_notMem_draftMembers (by simp [hfree])
        obtain ⟨members, hof, -⟩ := ofMembers?_of_parseLine htype hread
        exact absurd (Message.tag_of_ofMembers? hof).symm htag
    · cases hreply

end Backend

/-! ## What a request becomes -/

theorem Json.Value.depth_ofTextMap (map : KeyMap String) : (Record.ofTextMap map).depth = 1 := by
  rw [Record.ofTextMap, depth]
  induction map with
  | nil => rfl
  | cons entry rest ih => simpa [membersDepth, depth] using ih

namespace AuthRequest

variable {request other : AuthRequest}

/-- The message of the request can be written and read, and is an object with a map in it. -/
theorem regular_toValue (h : KeyMap.Sorted request.headers) :
    (Message.authRequest request).toValue.Regular Number.ReadsBack ∧
      (Message.authRequest request).toValue.depth = 2 := by
  have hheaders : (Record.ofTextMap request.headers).AllNumbers Number.ReadsBack :=
    (Record.regular_ofTextMap h).allNumbers
  have hcanonical : (Message.authRequest request).IsCanonical := h
  refine ⟨Message.regular_toValue ?_, (Message.depth_toValue hcanonical).trans ?_⟩
  · simpa [Message.draft, Message.draftMembers] using hheaders
  · simp [Message.draft, Message.draftMembers, depth, membersDepth, depth_ofTextMap]

theorem read?_line (h : KeyMap.Sorted request.headers) :
    ChannelFrame.read? (ChannelFrame.line { message := (Message.authRequest request).toValue }) =
      some { message := (Message.authRequest request).toValue } := by
  obtain ⟨hregular, hdepth⟩ := regular_toValue h
  rw [ChannelFrame.read?_line hregular, hdepth, if_pos (by decide)]

/-- The line that a request for a client becomes asks for a decision on that client alone. -/
theorem isAsked_line (h : KeyMap.Sorted request.headers) {frame : ChannelFrame}
    (hframe : Relay.frame? (.authRequest request) = some frame) :
    other.IsAsked frame.line ↔ other = request := by
  cases hframe
  have hparse := Message.parse_toValue_authRequest h
  constructor
  · rintro ⟨read, hread, hother⟩
    rw [read?_line h] at hread
    cases hread
    rw [hparse] at hother
    cases hother
    rfl
  · rintro rfl
    exact ⟨_, read?_line h, hparse⟩

end AuthRequest

/-- The line that a request for a client becomes has one answer, the verdict, if there is one. -/
theorem Backend.answerLine_request (b : Backend) {request : AuthRequest}
    (h : KeyMap.Sorted request.headers) {frame : ChannelFrame}
    (hframe : Relay.frame? (.authRequest request) = some frame) :
    b.answerLine frame.line = (b.authorize request).toList.map .authVerdict := by
  cases hframe
  rw [answerLine_line, AuthRequest.read?_line h]
  cases hverdict : b.authorize request <;>
    simp [replies, handle, Message.parse_toValue_authRequest h, hverdict]

/-! ## The law -/

/-- Whatever its auth handler does, and whatever line it answers, a backend makes its supervisor let
in only a client whom that line asks about, and only if it has no handler or the handler returned
members without a status or with an integer of success as status. The line that a request becomes
is answered by the verdict on it, if its handler comes to one, and asks about the client of that
request alone. A client or a type among the returned members changes nothing of the verdict. -/
theorem Backend.lets_in_only_those_allowed (b : Backend) :
    (∀ (line : String) (reply : Message) (c : Child) (event : ChildEvent) (s : Supervisor)
        (failure : Option SupervisorError) (generation : Nat) (client : String),
      reply ∈ b.answerLine line → event ∈ (c.step (.line reply.line)).1 →
      SupervisorEffect.relay (.authorize client) ∈ (s.step failure (.child generation event)).1 →
        ∃ request : AuthRequest, request.IsAsked line ∧ client = request.client ∧
          b.LetsIn request) ∧
      (∀ (request : AuthRequest) (frame : ChannelFrame), KeyMap.Sorted request.headers →
        Relay.frame? (.authRequest request) = some frame →
          b.answerLine frame.line = (b.authorize request).toList.map .authVerdict ∧
            ∀ other : AuthRequest, other.IsAsked frame.line ↔ other = request) ∧
      ∀ (client : String) (members : Fields),
        verdictOf client (Record.others ["clientId", "type"] members) =
          verdictOf client members := by
  refine ⟨fun line reply c event s failure generation client hreply hevent hrelay => ?_,
    fun request frame hsorted hframe => ⟨b.answerLine_request hsorted hframe, fun other =>
      AuthRequest.isAsked_line hsorted hframe⟩, verdictOf_others⟩
  obtain ⟨v, hread, rfl, hallowed⟩ := Child.parseLine_of_authorize hevent hrelay
  exact of_verdict_read hreply hread hallowed

/-- A handler that lets a client in and names another one: the client that asked is let in. -/
theorem Backend.lets_in_the_client_that_asked :
    let request : AuthRequest := { client := "a", remote := "::1", method := "GET", url := "/" }
    let frame : ChannelFrame := { message := (Message.authRequest request).toValue }
    let members : Fields :=
      [("clientId", .string "b"), ("status", .nat 204), ("user", .string "u")]
    let b : Backend := { authHandler := some fun _ => .returned members }
    let verdict : AuthVerdict := { client := "a", status := 204, extra := [("user", .string "u")] }
    let reply : Message := .authVerdict verdict
    let c : Child := { phase := .established }
    let s : Supervisor := { state := .running, child := some 1, generation := 1 }
    (reply ∈ b.answerLine frame.line ∧ .message reply ∈ (c.step (.line reply.line)).1 ∧
      .relay (.authorize "a") ∈ (s.step none (.child 1 (.message reply))).1) ∧
      (∃ asked : AuthRequest, asked.IsAsked frame.line ∧ "a" = asked.client ∧ b.LetsIn asked) ∧
      ∀ other : AuthRequest, other.IsAsked frame.line ↔ other = request := by
  intro request frame members b verdict reply c s
  have hreply : reply ∈ b.answerLine frame.line := by
    rw [b.answerLine_request KeyMap.sorted_nil rfl]
    exact List.mem_singleton.mpr rfl
  have hread : parseLine reply.line = .ok reply := by
    have hcanonical : reply.IsCanonical :=
      every_object.mpr ⟨List.pairwise_singleton _ _, by simp [verdict]⟩
    have hclear : reply.IsClear := by
      simp [Message.IsClear, Message.freeMembers, Message.reservedNames, reply, verdict]
    have hnumbers : reply.draft.AllNumbers Number.ReadsBack := by
      have hstatus : (Number.int 204).ReadsBack := Number.readsBack_nat (by decide)
      simpa [reply, verdict, Message.draft, Message.draftMembers, Message.optionalMember,
        Value.nat] using hstatus
    have hdepth : reply.draft.depth ≤ maxDepth := by
      simp [reply, verdict, Message.draft, Message.draftMembers, Message.optionalMember, depth,
        membersDepth, Value.nat, maxDepth]
    exact parseLine_line hcanonical hclear hnumbers hdepth
  have hevent : .message reply ∈ (c.step (.line reply.line)).1 := by
    have hblank : isBlankLine reply.line = false := isBlankLine_object _
    rw [isBlankLine] at hblank
    rw [Child.step_line rfl rfl, Child.report, hblank, if_neg Bool.false_ne_true, hread]
    exact List.mem_singleton.mpr rfl
  have hrelay : .relay (.authorize "a") ∈ (s.step none (.child 1 (.message reply))).1 :=
    List.mem_singleton.mpr rfl
  have hlaw := b.lets_in_only_those_allowed
  exact ⟨⟨hreply, hevent, hrelay⟩, hlaw.1 _ _ _ _ _ _ _ _ hreply hevent hrelay,
    (hlaw.2.1 request frame KeyMap.sorted_nil rfl).2⟩

end LiveDoc
