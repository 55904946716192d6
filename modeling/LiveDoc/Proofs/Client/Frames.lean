import LiveDoc.Proofs.Client.Steps
import LiveDoc.Proofs.Edit.Validity

/-!
# LiveDoc — what a client makes of the frames it gets

Any text may come as a frame. It has to be an envelope, with a message in it, which has to be a batch
of edits that are all valid; only then it counts for the replica, and as a whole. What else comes is
counted and leaves the replica and the session as they are, and a value whose type is none of the
messages' is handed to the owner of the client.

So the replica of a client is what the batches that it accepted make of an empty document, however
many sessions they came in and whatever came between them.

* `batchIn?`, `foreignIn?` — what counts in a frame.
* `ConnectionState.heard`, `ConnectionState.raised` — the frames that a client gets, and what its
  owner is told.
* `Client.Hears` — what both do to a client.
* `Client.replica_eq_fold` — the replica, the counters and the events of a client.
-/

namespace LiveDoc

open Json

/-! ## What counts in a frame -/

/-- The batch that a value is, if all its edits are valid. -/
def batchOf? (v : Value) : Option (List Edit) :=
  match Message.parse v with
  | .ok (.apply edits) => if edits.all (·.validate.isOk) then some edits else none
  | _ => none

/-- A value that has a type which is none of the messages'. -/
def foreignOf? (v : Value) : Option Value :=
  match Message.claimedTag? v with
  | some tag => if tag ∈ Message.tags then none else some v
  | none => none

/-- The batch in a frame that a client accepts. -/
def batchIn? (text : String) : Option (List Edit) := (Envelope.decode text).toOption.bind batchOf?

/-- The value in a frame that a client hands to its owner. -/
def foreignIn? (text : String) : Option Value := (Envelope.decode text).toOption.bind foreignOf?

/-- What the owner of a client is told of a frame. -/
def ClientEvent.ofFrame (text : String) : List ClientEvent :=
  ((batchIn? text).map fun edits => .updated edits.length).toList ++
    ((foreignIn? text).map .received).toList

/-- A value of an unknown type is refused as such, and no other one is. -/
theorem foreignOf?_eq (v : Value) :
    foreignOf? v = match Message.parse v with
      | .error (.unknownType _) => some v
      | _ => none := by
  unfold foreignOf? Message.parse
  cases Message.claimedTag? v with
  | none => rfl
  | some tag =>
    by_cases htag : tag ∈ Message.tags
    · cases hof : Message.ofMembers? tag (v.fields?.getD []) <;> simp [htag, hof]
    · simp [htag]

/-- All that a value does to a client. -/
theorem Client.accept_cases (c : Client) (v : Value) :
    (∃ edits replica, batchOf? v = some edits ∧ foreignOf? v = none ∧
        applyBatch c.replica edits = .ok replica ∧
        (c.accept v).2 =
          { c with replica, stats := { c.stats with edits := c.stats.edits + edits.length } }.emit
            (.updated edits.length)) ∨
      (batchOf? v = none ∧ foreignOf? v = some v ∧ (c.accept v).2 = c.emit (.received v)) ∨
      (batchOf? v = none ∧ foreignOf? v = none ∧ ∃ pending, (c.accept v).2 = { c with pending }) := by
  unfold accept
  rw [foreignOf?_eq]
  unfold batchOf?
  cases Message.parse v with
  | error e =>
    cases e with
    | unknownType tag => exact .inr (.inl ⟨rfl, rfl, rfl⟩)
    | _ => exact .inr (.inr ⟨rfl, rfl, c.pending, rfl⟩)
  | ok m =>
    cases m with
    | apply edits =>
      dsimp only [update]
      cases hvalid : edits.all (·.validate.isOk) with
      | true =>
        have happlied := applyBatch_of_all hvalid c.replica
        rw [happlied]
        exact .inl ⟨edits, _, rfl, rfl, happlied, rfl⟩
      | false =>
        obtain ⟨e, hrefused⟩ := exists_error_of_all hvalid c.replica
        rw [hrefused]
        exact .inr (.inr ⟨rfl, rfl, c.pending, rfl⟩)
    | rpcResponse response =>
      refine .inr (.inr ⟨rfl, rfl, ?_⟩)
      dsimp only [resolve]
      split
      · exact ⟨_, rfl⟩
      · exact ⟨c.pending, rfl⟩
    | _ => exact .inr (.inr ⟨rfl, rfl, c.pending, rfl⟩)

/-! ## What a client hears -/

namespace ClientInput

/-- The frame that an input brings, if a session is open. -/
def heard? (s : ConnectionState) : ClientInput → Option String
  | .frame text => if s = .connected then some text else none
  | _ => none

/-- What the owner is told of an input. -/
def raised (s : ConnectionState) : ClientInput → List ClientEvent
  | .frame text => if s = .connected then ClientEvent.ofFrame text else []
  | .opened => if s = .connecting then [.connected] else []
  | .closed | .stop => if s = .connected then [.disconnected] else []
  | .attempt | .unreachable | .call _ | .deadline _ => []

end ClientInput

namespace ConnectionState

/-- The frames that inputs bring while sessions are open. -/
def heard (s : ConnectionState) : List ClientInput → List String
  | [] => []
  | input :: rest => (input.heard? s).toList ++ (s.after input).heard rest

/-- What the owner is told of inputs in turn. -/
def raised (s : ConnectionState) : List ClientInput → List ClientEvent
  | [] => []
  | input :: rest => input.raised s ++ (s.after input).raised rest

end ConnectionState

namespace Client

/-- What a client comes to with the frames that it hears and with what its owner is told. -/
structure Hears (c : Client) (frames : List String) (events : List ClientEvent) (c' : Client) :
    Prop where
  replica : (frames.filterMap batchIn?).foldlM applyBatch c.replica = .ok c'.replica
  counted : c'.stats.frames = c.stats.frames + frames.length
  applied : c'.stats.edits = c.stats.edits + (frames.filterMap batchIn?).flatten.length
  told : c'.events = events.foldl Mailbox.offer c.events

namespace Hears

variable {c c' c'' : Client} {frames frames' : List String} {events events' : List ClientEvent}
  {text : String}

/-- What concerns neither the replica nor the counters. -/
theorem of_silent (hreplica : c'.replica = c.replica) (hframes : c'.stats.frames = c.stats.frames)
    (hedits : c'.stats.edits = c.stats.edits)
    (hevents : c'.events = events.foldl Mailbox.offer c.events) : c.Hears [] events c' :=
  ⟨congrArg Except.ok hreplica.symm, hframes, hedits, hevents⟩

theorem refl (c : Client) : c.Hears [] [] c := of_silent rfl rfl rfl rfl

theorem trans (h : c.Hears frames events c') (h' : c'.Hears frames' events' c'') :
    c.Hears (frames ++ frames') (events ++ events') c'' where
  replica := by
    rw [List.filterMap_append, List.foldlM_append, h.replica]
    exact h'.replica
  counted := by rw [h'.counted, h.counted, List.length_append, Nat.add_assoc]
  applied := by
    rw [h'.applied, h.applied, List.filterMap_append, List.flatten_append, List.length_append,
      Nat.add_assoc]
  told := by rw [h'.told, h.told, List.foldl_append]

/-- Frames without a batch that counts leave the replica as it is. -/
theorem replica_eq_of_none (h : c.Hears frames events c')
    (hnone : ∀ text ∈ frames, batchIn? text = none) : c'.replica = c.replica := by
  have hreplica := h.replica
  rw [List.filterMap_eq_nil_iff.mpr hnone] at hreplica
  exact (Except.ok.inj hreplica).symm

/-- What a frame does that carries this batch or none. -/
theorem of_frame {batch : Option (List Edit)} (hbatch : batchIn? text = batch)
    (hreplica : batch.toList.foldlM applyBatch c.replica = .ok c'.replica)
    (hframes : c'.stats.frames = c.stats.frames + 1)
    (hedits : c'.stats.edits = c.stats.edits + batch.elim 0 List.length)
    (hevents : c'.events = events.foldl Mailbox.offer c.events) : c.Hears [text] events c' := by
  have hlist : [text].filterMap batchIn? = batch.toList := by
    rw [← hbatch]
    cases hcase : batchIn? text <;> simp [hcase]
  refine ⟨by rwa [hlist], hframes, ?_, hevents⟩
  rw [hlist, hedits]
  cases batch <;> simp

end Hears

/-- A frame does what counts in it, whatever else the client is at. -/
theorem hears_receive (c : Client) (text : String) :
    c.Hears [text] (ClientEvent.ofFrame text) (c.receive text).2 := by
  unfold receive ClientEvent.ofFrame
  cases hdecode : Envelope.decode text with
  | error e =>
    have hbatch : batchIn? text = none := by rw [batchIn?, hdecode]; rfl
    have hforeign : foreignIn? text = none := by rw [foreignIn?, hdecode]; rfl
    rw [hforeign, hbatch]
    exact .of_frame hbatch rfl rfl rfl rfl
  | ok v =>
    have hbatch : batchIn? text = batchOf? v := by rw [batchIn?, hdecode]; rfl
    have hforeign : foreignIn? text = foreignOf? v := by rw [foreignIn?, hdecode]; rfl
    dsimp only
    rcases accept_cases { c with stats := { c.stats with frames := c.stats.frames + 1 } } v with
      ⟨edits, replica, hedits, hnone, happlied, haccept⟩ | ⟨hnone, hvalue, haccept⟩ |
        ⟨hnone, hvalue, pending, haccept⟩
    · rw [hforeign, hnone, hbatch, hedits, haccept]
      refine .of_frame (hbatch.trans hedits) ?_ rfl rfl rfl
      rw [Option.toList_some, List.foldlM_cons]
      simpa using happlied
    · rw [hforeign, hvalue, hbatch, hnone, haccept]
      exact .of_frame (hbatch.trans hnone) rfl rfl rfl rfl
    · rw [hforeign, hvalue, hbatch, hnone, haccept]
      exact .of_frame (hbatch.trans hnone) rfl rfl rfl rfl

/-! ## Steps and runs -/

/-- An input does what it brings to be heard, and tells the owner what it raises. -/
theorem hears_step (c : Client) (input : ClientInput) :
    c.Hears (input.heard? c.state).toList (input.raised c.state) (c.step input).2 := by
  cases input with
  | attempt =>
    dsimp only [step]
    split <;> exact .of_silent rfl rfl rfl rfl
  | unreachable =>
    dsimp only [step]
    split <;> exact .of_silent rfl rfl rfl rfl
  | opened =>
    dsimp only [step, ClientInput.raised]
    split <;> exact .of_silent rfl rfl rfl rfl
  | closed =>
    simp only [step, ClientInput.raised, isOnline_iff]
    split <;> exact .of_silent rfl rfl rfl rfl
  | frame text =>
    simp only [step, ClientInput.raised, ClientInput.heard?, isOnline_iff]
    split
    · exact c.hears_receive text
    · exact .refl c
  | call request =>
    by_cases honline : c.isOnline = true
    · rw [step, call, if_pos honline]
      exact .of_silent rfl rfl rfl rfl
    · rw [step, call, if_neg honline]
      exact .refl c
  | deadline id =>
    dsimp only [step, expire]
    split <;> exact .of_silent rfl rfl rfl rfl
  | stop =>
    simp only [step, stop, ClientInput.raised, isOnline_iff]
    split <;> exact .of_silent rfl rfl rfl rfl

theorem HasTable.run {c : Client} (h : c.HasTable) (inputs : List ClientInput) :
    (c.run inputs).2.HasTable := by
  induction inputs generalizing c with
  | nil => exact h
  | cons input rest ih => exact ih (h.step input)

/-- Inputs in turn do what they bring to be heard, and tell the owner what they raise. -/
theorem hears_run {c : Client} (h : c.HasTable) (inputs : List ClientInput) :
    c.Hears (c.state.heard inputs) (c.state.raised inputs) (c.run inputs).2 := by
  induction inputs generalizing c with
  | nil => exact .refl c
  | cons input rest ih =>
    have hrest := ih (h.step input)
    rw [(comesTo_step h input).state] at hrest
    exact (c.hears_step input).trans hrest

end Client

/-! ## What the owner is told -/

namespace ClientEvent

/-- The owner is told of a batch, by the number of its edits. -/
def updated? : ClientEvent → Option Nat
  | .updated edits => some edits
  | _ => none

/-- The owner is handed a value. -/
def received? : ClientEvent → Option Value
  | .received v => some v
  | _ => none

theorem filterMap_ofFrame (text : String) :
    (ofFrame text).filterMap updated? = ([text].filterMap batchIn?).map List.length ∧
      (ofFrame text).filterMap received? = [text].filterMap foreignIn? := by
  unfold ofFrame
  cases hbatch : batchIn? text <;> cases hforeign : foreignIn? text <;>
    simp [List.filterMap_cons, updated?, received?, hbatch, hforeign]

end ClientEvent

/-- The owner is told once of each batch that is accepted, and is handed each value of an unknown
type once, in the order of the frames. -/
theorem ConnectionState.filterMap_raised (s : ConnectionState) (inputs : List ClientInput) :
    (s.raised inputs).filterMap ClientEvent.updated? =
        ((s.heard inputs).filterMap batchIn?).map List.length ∧
      (s.raised inputs).filterMap ClientEvent.received? = (s.heard inputs).filterMap foreignIn? := by
  induction inputs generalizing s with
  | nil => exact ⟨rfl, rfl⟩
  | cons input rest ih =>
    obtain ⟨hupdated, hreceived⟩ := ih (s.after input)
    have hinput : (input.raised s).filterMap ClientEvent.updated? =
          ((input.heard? s).toList.filterMap batchIn?).map List.length ∧
        (input.raised s).filterMap ClientEvent.received? =
          (input.heard? s).toList.filterMap foreignIn? := by
      cases input with
      | frame text =>
        dsimp only [ClientInput.raised, ClientInput.heard?]
        split
        · exact ClientEvent.filterMap_ofFrame text
        · exact ⟨rfl, rfl⟩
      | opened | closed | stop =>
        dsimp only [ClientInput.raised, ClientInput.heard?]
        split <;> exact ⟨rfl, rfl⟩
      | _ => exact ⟨rfl, rfl⟩
    simp only [raised, heard, List.filterMap_append, List.map_append, hinput, hupdated, hreceived,
      and_self]

/-! ## The law -/

namespace Client

/-- Over all sessions of a client, its replica is what the batches that count make of an empty
document, in the order of the frames. All frames are counted, and so are the edits of these batches;
the owner is told once of each of these batches, and is handed each value of an unknown type once.
No frame ends the session, and one without a batch that counts leaves the replica as it is. -/
theorem replica_eq_fold (capacity timeoutMs : Nat) (inputs : List ClientInput) :
    let start : Client := { events := .ofCapacity capacity, rpcTimeoutMs := timeoutMs }
    let c := (start.run inputs).2
    let frames := start.state.heard inputs
    let raised := start.state.raised inputs
    (frames.filterMap batchIn?).foldlM applyBatch [] = .ok c.replica ∧
      c.stats.frames = frames.length ∧
      c.stats.edits = (frames.filterMap batchIn?).flatten.length ∧
      c.events = raised.foldl Mailbox.offer (.ofCapacity capacity) ∧
      raised.filterMap ClientEvent.updated? = (frames.filterMap batchIn?).map List.length ∧
      raised.filterMap ClientEvent.received? = frames.filterMap foreignIn? ∧
      ∀ text, (c.step (.frame text)).2.state = c.state ∧
        (batchIn? text = none → (c.step (.frame text)).2.replica = c.replica) := by
  intro start c frames raised
  have htable : start.HasTable := ⟨KeyMap.sorted_nil, fun _ => rfl⟩
  have hears : start.Hears frames raised c := hears_run htable inputs
  obtain ⟨hupdated, hreceived⟩ := start.state.filterMap_raised inputs
  refine ⟨hears.replica, hears.counted.trans (Nat.zero_add _), hears.applied.trans (Nat.zero_add _),
    hears.told, hupdated, hreceived, fun text =>
      ⟨(comesTo_step (htable.run inputs) _).state, fun hbatch => ?_⟩⟩
  refine (c.hears_step (.frame text)).replica_eq_of_none fun other hother => ?_
  obtain ⟨-, rfl⟩ := Option.ite_some_none_eq_some.mp (Option.mem_toList.mp hother)
  exact hbatch

/-- A batch and a text that is no envelope come in one session, a value of an unknown type in
another. -/
theorem replica_eq_fold_of_two_sessions :
    let batch : Value := .object [("ops", .array [.object [("keyPath", .string "a"),
      ("type", .string "$set"), ("value", .bool true)]]), ("type", .string "apply")]
    let foreign : Value := .object [("type", .string "greeting")]
    let inputs : List ClientInput := [.attempt, .opened, .frame (Envelope.encode batch), .frame "x",
      .closed, .attempt, .opened, .frame (Envelope.encode foreign)]
    let c := (({ events := .ofCapacity 8 } : Client).run inputs).2
    c.replica = [("a", .bool true)] ∧ c.stats.frames = 3 ∧ c.stats.edits = 1 ∧
      c.events.items = [.connected, .updated 1, .disconnected, .connected, .received foreign] ∧
      batchIn? "x" = none ∧ (c.step (.frame "x")).2.replica = c.replica := by
  intro batch foreign inputs
  dsimp only
  have hbatch : Envelope.decode (Envelope.encode batch) = .ok batch := by
    rw [Envelope.decode_encode (by simp [batch]), if_pos (by decide)]
    exact congrArg Except.ok (by decide +kernel)
  have hforeign : Envelope.decode (Envelope.encode foreign) = .ok foreign := by
    rw [Envelope.decode_encode (by simp [foreign]), if_pos (by decide)]
    exact congrArg Except.ok (by decide +kernel)
  have hnoise : Envelope.decode "x" = .error (.invalidJson unreadable) := by
    have hparse : parse? "x" = none := by decide +kernel
    rw [Envelope.decode, hparse]
  have hcounts : batchIn? (Envelope.encode batch) = some [.set (some "a") (.bool true)] ∧
      foreignIn? (Envelope.encode batch) = none := by
    rw [batchIn?, foreignIn?, hbatch]
    exact ⟨rfl, rfl⟩
  have hnone : batchIn? "x" = none ∧ foreignIn? "x" = none := by
    rw [batchIn?, foreignIn?, hnoise]
    exact ⟨rfl, rfl⟩
  have hvalue : batchIn? (Envelope.encode foreign) = none ∧
      foreignIn? (Envelope.encode foreign) = some foreign := by
    rw [batchIn?, foreignIn?, hforeign]
    exact ⟨rfl, rfl⟩
  have hbatches : [Envelope.encode batch, "x", Envelope.encode foreign].filterMap batchIn? =
      [[.set (some "a") (.bool true)]] := by
    simp [hcounts, hnone, hvalue]
  have hheard : ConnectionState.connecting.heard inputs =
      [Envelope.encode batch, "x", Envelope.encode foreign] := rfl
  have htold : ConnectionState.connecting.raised inputs =
      [.connected, .updated 1, .disconnected, .connected, .received foreign] := by
    simp [inputs, ConnectionState.raised, ConnectionState.after, ClientInput.raised,
      ClientEvent.ofFrame, hcounts, hnone, hvalue]
  have hfold : [[Edit.set (some "a") (.bool true)]].foldlM applyBatch [] =
      .ok [("a", .bool true)] := rfl
  obtain ⟨hreplica, hframes, hedits, hevents, -, -, hother⟩ := replica_eq_fold 8 30000 inputs
  dsimp only at hreplica hframes hedits hevents hother
  rw [hheard, hbatches, hfold] at hreplica
  rw [hheard] at hframes
  rw [hheard, hbatches] at hedits
  rw [htold] at hevents
  exact ⟨(Except.ok.inj hreplica).symm, hframes, hedits, congrArg Mailbox.items hevents,
    hnone.1, (hother "x").2 hnone.1⟩

end Client

end LiveDoc
