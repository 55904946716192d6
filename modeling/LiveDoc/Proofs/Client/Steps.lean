import LiveDoc.Proofs.Message.Frames
import LiveDoc.Proofs.Replica

/-!
# LiveDoc — what an input does to the calls of a client

An input ends some of the calls that are pending and lets the others be. Which ones it ends, and how,
follows from the input alone, whatever else the client is at; only whether a call can be sent depends
on the connection.

* `ConnectionState.after` — what the connection is at after an input.
* `ClientInput.end?` — how an input ends a call.
* `Client.comesTo_step`, `Client.step_cases` — what a step ends, and what it leaves pending.
* `Client.step_frame_of_unknown` — a response that nobody waits for does nothing.
-/

namespace LiveDoc

open Json

/-- What the connection is at after an input. -/
def ConnectionState.after (s : ConnectionState) : ClientInput → ConnectionState
  | .attempt => if s = .connected ∨ s = .stopped then s else .connecting
  | .unreachable => if s = .connecting then .backingOff else s
  | .opened => if s = .connecting then .connected else s
  | .closed => if s = .connected then .backingOff else s
  | .stop => .stopped
  | .frame _ | .call _ | .deadline _ => s

/-- The response that a frame carries, if it carries one. -/
def RpcResponse.ofFrame? (text : String) : Option RpcResponse :=
  match Message.decode text with
  | .ok (.rpcResponse response) => some response
  | _ => none

/-- The frame of a response carries it. -/
theorem RpcResponse.ofFrame?_encode {response : RpcResponse} (h : response.HasWritableResult) :
    ofFrame? (Message.rpcResponse response).encode = some response := by
  rw [ofFrame?, (isWritable h).decode_encode, parse_toValue h]

namespace ClientInput

/-- Whether an input ends the call with an id, if that is pending. -/
def endsCall (id : String) : ClientInput → Bool
  | .frame text => (RpcResponse.ofFrame? text).any fun response => response.id = id
  | .deadline other => other = id
  | .closed | .stop => true
  | .attempt | .unreachable | .opened | .call _ => false

/-- How an input ends a call, if that is pending. -/
def end? (timeoutMs : Nat) (id function : String) : ClientInput → Option (Except CallError Value)
  | .frame text =>
    (RpcResponse.ofFrame? text).bind fun response =>
      if response.id = id then some (Client.outcomeOf response) else none
  | .deadline other => if other = id then some (.error (.timeout function timeoutMs)) else none
  | .closed | .stop => some (.error .notConnected)
  | .attempt | .unreachable | .opened | .call _ => none

/-- A call that cannot be sent ends at once. -/
def refused? (s : ConnectionState) : ClientInput → Option CallEnd
  | .call request =>
    if s = .connected then none else some { id := request.id, outcome := .error .notConnected }
  | _ => none

def sent? (s : ConnectionState) : ClientInput → Option RpcRequest
  | .call request => if s = .connected then some request else none
  | _ => none

theorem refused?_eq_some_iff {s : ConnectionState} {input : ClientInput} {e : CallEnd} :
    input.refused? s = some e ↔ ∃ request, input = .call request ∧ s ≠ .connected ∧
      e = { id := request.id, outcome := .error .notConnected } := by
  cases input <;> simp [refused?, eq_comm]

variable (input : ClientInput) (timeoutMs : Nat)

theorem isSome_end? (id function : String) :
    (input.end? timeoutMs id function).isSome = input.endsCall id := by
  cases input with
  | frame text =>
    cases hresponse : RpcResponse.ofFrame? text with
    | none => simp [end?, endsCall, hresponse]
    | some response => by_cases h : response.id = id <;> simp [end?, endsCall, hresponse, h]
  | deadline other => by_cases h : other = id <;> simp [end?, endsCall, h]
  | _ => rfl

/-- The pending calls that an input ends, each with its outcome. -/
def ends (pending : KeyMap String) : List CallEnd :=
  pending.filterMap fun call =>
    (input.end? timeoutMs call.1 call.2).map fun outcome => { id := call.1, outcome }

/-- The pending calls that an input lets be. -/
def spared (pending : KeyMap String) : KeyMap String :=
  pending.filter fun call => !input.endsCall call.1

variable {input timeoutMs} {pending : KeyMap String}

@[simp] theorem ends_nil : input.ends timeoutMs [] = [] := rfl

@[simp] theorem spared_nil : input.spared [] = [] := rfl

theorem ends_cons (id function : String) (rest : KeyMap String) :
    input.ends timeoutMs ((id, function) :: rest) =
      ((input.end? timeoutMs id function).map fun outcome =>
        { id, outcome : CallEnd }).toList ++ input.ends timeoutMs rest := by
  rw [ends, List.filterMap_cons]
  cases input.end? timeoutMs id function <;> rfl

/-- An input that ends no calls lets all of them be. -/
theorem ends_of_none (h : ∀ id, input.endsCall id = false) (timeoutMs : Nat)
    (pending : KeyMap String) :
    input.ends timeoutMs pending = [] ∧ input.spared pending = pending := by
  refine ⟨List.filterMap_eq_nil_iff.mpr fun call _ => ?_,
    List.filter_eq_self.mpr fun call _ => by simp [h]⟩
  have hnone := input.isSome_end? timeoutMs call.1 call.2
  rw [h, Option.isSome_eq_false_iff, Option.isNone_iff_eq_none] at hnone
  rw [hnone]
  rfl

/-- An input that ends the call with one id alone. -/
theorem ends_of_id {key : String} {outcome : String → Except CallError Value}
    (hsorted : KeyMap.Sorted pending)
    (hend : ∀ id function, input.end? timeoutMs id function =
      if key = id then some (outcome function) else none) :
    input.ends timeoutMs pending =
        ((KeyMap.get? pending key).map fun function =>
          { id := key, outcome := outcome function : CallEnd }).toList ∧
      input.spared pending = KeyMap.erase pending key := by
  constructor
  · induction pending with
    | nil => rfl
    | cons call rest ih =>
      obtain ⟨id, function⟩ := call
      obtain ⟨hlt, hrest⟩ := KeyMap.sorted_cons.mp hsorted
      rw [ends_cons, ih hrest, hend]
      by_cases hkey : key = id
      · subst hkey
        have habsent : KeyMap.get? rest key = none :=
          KeyMap.get?_eq_none_iff.mpr fun hmem => (hlt key hmem).ne rfl
        simp [KeyMap.get?, habsent]
      · simp [KeyMap.get?, hkey, Ne.symm hkey]
  · refine List.filter_congr fun call _ => ?_
    rw [← input.isSome_end? timeoutMs call.1 call.2, hend]
    by_cases hkey : key = call.1
    · simp [hkey]
    · simp [hkey, Ne.symm hkey]

theorem mem_ends (h : KeyMap.Sorted pending) {e : CallEnd} :
    e ∈ input.ends timeoutMs pending ↔ ∃ function,
      KeyMap.get? pending e.id = some function ∧
        input.end? timeoutMs e.id function = some e.outcome := by
  rw [ends, List.mem_filterMap]
  constructor
  · rintro ⟨⟨id, function⟩, hmem, hend⟩
    obtain ⟨outcome, houtcome, rfl⟩ := Option.map_eq_some_iff.mp hend
    exact ⟨function, h.get?_of_mem hmem, houtcome⟩
  · rintro ⟨function, hget, hend⟩
    exact ⟨(e.id, function), KeyMap.mem_of_get? hget, by rw [hend]; rfl⟩

theorem get?_spared (h : KeyMap.Sorted pending) (input : ClientInput) (id : String) :
    KeyMap.get? (input.spared pending) id =
      (KeyMap.get? pending id).filter fun _ => !input.endsCall id :=
  h.get?_filter (fun call => !input.endsCall call.1) id

/-- An input ends those calls that it does not let be. -/
theorem ids_ends (pending : KeyMap String) :
    (input.ends timeoutMs pending).map (·.id) =
      KeyMap.keys (pending.filter fun call => input.endsCall call.1) := by
  induction pending with
  | nil => rfl
  | cons call rest ih =>
    obtain ⟨id, function⟩ := call
    rw [ends_cons, List.map_append, ih, List.filter_cons, ← isSome_end? input timeoutMs id function]
    cases input.end? timeoutMs id function <;> rfl

end ClientInput

namespace Client

variable {c : Client} {input : ClientInput} {text : String}

/-! ## Frames -/

/-- What is known of a client beside its calls stays as it is. -/
def KeepsConnection (c c' : Client) : Prop :=
  c'.state = c.state ∧ c'.rpcTimeoutMs = c.rpcTimeoutMs

theorem keeps_resolve (c : Client) (response : RpcResponse) :
    c.KeepsConnection (c.resolve response).2 := by
  unfold resolve
  split <;> exact ⟨rfl, rfl⟩

theorem keeps_update (c : Client) (edits : List Edit) :
    c.KeepsConnection (c.update edits) ∧ (c.update edits).pending = c.pending := by
  unfold update
  split <;> exact ⟨⟨rfl, rfl⟩, rfl⟩

/-- A frame with a response does what the response does. -/
theorem receive_of_some {response : RpcResponse} (h : RpcResponse.ofFrame? text = some response) :
    c.receive text =
      ({ c with stats := { c.stats with frames := c.stats.frames + 1 } } : Client).resolve
        response := by
  unfold RpcResponse.ofFrame? at h
  split at h
  · next other hdecode =>
    cases h
    cases hvalue : Envelope.decode text with
    | error e =>
      rw [Message.decode, hvalue] at hdecode
      cases hdecode
    | ok v =>
      have hparse : Message.parse v = .ok (.rpcResponse response) := by
        rwa [Message.decode, hvalue] at hdecode
      rw [receive, hvalue]
      simp [accept, hparse]
  · cases h

/-- A frame without a response ends no call. -/
theorem receive_of_none (h : RpcResponse.ofFrame? text = none) :
    (c.receive text).1 = [] ∧ c.KeepsConnection (c.receive text).2 ∧
      (c.receive text).2.pending = c.pending := by
  unfold receive
  cases hdecode : Envelope.decode text with
  | error e => exact ⟨rfl, ⟨rfl, rfl⟩, rfl⟩
  | ok v =>
    have hparse : ∀ response, Message.parse v ≠ .ok (.rpcResponse response) := by
      intro response hparse
      simp [RpcResponse.ofFrame?, Message.decode, hdecode, bind, Except.bind, hparse] at h
    simp only [accept]
    split
    · next edits _ =>
      obtain ⟨⟨hstate, htimeout⟩, hpending⟩ := keeps_update
        { c with stats := { c.stats with frames := c.stats.frames + 1 } } edits
      exact ⟨rfl, ⟨hstate, htimeout⟩, hpending⟩
    · next response heq => exact absurd heq (hparse response)
    · exact ⟨rfl, ⟨rfl, rfl⟩, rfl⟩
    · exact ⟨rfl, ⟨rfl, rfl⟩, rfl⟩

/-! ## Steps -/

/-- The table of a client: it has each call once, and is empty when no session is open. -/
structure HasTable (c : Client) : Prop where
  sorted : KeyMap.Sorted c.pending
  idle : c.state ≠ .connected → c.pending = []

/-- What a client comes to with an input, and which calls have ended then. -/
structure ComesTo (c : Client) (input : ClientInput) (result : List CallEnd × Client) : Prop where
  ended : result.1 = (input.refused? c.state).toList ++ input.ends c.rpcTimeoutMs c.pending
  pending : result.2.pending = (input.sent? c.state).elim (input.spared c.pending)
    fun request => KeyMap.set c.pending request.id request.function
  state : result.2.state = c.state.after input
  timeout : result.2.rpcTimeoutMs = c.rpcTimeoutMs

theorem isOnline_iff : c.isOnline = true ↔ c.state = .connected := decide_eq_true_iff

/-- An input that concerns no call changes what the connection is at, and no more. -/
theorem comesTo_of_idle {c' : Client} (hends : ∀ id, input.endsCall id = false)
    (hrefused : input.refused? c.state = none) (hsent : input.sent? c.state = none)
    (hpending : c'.pending = c.pending) (hstate : c'.state = c.state.after input)
    (htimeout : c'.rpcTimeoutMs = c.rpcTimeoutMs) : c.ComesTo input ([], c') := by
  obtain ⟨hnone, hall⟩ := ClientInput.ends_of_none hends c.rpcTimeoutMs c.pending
  exact ⟨by rw [hrefused, hnone]; rfl, by rw [hsent, hpending, Option.elim_none, hall], hstate,
    htimeout⟩

/-- An input that ends the call with one id alone. -/
theorem comesTo_of_id (h : c.HasTable) (key : String) (outcome : String → Except CallError Value)
    {result : List CallEnd × Client}
    (hend : ∀ id function, input.end? c.rpcTimeoutMs id function =
      if key = id then some (outcome function) else none)
    (hrefused : input.refused? c.state = none) (hsent : input.sent? c.state = none)
    (hresult : result.1 = ((KeyMap.get? c.pending key).map fun function =>
      { id := key, outcome := outcome function : CallEnd }).toList)
    (hpending : result.2.pending = KeyMap.erase c.pending key)
    (hstate : result.2.state = c.state.after input)
    (htimeout : result.2.rpcTimeoutMs = c.rpcTimeoutMs) : c.ComesTo input result := by
  obtain ⟨hends, hspared⟩ := ClientInput.ends_of_id h.sorted hend
  exact ⟨by rw [hrefused, hends, hresult]; rfl, by rw [hsent, hpending, Option.elim_none, hspared],
    hstate, htimeout⟩

theorem comesTo_receive (h : c.HasTable) (text : String) :
    c.ComesTo (.frame text) (c.receive text) := by
  cases hresponse : RpcResponse.ofFrame? text with
  | none =>
    obtain ⟨hended, ⟨hstate, htimeout⟩, hpending⟩ := receive_of_none (c := c) hresponse
    have heq : c.receive text = ([], (c.receive text).2) := Prod.ext hended rfl
    rw [heq]
    exact comesTo_of_idle (fun id => by simp [ClientInput.endsCall, hresponse]) rfl rfl hpending
      hstate htimeout
  | some response =>
    rw [receive_of_some hresponse]
    obtain ⟨hstate, htimeout⟩ := keeps_resolve
      { c with stats := { c.stats with frames := c.stats.frames + 1 } } response
    refine comesTo_of_id h response.id (fun _ => outcomeOf response)
      (fun id _ => by simp [ClientInput.end?, hresponse]) rfl rfl ?_ ?_ hstate htimeout
    all_goals
      unfold resolve KeyMap.hasKey
      cases hget : KeyMap.get? c.pending response.id with
      | none => simp [KeyMap.erase_eq_self hget]
      | some function => simp

theorem comesTo_expire (h : c.HasTable) (id : String) :
    c.ComesTo (.deadline id) (c.expire id) := by
  have hstate : (c.expire id).2.state = c.state ∧ (c.expire id).2.rpcTimeoutMs = c.rpcTimeoutMs := by
    unfold expire
    split <;> exact ⟨rfl, rfl⟩
  refine comesTo_of_id h id (fun function => .error (.timeout function c.rpcTimeoutMs))
    (fun _ _ => rfl) rfl rfl ?_ ?_ hstate.1 hstate.2
  all_goals
    unfold expire
    cases hget : KeyMap.get? c.pending id with
    | none => simp [KeyMap.erase_eq_self hget]
    | some function => simp

/-- An input that ends all calls. -/
theorem comesTo_of_all {result : List CallEnd × Client}
    (hend : ∀ id function, input.end? c.rpcTimeoutMs id function = some (.error .notConnected))
    (hrefused : input.refused? c.state = none) (hsent : input.sent? c.state = none)
    (hresult : result.1 = c.pending.map fun call => { id := call.1, outcome := .error .notConnected })
    (hpending : result.2.pending = []) (hstate : result.2.state = c.state.after input)
    (htimeout : result.2.rpcTimeoutMs = c.rpcTimeoutMs) : c.ComesTo input result := by
  refine ⟨?_, ?_, hstate, htimeout⟩
  · rw [hrefused, hresult, ClientInput.ends]
    simp [hend]
  · rw [hsent, hpending, Option.elim_none, ClientInput.spared]
    refine (List.filter_eq_nil_iff.mpr fun call _ => ?_).symm
    simp [← input.isSome_end? c.rpcTimeoutMs call.1 call.2, hend]

/-- What a client comes to is told by the input, by its table, and by what the connection is at. -/
theorem comesTo_step (h : c.HasTable) (input : ClientInput) : c.ComesTo input (c.step input) := by
  cases input with
  | attempt =>
    rw [step]
    refine comesTo_of_idle (fun _ => rfl) rfl rfl ?_ ?_ ?_
    all_goals
      by_cases hstate : c.state = .connected ∨ c.state = .stopped
      · simp [isOnline, ConnectionState.after, hstate]
      · simp [isOnline, ConnectionState.after, hstate, attempt]
  | unreachable =>
    rw [step]
    refine comesTo_of_idle (fun _ => rfl) rfl rfl ?_ ?_ ?_
    all_goals by_cases hstate : c.state = .connecting <;>
      simp [ConnectionState.after, hstate, unreachable]
  | opened =>
    rw [step]
    refine comesTo_of_idle (fun _ => rfl) rfl rfl ?_ ?_ ?_
    all_goals by_cases hstate : c.state = .connecting <;>
      simp [ConnectionState.after, hstate, opened, emit]
  | closed =>
    rw [step]
    by_cases honline : c.isOnline = true
    · rw [if_pos honline]
      exact comesTo_of_all (fun _ _ => rfl) rfl rfl rfl rfl
        (if_pos (isOnline_iff.mp honline)).symm rfl
    · have hstate : c.state ≠ .connected := mt isOnline_iff.mpr honline
      rw [if_neg honline]
      exact comesTo_of_all (fun _ _ => rfl) rfl rfl (by rw [h.idle hstate]; rfl) (h.idle hstate)
        (if_neg hstate).symm rfl
  | frame text =>
    rw [step]
    by_cases honline : c.isOnline = true
    · rw [if_pos honline]
      exact comesTo_receive h text
    · have hempty := h.idle (mt isOnline_iff.mpr honline)
      rw [if_neg honline]
      exact ⟨by rw [hempty]; rfl, by rw [hempty]; rfl, rfl, rfl⟩
  | call request =>
    have hnone : ∀ id, (ClientInput.call request).endsCall id = false := fun _ => rfl
    have hends := ClientInput.ends_of_none hnone c.rpcTimeoutMs c.pending
    rw [step, call]
    by_cases honline : c.isOnline = true
    · have hstate := isOnline_iff.mp honline
      rw [if_pos honline]
      refine ⟨?_, ?_, rfl, rfl⟩
      · simp [ClientInput.refused?, hstate, hends.1]
      · simp [ClientInput.sent?, hstate]
    · have hstate : c.state ≠ .connected := mt isOnline_iff.mpr honline
      rw [if_neg honline]
      refine ⟨?_, ?_, rfl, rfl⟩
      · simp [ClientInput.refused?, hstate, hends.1]
      · simp [ClientInput.sent?, hstate, hends.2]
  | deadline id => exact comesTo_expire h id
  | stop =>
    rw [step, stop]
    by_cases honline : c.isOnline = true
    · rw [if_pos honline]
      exact comesTo_of_all (fun _ _ => rfl) rfl rfl rfl rfl rfl rfl
    · rw [if_neg honline]
      exact comesTo_of_all (fun _ _ => rfl) rfl rfl rfl rfl rfl rfl

/-- A call is refused or sent, and any other input ends some of the calls that are pending and lets
the others be. -/
theorem step_cases (h : c.HasTable) (input : ClientInput) :
    (∃ request, input = .call request ∧ c.state ≠ .connected ∧ c.pending = [] ∧
        (c.step input).1 = [{ id := request.id, outcome := .error .notConnected }] ∧
        (c.step input).2.pending = []) ∨
      (∃ request, input = .call request ∧ c.state = .connected ∧ (c.step input).1 = [] ∧
        (c.step input).2.pending = KeyMap.set c.pending request.id request.function) ∨
      ((∀ request, input ≠ .call request) ∧
        (c.step input).1 = input.ends c.rpcTimeoutMs c.pending ∧
        (c.step input).2.pending = input.spared c.pending) := by
  have hcomes := comesTo_step h input
  cases input with
  | call request =>
    have hnone : ∀ id, (ClientInput.call request).endsCall id = false := fun _ => rfl
    have hends := ClientInput.ends_of_none hnone c.rpcTimeoutMs c.pending
    have hended := hcomes.ended
    have hpending := hcomes.pending
    rw [hends.1, List.append_nil] at hended
    rw [hends.2] at hpending
    by_cases hstate : c.state = .connected
    · rw [ClientInput.refused?, if_pos hstate] at hended
      rw [ClientInput.sent?, if_pos hstate] at hpending
      exact .inr (.inl ⟨request, rfl, hstate, hended, hpending⟩)
    · rw [ClientInput.refused?, if_neg hstate] at hended
      rw [ClientInput.sent?, if_neg hstate] at hpending
      exact .inl ⟨request, rfl, hstate, h.idle hstate, hended, hpending.trans (h.idle hstate)⟩
  | _ => exact .inr (.inr ⟨nofun, hcomes.ended, hcomes.pending⟩)

/-- What has ended was refused, or was pending and met the input. -/
theorem mem_ended_step (h : c.HasTable) {e : CallEnd} :
    e ∈ (c.step input).1 ↔ input.refused? c.state = some e ∨ ∃ function,
      KeyMap.get? c.pending e.id = some function ∧
        input.end? c.rpcTimeoutMs e.id function = some e.outcome := by
  rw [(comesTo_step h input).ended, List.mem_append, Option.mem_toList,
    ClientInput.mem_ends h.sorted]

/-- A table that the connection allows stays one. -/
theorem HasTable.step (h : c.HasTable) (input : ClientInput) : (c.step input).2.HasTable := by
  have hcomes := comesTo_step h input
  constructor
  · rw [hcomes.pending]
    cases input.sent? c.state with
    | none => exact h.sorted.filter _
    | some request => exact h.sorted.set _ _
  · rw [hcomes.state, hcomes.pending]
    intro hstate
    cases input with
    | closed => exact List.filter_eq_nil_iff.mpr fun call _ => by simp [ClientInput.endsCall]
    | stop => exact List.filter_eq_nil_iff.mpr fun call _ => by simp [ClientInput.endsCall]
    | call request =>
      have hoffline : c.state ≠ .connected := hstate
      rw [h.idle hoffline, ClientInput.sent?, if_neg hoffline]
      rfl
    | attempt | unreachable | opened | frame text | deadline id =>
      have hoffline : c.state ≠ .connected := by
        intro hconnected
        simp [ConnectionState.after, hconnected] at hstate
      rw [h.idle hoffline]
      rfl

/-- A response that no call waits for does nothing to calls and replica. -/
theorem step_frame_of_unknown (c : Client) {response : RpcResponse}
    (hresponse : RpcResponse.ofFrame? text = some response)
    (hunknown : response.id ∉ KeyMap.keys c.pending) :
    (c.step (.frame text)).1 = [] ∧ (c.step (.frame text)).2.pending = c.pending ∧
      (c.step (.frame text)).2.replica = c.replica := by
  have hget : KeyMap.get? c.pending response.id = none := KeyMap.get?_eq_none_iff.mpr hunknown
  rw [step]
  split
  · rw [receive_of_some hresponse, resolve, KeyMap.hasKey]
    simp [hget]
  · exact ⟨rfl, rfl, rfl⟩

end Client

end LiveDoc
