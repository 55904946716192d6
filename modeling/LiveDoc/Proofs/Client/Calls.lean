import LiveDoc.Proofs.Client.Steps
import Mathlib.Data.List.Induction
import Mathlib.Data.List.Nodup

/-!
# LiveDoc — how calls end

Responses, deadlines and sessions that end come to a client in any order, and the first of them that
finds a call pending ends it. Which one that is can be read off the inputs: the table has the calls
that were sent in the session and met none of them, and every other call ended once.

* `Client.IsPending`, `Client.Ends` — which calls wait, and how a call ends, by the inputs alone.
* `Client.Follows` — the table agrees with the inputs.
* `Client.calls_end_once` — the calls of a client, for any interleaving.
-/

namespace LiveDoc

open Json

/-- What the connection is at after inputs in turn. -/
def ConnectionState.afterAll (s : ConnectionState) (inputs : List ClientInput) : ConnectionState :=
  inputs.foldl after s

def ClientInput.callId? : ClientInput → Option String
  | .call request => some request.id
  | _ => none

namespace Client

/-- The ids of all calls, whether they could be sent or not. -/
def callIds (inputs : List ClientInput) : List String := inputs.filterMap (·.callId?)

variable (timeoutMs : Nat) (start : ConnectionState)

/-- The call was made while a session was open. -/
def IsSent (inputs : List ClientInput) (request : RpcRequest) : Prop :=
  ∃ before since, inputs = before ++ .call request :: since ∧ start.afterAll before = .connected

/-- The call was sent, and nothing has come since that ends it: no response with its id, no deadline
of its own, and no end of the session. -/
def IsPending (inputs : List ClientInput) (request : RpcRequest) : Prop :=
  ∃ before since, inputs = before ++ .call request :: since ∧ start.afterAll before = .connected ∧
    ∀ input ∈ since, input.endsCall request.id = false

/-- How an input that comes behind others ends a call. -/
inductive Ends (before : List ClientInput) : ClientInput → CallEnd → Prop where
  -- No session is open.
  | refused (request : RpcRequest) (offline : start.afterAll before ≠ .connected) :
      Ends before (.call request) { id := request.id, outcome := .error .notConnected }
  | answered {request : RpcRequest} {text : String} {response : RpcResponse}
      (pending : IsPending start before request) (read : RpcResponse.ofFrame? text = some response)
      (own : response.id = request.id) (succeeded : response.error = none) :
      Ends before (.frame text) { id := request.id, outcome := .ok (response.result.getD .null) }
  | failed {request : RpcRequest} {text error : String} {response : RpcResponse}
      (pending : IsPending start before request) (read : RpcResponse.ofFrame? text = some response)
      (own : response.id = request.id) (failed : response.error = some error) :
      Ends before (.frame text) { id := request.id, outcome := .error (.remote error) }
  | expired {request : RpcRequest} (pending : IsPending start before request) :
      Ends before (.deadline request.id)
        { id := request.id, outcome := .error (.timeout request.function timeoutMs) }
  -- The session ends.
  | closed {request : RpcRequest} (pending : IsPending start before request) :
      Ends before .closed { id := request.id, outcome := .error .notConnected }
  | stopped {request : RpcRequest} (pending : IsPending start before request) :
      Ends before .stop { id := request.id, outcome := .error .notConnected }

variable {timeoutMs start} {c c₀ : Client} {input : ClientInput} {inputs : List ClientInput}
  {request : RpcRequest}

/-! ## What the inputs tell -/

theorem callIds_concat (inputs : List ClientInput) (input : ClientInput) :
    callIds (inputs ++ [input]) = callIds inputs ++ input.callId?.toList := by
  rw [callIds, List.filterMap_append]
  cases hid : input.callId? <;> simp [callIds, hid]

theorem afterAll_concat (inputs : List ClientInput) (input : ClientInput) :
    start.afterAll (inputs ++ [input]) = (start.afterAll inputs).after input :=
  List.foldl_append

theorem IsPending.isSent (h : IsPending start inputs request) : IsSent start inputs request := by
  obtain ⟨before, since, hinputs, hopen, -⟩ := h
  exact ⟨before, since, hinputs, hopen⟩

theorem IsSent.mem_callIds (h : IsSent start inputs request) : request.id ∈ callIds inputs := by
  obtain ⟨before, since, rfl, -⟩ := h
  exact List.mem_filterMap.mpr ⟨.call request, by simp, rfl⟩

/-- An input that comes last is the one that was picked, or comes behind it. -/
theorem concat_eq_iff {before since : List ClientInput} {last : ClientInput} :
    inputs ++ [last] = before ++ input :: since ↔
      (∃ earlier, since = earlier ++ [last] ∧ inputs = before ++ input :: earlier) ∨
        since = [] ∧ before = inputs ∧ input = last := by
  constructor
  · intro heq
    rcases since.eq_nil_or_concat' with rfl | ⟨earlier, other, rfl⟩
    · obtain ⟨rfl, hlast⟩ := List.append_inj' heq rfl
      exact .inr ⟨rfl, rfl, (List.singleton_inj.mp hlast).symm⟩
    · rw [← List.cons_append, ← List.append_assoc] at heq
      obtain ⟨hinputs, hlast⟩ := List.append_inj' heq rfl
      exact .inl ⟨earlier, by rw [List.singleton_inj.mp hlast], hinputs⟩
  · rintro (⟨earlier, rfl, rfl⟩ | ⟨rfl, rfl, rfl⟩)
    · simp
    · rfl

theorem isSent_concat :
    IsSent start (inputs ++ [input]) request ↔
      IsSent start inputs request ∨
        input = .call request ∧ start.afterAll inputs = .connected := by
  constructor
  · rintro ⟨before, since, heq, hopen⟩
    rcases concat_eq_iff.mp heq with ⟨earlier, rfl, rfl⟩ | ⟨rfl, rfl, rfl⟩
    · exact .inl ⟨before, earlier, rfl, hopen⟩
    · exact .inr ⟨rfl, hopen⟩
  · rintro (⟨before, since, rfl, hopen⟩ | ⟨rfl, hopen⟩)
    · exact ⟨before, since ++ [input], by simp, hopen⟩
    · exact ⟨inputs, [], rfl, hopen⟩

/-- The last input lets a call be, or makes it. -/
theorem isPending_concat :
    IsPending start (inputs ++ [input]) request ↔
      IsPending start inputs request ∧ input.endsCall request.id = false ∨
        input = .call request ∧ start.afterAll inputs = .connected := by
  constructor
  · rintro ⟨before, since, heq, hopen, hsince⟩
    rcases concat_eq_iff.mp heq with ⟨earlier, rfl, rfl⟩ | ⟨rfl, rfl, rfl⟩
    · exact .inl ⟨⟨before, earlier, rfl, hopen, fun other hmem =>
        hsince other (List.mem_append_left _ hmem)⟩, hsince input (by simp)⟩
    · exact .inr ⟨rfl, hopen⟩
  · rintro (⟨⟨before, since, rfl, hopen, hsince⟩, hlast⟩ | ⟨rfl, hopen⟩)
    · refine ⟨before, since ++ [input], by simp, hopen, fun other hmem => ?_⟩
      rcases List.mem_append.mp hmem with hearlier | hnow
      · exact hsince other hearlier
      · rw [List.mem_singleton.mp hnow]
        exact hlast
    · exact ⟨inputs, [], rfl, hopen, nofun⟩

theorem not_isPending_nil : ¬ IsPending start [] request := by
  rintro ⟨before, since, heq, -⟩
  simp at heq

/-! ## Runs -/

theorem run_concat (c : Client) (inputs : List ClientInput) (input : ClientInput) :
    c.run (inputs ++ [input]) =
      ((c.run inputs).1 ++ ((c.run inputs).2.step input).1, ((c.run inputs).2.step input).2) := by
  induction inputs generalizing c with
  | nil => simp [run]
  | cons first rest ih => simp [run, ih]

/-- Whatever ended in a run ended with one of the inputs. -/
theorem mem_run_iff {e : CallEnd} :
    e ∈ (c.run inputs).1 ↔ ∃ before input rest, inputs = before ++ input :: rest ∧
      e ∈ ((c.run before).2.step input).1 := by
  induction inputs using List.reverseRecOn with
  | nil => simp [run]
  | append_singleton inputs last ih =>
    rw [run_concat, List.mem_append, ih]
    constructor
    · rintro (⟨before, input, rest, rfl, hmem⟩ | hmem)
      · exact ⟨before, input, rest ++ [last], by simp, hmem⟩
      · exact ⟨inputs, last, [], rfl, hmem⟩
    · rintro ⟨before, input, rest, heq, hmem⟩
      rcases concat_eq_iff.mp heq with ⟨earlier, rfl, rfl⟩ | ⟨rfl, rfl, rfl⟩
      · exact .inl ⟨before, input, earlier, rfl, hmem⟩
      · exact .inr hmem

/-! ## The table -/

/-- A client agrees with the inputs that came since it had no calls. -/
structure Follows (c₀ : Client) (inputs : List ClientInput) (c : Client) : Prop where
  table : c.HasTable
  timeout : c.rpcTimeoutMs = c₀.rpcTimeoutMs
  state : c.state = c₀.state.afterAll inputs
  pending : ∀ id function, KeyMap.get? c.pending id = some function ↔
    ∃ request, IsPending c₀.state inputs request ∧ request.id = id ∧ request.function = function

/-- The id of a call is new. -/
theorem notMem_callIds_of_call (h : (callIds (inputs ++ [.call request])).Nodup) :
    request.id ∉ callIds inputs := fun hmem => by
  rw [callIds_concat] at h
  exact List.disjoint_of_nodup_append h hmem (by simp [ClientInput.callId?])

theorem Follows.step (h : Follows c₀ inputs c)
    (hdistinct : (callIds (inputs ++ [input])).Nodup) :
    Follows c₀ (inputs ++ [input]) (c.step input).2 := by
  have hcomes := comesTo_step h.table input
  refine ⟨h.table.step input, hcomes.timeout.trans h.timeout, ?_, fun id function => ?_⟩
  · rw [hcomes.state, h.state, afterAll_concat]
  · simp only [isPending_concat, ← h.state]
    rcases step_cases h.table input with ⟨request, rfl, hoffline, hempty, -, hpending⟩ |
      ⟨request, rfl, hopen, -, hpending⟩ | ⟨hinput, -, hpending⟩
    · have hnone : ∀ other, ¬ IsPending c₀.state inputs other := fun other hother => by
        have hget := (h.pending other.id other.function).mpr ⟨other, hother, rfl, rfl⟩
        simp [hempty] at hget
      simp [hpending, hnone, hoffline]
    · have hnew := notMem_callIds_of_call hdistinct
      rw [hpending]
      simp only [ClientInput.call.injEq, hopen, and_true]
      by_cases hid : request.id = id
      · subst hid
        rw [KeyMap.get?_set_self]
        constructor
        · intro hfunction
          exact ⟨request, .inr rfl, rfl, Option.some.inj hfunction⟩
        · rintro ⟨other, hother | rfl, hid, rfl⟩
          · exact absurd (hid ▸ hother.1.isSent.mem_callIds) hnew
          · rfl
      · rw [KeyMap.get?_set_of_ne _ _ hid, h.pending]
        constructor
        · rintro ⟨other, hother, heq⟩
          exact ⟨other, .inl ⟨hother, rfl⟩, heq⟩
        · rintro ⟨other, hother | rfl, heq⟩
          · exact ⟨other, hother.1, heq⟩
          · exact absurd heq.1 hid
    · rw [hpending, ClientInput.get?_spared h.table.sorted]
      simp only [hinput, false_and, or_false, Option.filter_eq_some_iff, h.pending,
        Bool.not_eq_true']
      constructor
      · rintro ⟨⟨other, hother, rfl, rfl⟩, hspared⟩
        exact ⟨other, ⟨hother, hspared⟩, rfl, rfl⟩
      · rintro ⟨other, ⟨hother, hspared⟩, rfl, rfl⟩
        exact ⟨⟨other, hother, rfl, rfl⟩, hspared⟩

theorem callIds_nodup_of_append {rest : List ClientInput}
    (h : (callIds (inputs ++ rest)).Nodup) : (callIds inputs).Nodup := by
  rw [callIds, List.filterMap_append] at h
  exact h.of_append_left

/-- A client that had no calls follows its inputs. -/
theorem follows_run (hempty : c.pending = []) (hdistinct : (callIds inputs).Nodup) :
    Follows c inputs (c.run inputs).2 := by
  induction inputs using List.reverseRecOn with
  | nil =>
    refine ⟨⟨hempty ▸ KeyMap.sorted_nil, fun _ => hempty⟩, rfl, rfl, fun id function => ?_⟩
    simp [run, hempty, not_isPending_nil]
  | append_singleton inputs input ih =>
    rw [run_concat]
    exact (ih (callIds_nodup_of_append hdistinct)).step hdistinct

/-- How a pending call ends with an input. -/
theorem IsPending.ends (h : IsPending start inputs request) {outcome : Except CallError Value}
    (hend : input.end? timeoutMs request.id request.function = some outcome) :
    Ends timeoutMs start inputs input { id := request.id, outcome } := by
  cases input with
  | frame text =>
    obtain ⟨response, hread, hend⟩ := Option.bind_eq_some_iff.mp hend
    split at hend
    · next hown =>
      cases hend
      unfold outcomeOf
      cases herror : response.error with
      | none => exact .answered h hread hown herror
      | some error => exact .failed h hread hown herror
    · cases hend
  | deadline id =>
    rw [ClientInput.end?] at hend
    split at hend
    · next hown =>
      cases hend
      subst hown
      exact .expired h
    · cases hend
  | closed =>
    cases hend
    exact .closed h
  | stop =>
    cases hend
    exact .stopped h
  | attempt | unreachable | opened | call other => cases hend

/-- What ends with an input is what the inputs before it left pending, or what cannot be sent. -/
theorem Follows.mem_ended_iff (h : Follows c₀ inputs c) {e : CallEnd} :
    e ∈ (c.step input).1 ↔ Ends c₀.rpcTimeoutMs c₀.state inputs input e := by
  rw [mem_ended_step h.table, h.timeout, h.state, ClientInput.refused?_eq_some_iff]
  constructor
  · rintro (⟨request, rfl, hoffline, rfl⟩ | ⟨function, hget, hend⟩)
    · exact .refused request hoffline
    · obtain ⟨id, outcome⟩ := e
      obtain ⟨request, hpending, rfl, rfl⟩ := (h.pending _ _).mp hget
      exact hpending.ends hend
  · intro hends
    have hget : ∀ {request}, IsPending c₀.state inputs request →
        KeyMap.get? c.pending request.id = some request.function :=
      fun hpending => (h.pending _ _).mpr ⟨_, hpending, rfl, rfl⟩
    cases hends with
    | refused request hoffline => exact .inl ⟨request, rfl, hoffline, rfl⟩
    | answered hpending hread hown hsucceeded =>
      exact .inr ⟨_, hget hpending, by simp [ClientInput.end?, hread, hown, outcomeOf, hsucceeded]⟩
    | failed hpending hread hown hfailed =>
      exact .inr ⟨_, hget hpending, by simp [ClientInput.end?, hread, hown, outcomeOf, hfailed]⟩
    | expired hpending => exact .inr ⟨_, hget hpending, if_pos rfl⟩
    | closed hpending => exact .inr ⟨_, hget hpending, rfl⟩
    | stopped hpending => exact .inr ⟨_, hget hpending, rfl⟩

/-! ## Each call once -/

/-- What the ids of calls that have ended and of calls that are pending have to do with the inputs:
every call ends once at most, and what was sent has ended or is pending, and not both. -/
structure Settles (start : ConnectionState) (inputs : List ClientInput)
    (ended pending : List String) : Prop where
  once : ended.Nodup
  apart : ∀ id ∈ ended, id ∈ callIds inputs ∧ id ∉ pending
  made : ∀ id ∈ pending, id ∈ callIds inputs
  sent : ∀ request, IsSent start inputs request → request.id ∈ ended ∨ request.id ∈ pending

namespace Settles

variable {ended pending : List String}

theorem mem_callIds_concat {id : String} (h : id ∈ callIds inputs) (input : ClientInput) :
    id ∈ callIds (inputs ++ [input]) := by
  rw [callIds_concat]
  exact List.mem_append_left _ h

theorem mem_callIds_call (inputs : List ClientInput) (request : RpcRequest) :
    request.id ∈ callIds (inputs ++ [.call request]) := by
  rw [callIds_concat]
  simp [ClientInput.callId?]

/-- A call ends at once, and no call is pending. -/
theorem refuse (h : Settles start inputs ended []) (hnew : request.id ∉ callIds inputs)
    (hoffline : start.afterAll inputs ≠ .connected) :
    Settles start (inputs ++ [.call request]) (ended ++ [request.id]) [] where
  once := List.nodup_append'.mpr ⟨h.once, List.nodup_singleton _,
    List.disjoint_singleton.mpr fun hmem => hnew (h.apart _ hmem).1⟩
  apart id hmem := by
    rcases List.mem_append.mp hmem with hbefore | hnow
    · exact ⟨mem_callIds_concat (h.apart id hbefore).1 _, List.not_mem_nil⟩
    · rw [List.mem_singleton.mp hnow]
      exact ⟨mem_callIds_call inputs request, List.not_mem_nil⟩
  made := nofun
  sent other hsent := by
    rcases isSent_concat.mp hsent with hbefore | ⟨-, hopen⟩
    · exact .inl (List.mem_append_left _ ((h.sent other hbefore).resolve_right List.not_mem_nil))
    · exact absurd hopen hoffline

/-- A call is sent, and is pending then. -/
theorem send (h : Settles start inputs ended pending) (hnew : request.id ∉ callIds inputs)
    {pending' : List String} (hpending : ∀ id, id ∈ pending' ↔ id = request.id ∨ id ∈ pending) :
    Settles start (inputs ++ [.call request]) ended pending' where
  once := h.once
  apart id hmem := by
    refine ⟨mem_callIds_concat (h.apart id hmem).1 _, fun hnow => ?_⟩
    rcases (hpending id).mp hnow with rfl | hbefore
    · exact hnew (h.apart _ hmem).1
    · exact (h.apart id hmem).2 hbefore
  made id hmem := by
    rcases (hpending id).mp hmem with rfl | hbefore
    · exact mem_callIds_call inputs request
    · exact mem_callIds_concat (h.made id hbefore) _
  sent other hsent := by
    rw [hpending]
    rcases isSent_concat.mp hsent with hbefore | ⟨heq, -⟩
    · exact (h.sent other hbefore).imp_right .inr
    · cases heq
      exact .inr (.inl rfl)

/-- An input that is no call ends some of the calls that are pending. -/
theorem meet (h : Settles start inputs ended pending) (hnodup : pending.Nodup)
    (hinput : ∀ request, input ≠ .call request) (ends : String → Bool) :
    Settles start (inputs ++ [input]) (ended ++ pending.filter ends)
      (pending.filter fun id => !ends id) where
  once := List.nodup_append'.mpr ⟨h.once, hnodup.filter _, fun id hbefore hnow =>
    (h.apart id hbefore).2 (List.mem_filter.mp hnow).1⟩
  apart id hmem := by
    rcases List.mem_append.mp hmem with hbefore | hnow
    · obtain ⟨hcall, hapart⟩ := h.apart id hbefore
      exact ⟨mem_callIds_concat hcall _, fun hkey => hapart (List.mem_filter.mp hkey).1⟩
    · obtain ⟨hkey, hends⟩ := List.mem_filter.mp hnow
      exact ⟨mem_callIds_concat (h.made id hkey) _, by simp [hends]⟩
  made id hmem := mem_callIds_concat (h.made id (List.mem_filter.mp hmem).1) _
  sent request hsent := by
    rcases isSent_concat.mp hsent with hbefore | ⟨heq, -⟩
    · rcases h.sent request hbefore with hended | hkey
      · exact .inl (List.mem_append_left _ hended)
      · cases hends : ends request.id with
        | true => exact .inl (List.mem_append_right _ (List.mem_filter.mpr ⟨hkey, hends⟩))
        | false => exact .inr (List.mem_filter.mpr ⟨hkey, by simp [hends]⟩)
    · exact absurd heq (hinput request)

theorem step {ended : List CallEnd} (h : Settles start inputs (ended.map (·.id)) (KeyMap.keys c.pending))
    (htable : c.HasTable) (hstate : c.state = start.afterAll inputs)
    (hdistinct : (callIds (inputs ++ [input])).Nodup) :
    Settles start (inputs ++ [input]) ((ended ++ (c.step input).1).map (·.id))
      (KeyMap.keys (c.step input).2.pending) := by
  rw [List.map_append]
  rcases step_cases htable input with ⟨request, rfl, hoffline, hempty, hended, hpending⟩ |
    ⟨request, rfl, -, hended, hpending⟩ | ⟨hinput, hended, hpending⟩
  · rw [hempty] at h
    rw [hended, hpending]
    exact h.refuse (notMem_callIds_of_call hdistinct) (hstate ▸ hoffline)
  · rw [hended, hpending, List.map_nil, List.append_nil]
    exact h.send (notMem_callIds_of_call hdistinct) fun id => KeyMap.mem_keys_set_iff
  · rw [hended, hpending, ClientInput.ids_ends, ClientInput.spared,
      KeyMap.keys_filter fun id => input.endsCall id,
      KeyMap.keys_filter fun id => !input.endsCall id]
    exact h.meet htable.sorted.nodup hinput _

end Settles

/-- In a run every call that was sent has ended once, or is pending. -/
theorem settles_run (hempty : c.pending = []) (hdistinct : (callIds inputs).Nodup) :
    Settles c.state inputs ((c.run inputs).1.map (·.id))
      (KeyMap.keys (c.run inputs).2.pending) := by
  induction inputs using List.reverseRecOn with
  | nil =>
    rw [run, hempty]
    refine ⟨List.nodup_nil, nofun, nofun, fun request hsent => ?_⟩
    cases hsent.mem_callIds
  | append_singleton inputs input ih =>
    have hearlier := callIds_nodup_of_append hdistinct
    have hfollows := follows_run hempty hearlier
    rw [run_concat]
    exact (ih hearlier).step hfollows.table hfollows.state hdistinct

/-! ## The calls of a client -/

/-- How the calls of a client end, for any inputs in any order, if no id is given twice. Every call
has one outcome at most. The table has the calls that were sent in an open session and have no
outcome, and it is empty when no session is open. A call has the outcome of the first response with
its id that comes while it is pending; it reaches its deadline if that comes first, and is not
connected if there is no session, or the session ends first. A response that no pending call waits
for ends no call and leaves table and replica as they are. -/
theorem calls_end_once (hempty : c.pending = []) (hdistinct : (callIds inputs).Nodup) :
    ((c.run inputs).1.map (·.id)).Nodup ∧
      (∀ id, id ∈ KeyMap.keys (c.run inputs).2.pending ↔
        (∃ request, IsSent c.state inputs request ∧ request.id = id) ∧
          id ∉ (c.run inputs).1.map (·.id)) ∧
      (c.state.afterAll inputs ≠ .connected → (c.run inputs).2.pending = []) ∧
      (∀ e, e ∈ (c.run inputs).1 ↔ ∃ before input rest, inputs = before ++ input :: rest ∧
        Ends c.rpcTimeoutMs c.state before input e) ∧
      ∀ text response, RpcResponse.ofFrame? text = some response →
        response.id ∉ KeyMap.keys (c.run inputs).2.pending →
          ((c.run inputs).2.step (.frame text)).1 = [] ∧
            ((c.run inputs).2.step (.frame text)).2.pending = (c.run inputs).2.pending ∧
            ((c.run inputs).2.step (.frame text)).2.replica = (c.run inputs).2.replica := by
  have hfollows := follows_run hempty hdistinct
  have hsettles := settles_run hempty hdistinct
  refine ⟨hsettles.once, fun id => ?_, fun hoffline => ?_, fun e => ?_,
    fun text response hread hunknown => step_frame_of_unknown _ hread hunknown⟩
  · constructor
    · intro hkey
      obtain ⟨function, hget⟩ := KeyMap.mem_keys_iff.mp hkey
      obtain ⟨request, hpending, hid, -⟩ := (hfollows.pending id function).mp hget
      exact ⟨⟨request, hpending.isSent, hid⟩, fun hended => (hsettles.apart id hended).2 hkey⟩
    · rintro ⟨⟨request, hsent, rfl⟩, hended⟩
      exact (hsettles.sent request hsent).resolve_left hended
  · exact hfollows.table.idle (hfollows.state ▸ hoffline)
  · rw [mem_run_iff]
    constructor
    · rintro ⟨before, input, rest, rfl, hmem⟩
      exact ⟨before, input, rest, rfl,
        (follows_run hempty (callIds_nodup_of_append hdistinct)).mem_ended_iff.mp hmem⟩
    · rintro ⟨before, input, rest, rfl, hends⟩
      exact ⟨before, input, rest, rfl,
        (follows_run hempty (callIds_nodup_of_append hdistinct)).mem_ended_iff.mpr hends⟩

/-- Three calls are sent. The first is answered twice, the second reaches its deadline and the third
is pending when the session ends; a fourth comes too late. -/
theorem exists_calls_ended : ∃ inputs,
    ((run {} inputs).1.map (·.id)).Nodup ∧ (run {} inputs).2.pending = [] ∧
    { id := "1", outcome := .ok .null } ∈ (run {} inputs).1 ∧
    { id := "2", outcome := .error (.timeout "f" 30000) } ∈ (run {} inputs).1 ∧
    { id := "3", outcome := .error .notConnected } ∈ (run {} inputs).1 ∧
    { id := "4", outcome := .error .notConnected } ∈ (run {} inputs).1 := by
  let request (id : String) : RpcRequest := { id, function := "f", args := [] }
  let answer : ClientInput := .frame (Message.rpcResponse { id := "1" }).encode
  have hanswer : RpcResponse.ofFrame? (Message.rpcResponse { id := "1" }).encode =
      some { id := "1" } := RpcResponse.ofFrame?_encode nofun
  let sent : List ClientInput :=
    [.attempt, .opened, .call (request "1"), .call (request "2"), .call (request "3")]
  let inputs := sent ++ [answer, answer, .deadline "2", .closed, .call (request "4")]
  have hdistinct : (callIds inputs).Nodup := by decide
  obtain ⟨honce, -, hidle, hends, -⟩ := calls_end_once (c := {}) rfl hdistinct
  -- Each call is followed from its sending to what ends it.
  have hfirst : IsPending .connecting sent (request "1") := by
    refine ⟨[.attempt, .opened], [.call (request "2"), .call (request "3")], rfl, rfl, ?_⟩
    simp [ClientInput.endsCall]
  have hsecond : IsPending .connecting (sent ++ [answer, answer]) (request "2") := by
    refine ⟨[.attempt, .opened, .call (request "1")], [.call (request "3"), answer, answer], rfl,
      rfl, ?_⟩
    simp [request, answer, hanswer, ClientInput.endsCall]
  have hthird : IsPending .connecting (sent ++ [answer, answer, .deadline "2"]) (request "3") := by
    refine ⟨[.attempt, .opened, .call (request "1"), .call (request "2")],
      [answer, answer, .deadline "2"], rfl, rfl, ?_⟩
    simp [request, answer, hanswer, ClientInput.endsCall]
  refine ⟨inputs, honce, hidle (by decide), (hends _).mpr ?_, (hends _).mpr ?_, (hends _).mpr ?_,
    (hends _).mpr ?_⟩
  · exact ⟨sent, answer, _, rfl, .answered hfirst hanswer rfl rfl⟩
  · exact ⟨sent ++ [answer, answer], .deadline "2", _, rfl, .expired hsecond⟩
  · exact ⟨sent ++ [answer, answer, .deadline "2"], .closed, _, rfl, .closed hthird⟩
  · exact ⟨sent ++ [answer, answer, .deadline "2", .closed], .call (request "4"), [], rfl,
      .refused (request "4") (by decide)⟩

end Client

end LiveDoc
