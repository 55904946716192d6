import LiveDoc.Model
import Mathlib.Data.List.Induction

/-!
# LiveDoc — the history of a model

Whoever holds a model registers listeners, submits batches, and reads it. Here listeners are known
by the number of those that registered before them. Of all that happens to a model only the batches
that it accepts, those that are neither empty nor refused, leave a mark on its document, and each of
them is told to every listener. So the calls that a listener received are the history of the
document since it registered.

* `Model.operate`, `Model.accepted?` — one operation, and the batch that was accepted in it.
* `Model.foldlM_accepted` — the accepted batches, applied in turn, make the document.
* `Model.callsOf_notices` — a listener is called with the accepted batches, in their order.
* `Model.run_history` — what a whole run did, for every listener, batch, count and flag.
-/

namespace LiveDoc

open Json

namespace Model

/-- What the holder of a model does with it. -/
inductive Operation where
  | listen
  | mutate (edits : List Edit)
  | takeDirty
  | snapshot
  | metrics
  deriving DecidableEq

/-- The model after an operation, and the calls that were made. -/
def operate (m : Model Nat) : Operation → Model Nat × List (Notice Nat)
  | .listen => (m.addListener m.listeners.length, [])
  | .mutate edits =>
    match m.mutate edits with
    | .ok result => result
    | .error _ => (m, [])
  | .takeDirty => (m.takeDirty.2, [])
  | .snapshot | .metrics => (m, [])

/-- The batch that the model accepts in the operation, if it accepts one. -/
def accepted? (m : Model Nat) : Operation → Option (List Edit)
  | .mutate edits =>
    match m.mutate edits with
    | .ok _ => if edits = [] then none else some edits
    | .error _ => none
  | _ => none

/-- The model after a run. -/
def after (m : Model Nat) (ops : List Operation) : Model Nat :=
  ops.foldl (fun m op => (m.operate op).1) m

/-- The calls that were made in a run. -/
def notices (m : Model Nat) : List Operation → List (Notice Nat)
  | [] => []
  | op :: rest => (m.operate op).2 ++ (m.operate op).1.notices rest

/-- The batches that were accepted in a run. -/
def accepted (m : Model Nat) : List Operation → List (List Edit)
  | [] => []
  | op :: rest => (m.accepted? op).toList ++ (m.operate op).1.accepted rest

/-- What a listener was called with. -/
def callsOf (number : Nat) (calls : List (Notice Nat)) : List (List Edit) :=
  (calls.filter (·.listener = number)).map (·.edits)

variable {m : Model Nat} {op : Operation} {ops : List Operation} {batch : List Edit} {n : Nat}

/-! ## One operation -/

/-- A batch that is accepted becomes part of the document, is counted and is told to all. -/
theorem operate_of_accepted (h : m.accepted? op = some batch) :
    ∃ document, applyBatch m.document batch = .ok document ∧
      m.operate op =
        ({ m with document, mutationCount := m.mutationCount + 1, dirty := true },
          m.listeners.map fun listener => { listener, edits := batch }) := by
  cases op with
  | mutate edits =>
    cases happly : applyBatch m.document edits with
    | error e =>
      cases edits <;>
        simp [accepted?, Model.mutate, happly, bind, Except.bind] at h
    | ok document =>
      cases edits with
      | nil => simp [accepted?, Model.mutate] at h
      | cons edit rest =>
        simp only [accepted?, Model.mutate, happly, List.isEmpty_cons, bind, Except.bind, pure,
          Except.pure, Bool.false_eq_true, if_false, reduceCtorEq, Option.some.injEq] at h
        subst h
        exact ⟨document, happly, by
          simp [operate, Model.mutate, happly, bind, Except.bind, pure, Except.pure]⟩
  | _ => simp [accepted?] at h

/-- A batch that is not accepted, because it is empty or refused, leaves no mark at all. -/
theorem operate_mutate_of_none {edits : List Edit} (h : m.accepted? (.mutate edits) = none) :
    m.operate (.mutate edits) = (m, []) := by
  cases hmutate : m.mutate edits with
  | error e => simp [operate, hmutate]
  | ok result =>
    obtain rfl : edits = [] := by simpa [accepted?, hmutate] using h
    obtain rfl : (m, []) = result := by simpa [Model.mutate] using hmutate
    simp [operate, hmutate]

/-- Whatever else is done calls nobody, and leaves the document and the count as they are. -/
theorem operate_of_none (h : m.accepted? op = none) :
    (m.operate op).1.document = m.document ∧ (m.operate op).1.mutationCount = m.mutationCount ∧
      (m.operate op).2 = [] := by
  cases op with
  | mutate edits => simp [operate_mutate_of_none h]
  | _ => exact ⟨rfl, rfl, rfl⟩

/-- The flag is set by a batch that is accepted and cleared when it is taken. -/
theorem dirty_operate (m : Model Nat) (op : Operation) :
    (m.operate op).1.dirty = ((m.accepted? op).isSome || m.dirty && op ≠ .takeDirty) := by
  cases h : m.accepted? op with
  | some batch =>
    obtain ⟨document, -, hoperate⟩ := operate_of_accepted h
    simp [hoperate]
  | none =>
    cases op with
    | mutate edits => simp [operate_mutate_of_none h]
    | _ => simp [operate, addListener, Model.takeDirty]

/-- Only a registration adds a listener. -/
theorem listeners_operate (m : Model Nat) (op : Operation) :
    (m.operate op).1.listeners =
      if op = .listen then m.listeners ++ [m.listeners.length] else m.listeners := by
  cases op with
  | mutate edits =>
    cases h : m.accepted? (.mutate edits) with
    | some batch =>
      obtain ⟨document, -, hoperate⟩ := operate_of_accepted h
      simp [hoperate]
    | none => simp [operate_mutate_of_none h]
  | _ => rfl

/-- The calls of an operation: the accepted batch, to every listener in turn. -/
theorem notices_operate (m : Model Nat) (op : Operation) :
    (m.operate op).2 =
      (m.accepted? op).toList.flatMap fun edits =>
        m.listeners.map fun listener => { listener, edits } := by
  cases h : m.accepted? op with
  | some batch =>
    obtain ⟨document, -, hoperate⟩ := operate_of_accepted h
    simp [hoperate]
  | none => simp [operate_of_none h]

/-! ## Runs -/

@[simp] theorem after_nil (m : Model Nat) : m.after [] = m := rfl

@[simp] theorem after_cons (m : Model Nat) (op : Operation) (ops : List Operation) :
    m.after (op :: ops) = (m.operate op).1.after ops := rfl

theorem after_append (m : Model Nat) (before later : List Operation) :
    m.after (before ++ later) = (m.after before).after later := List.foldl_append

theorem notices_append (m : Model Nat) (before later : List Operation) :
    m.notices (before ++ later) = m.notices before ++ (m.after before).notices later := by
  induction before generalizing m with
  | nil => rfl
  | cons op before ih => simp [notices, ih]

theorem accepted_append (m : Model Nat) (before later : List Operation) :
    m.accepted (before ++ later) = m.accepted before ++ (m.after before).accepted later := by
  induction before generalizing m with
  | nil => rfl
  | cons op before ih => simp [accepted, ih]

/-- The accepted batches, applied in turn to the document of the start, make the document of the
end, and none of them is refused. -/
theorem foldlM_accepted (m : Model Nat) (ops : List Operation) :
    (m.accepted ops).foldlM applyBatch m.document = .ok (m.after ops).document := by
  induction ops generalizing m with
  | nil => rfl
  | cons op ops ih =>
    rw [accepted, List.foldlM_append, after_cons]
    cases h : m.accepted? op with
    | some batch =>
      obtain ⟨document, happly, hoperate⟩ := operate_of_accepted h
      have hrest := ih (m.operate op).1
      rw [hoperate] at hrest ⊢
      simpa [happly, bind, Except.bind, pure, Except.pure] using hrest
    | none =>
      rw [← (operate_of_none h).1]
      exact ih _

theorem mutationCount_after (m : Model Nat) (ops : List Operation) :
    (m.after ops).mutationCount = m.mutationCount + (m.accepted ops).length := by
  induction ops generalizing m with
  | nil => rfl
  | cons op ops ih =>
    rw [after_cons, ih, accepted, List.length_append]
    cases h : m.accepted? op with
    | some batch =>
      obtain ⟨document, -, hoperate⟩ := operate_of_accepted h
      simp [hoperate]
      omega
    | none => simp [(operate_of_none h).2.1]

theorem after_concat (m : Model Nat) (ops : List Operation) (op : Operation) :
    m.after (ops ++ [op]) = ((m.after ops).operate op).1 := after_append m ops [op]

theorem accepted_concat (m : Model Nat) (ops : List Operation) (op : Operation) :
    m.accepted (ops ++ [op]) = m.accepted ops ++ ((m.after ops).accepted? op).toList := by
  simp [accepted_append, accepted]

/-- Some batch was accepted since the flag was last taken. -/
def AcceptedSince (m : Model Nat) (ops : List Operation) : Prop :=
  ∃ before since, ops = before ++ since ∧ .takeDirty ∉ since ∧
    (m.after before).accepted since ≠ []

theorem acceptedSince_concat (m : Model Nat) (ops : List Operation) (op : Operation) :
    m.AcceptedSince (ops ++ [op]) ↔
      op ≠ .takeDirty ∧ (((m.after ops).accepted? op).isSome ∨ m.AcceptedSince ops) := by
  constructor
  · rintro ⟨before, since, hops, htaken, haccepted⟩
    rcases List.eq_nil_or_concat since with rfl | ⟨since, last, rfl⟩
    · simp [accepted] at haccepted
    · rw [List.concat_eq_append, ← List.append_assoc] at hops
      obtain ⟨rfl, hlast⟩ := List.append_inj' hops rfl
      obtain rfl := List.singleton_inj.mp hlast
      simp only [List.concat_eq_append, List.mem_append, List.mem_singleton, not_or] at htaken
      rw [List.concat_eq_append, accepted_concat, ← after_append] at haccepted
      refine ⟨Ne.symm htaken.2, ?_⟩
      cases h : (m.after (before ++ since)).accepted? op with
      | some batch => exact .inl rfl
      | none => exact .inr ⟨before, since, rfl, htaken.1, by simpa [h] using haccepted⟩
  · rintro ⟨htaken, haccepted | ⟨before, since, rfl, hsince, haccepted⟩⟩
    · obtain ⟨batch, hbatch⟩ := Option.isSome_iff_exists.mp haccepted
      exact ⟨ops, [op], rfl, by simpa using Ne.symm htaken, by simp [accepted, hbatch]⟩
    · refine ⟨before, since ++ [op], List.append_assoc .., ?_, ?_⟩
      · simp [hsince, Ne.symm htaken]
      · simp [accepted_concat, haccepted]

/-- The flag of a model that started with none is set exactly if a batch was accepted since it was
last taken. -/
theorem dirty_after (hclean : m.dirty = false) (ops : List Operation) :
    (m.after ops).dirty ↔ m.AcceptedSince ops := by
  induction ops using List.reverseRecOn with
  | nil => simp [hclean, AcceptedSince, accepted]
  | append_singleton ops op ih =>
    rw [after_concat, dirty_operate, acceptedSince_concat, ← ih]
    cases h : (m.after ops).accepted? op with
    | none => simp [and_comm]
    | some batch =>
      have hop : op ≠ .takeDirty := by
        rintro rfl
        cases h
      simp [hop]

/-! ## Listeners -/

/-- Every listener is known by its number. -/
def Numbered (m : Model Nat) : Prop := m.listeners = List.range m.listeners.length

theorem Numbered.operate (h : m.Numbered) (op : Operation) : (m.operate op).1.Numbered := by
  unfold Numbered at *
  rw [listeners_operate]
  split
  · rw [List.length_append, List.length_singleton, List.range_succ, ← h]
  · exact h

theorem Numbered.after (h : m.Numbered) (ops : List Operation) : (m.after ops).Numbered := by
  induction ops generalizing m with
  | nil => exact h
  | cons op ops ih => exact ih (h.operate op)

theorem length_listeners_operate (m : Model Nat) (op : Operation) :
    (m.operate op).1.listeners.length = m.listeners.length + [op].count .listen := by
  rw [listeners_operate]
  by_cases h : op = .listen <;> simp [h]

theorem length_listeners_after (m : Model Nat) (ops : List Operation) :
    (m.after ops).listeners.length = m.listeners.length + ops.count .listen := by
  induction ops generalizing m with
  | nil => rfl
  | cons op ops ih =>
    rw [after_cons, ih, length_listeners_operate, Nat.add_assoc, ← List.count_append]
    rfl

@[simp] theorem callsOf_append (number : Nat) (a b : List (Notice Nat)) :
    callsOf number (a ++ b) = callsOf number a ++ callsOf number b := by
  simp [callsOf]

/-- Of calls to all listeners one is for each. -/
theorem callsOf_range (number count : Nat) (batch : List Edit) :
    callsOf number ((List.range count).map fun listener => { listener, edits := batch }) =
      if number < count then [batch] else [] := by
  induction count with
  | zero => rfl
  | succ count ih =>
    rw [List.range_succ, List.map_append, callsOf_append, ih]
    rcases Nat.lt_trichotomy number count with h | rfl | h
    · simp [callsOf, h, Nat.lt_succ_of_lt h, Nat.ne_of_gt h]
    · simp [callsOf]
    · simp [callsOf, Nat.not_lt_of_gt h, Nat.ne_of_lt h, Nat.not_lt.mpr (Nat.succ_le_of_lt h)]

/-- What one operation says to a listener: nothing before it registered, and the accepted batch
once it has. -/
theorem callsOf_operate (h : m.Numbered) (number : Nat) (op : Operation) :
    callsOf number (m.operate op).2 =
      if number < m.listeners.length then (m.accepted? op).toList else [] := by
  rw [notices_operate, h]
  cases m.accepted? op with
  | none => simp [callsOf]
  | some batch => simpa using callsOf_range number m.listeners.length batch

/-- A listener that is registered is called with the accepted batches, in their order. -/
theorem callsOf_notices (h : m.Numbered) (hn : n < m.listeners.length) (ops : List Operation) :
    callsOf n (m.notices ops) = m.accepted ops := by
  induction ops generalizing m with
  | nil => rfl
  | cons op ops ih =>
    have hlater : n < (m.operate op).1.listeners.length := by
      rw [length_listeners_operate]
      omega
    rw [notices, accepted, callsOf_append, callsOf_operate h, if_pos hn, ih (h.operate op) hlater]

/-- Nobody is called before it registered. -/
theorem callsOf_notices_of_le (h : m.Numbered) {ops : List Operation}
    (hn : (m.after ops).listeners.length ≤ n) : callsOf n (m.notices ops) = [] := by
  induction ops generalizing m with
  | nil => rfl
  | cons op ops ih =>
    have hfirst : ¬ n < m.listeners.length := by
      have hlength := length_listeners_after m (op :: ops)
      omega
    rw [notices, callsOf_append, callsOf_operate h, if_neg hfirst, ih (h.operate op) hn]
    rfl

/-! ## Whole runs -/

/-- What a run did to a model that started with a document. Every listener was called with the
batches accepted since it registered, once with each and in their order, and they turn the document
of that point into the present one. Every batch that was accepted was told to all listeners in the
order in which they registered; any other left no mark. The batches are counted, and the flag tells
whether there was one since it was last taken. -/
theorem run_history (document : Document) (ops : List Operation) :
    let start : Model Nat := ofDocument document
    (∀ before later, ops = before ++ .listen :: later →
      let joined := start.after (before ++ [.listen])
      callsOf (before.count .listen) (start.notices ops) = joined.accepted later ∧
      (joined.accepted later).foldlM applyBatch joined.document = .ok (start.after ops).document) ∧
    (∀ before edits later, ops = before ++ .mutate edits :: later →
      let here := start.after before
      (edits ≠ [] → ∀ next calls, here.mutate edits = .ok (next, calls) →
        calls = (List.range (before.count .listen)).map fun listener => { listener, edits }) ∧
      (edits = [] ∨ (∃ e, here.mutate edits = .error e) →
        here.operate (.mutate edits) = (here, []))) ∧
    (start.after ops).metrics.mutationCount = (start.accepted ops).length ∧
    ((start.after ops).metrics.dirty ↔ start.AcceptedSince ops) := by
  intro start
  have hstart : start.Numbered := rfl
  have hnobody : start.listeners.length = 0 := rfl
  refine ⟨fun before later hops => ⟨?_, ?_⟩, fun before edits later hops => ⟨?_, ?_⟩, ?_, ?_⟩
  · have hbefore : callsOf (before.count .listen) (start.notices before) = [] :=
      callsOf_notices_of_le hstart (by rw [length_listeners_after]; omega)
    have hregistered : callsOf (before.count .listen)
        ((start.after before).notices (.listen :: later)) =
          (start.after (before ++ [.listen])).accepted later := by
      rw [notices, callsOf_append, after_append]
      refine callsOf_notices ((hstart.after before).operate .listen) ?_ later
      rw [length_listeners_operate, length_listeners_after, List.count_singleton_self]
      omega
    rw [hops, notices_append, callsOf_append, hbefore, hregistered, List.nil_append]
  · rw [hops, after_append start before (.listen :: later), after_cons, ← after_concat]
    exact foldlM_accepted _ _
  · intro hne next calls hmutate
    have haccepted : (start.after before).accepted? (.mutate edits) = some edits := by
      simp [accepted?, hmutate, hne]
    have hoperate : (start.after before).operate (.mutate edits) = (next, calls) := by
      simp [operate, hmutate]
    have hcalls := notices_operate (start.after before) (.mutate edits)
    rw [haccepted, hoperate, hstart.after before, length_listeners_after, hnobody] at hcalls
    simpa using hcalls
  · intro hnone
    refine operate_mutate_of_none ?_
    rcases hnone with rfl | ⟨e, herror⟩
    · rfl
    · simp [accepted?, herror]
  · have hcount := mutationCount_after start ops
    rwa [show start.mutationCount = 0 from rfl, Nat.zero_add] at hcount
  · exact dirty_after rfl ops

/-- A listener registers between two batches that are accepted, and is called with the second. The
third batch lacks a path: it is refused, and leaves the document, the count and the flag alone. -/
theorem run_history_three_batches :
    let first : List Edit := [.set (some "a") (.bool true)]
    let second : List Edit := [.set (some "b") .null]
    let refused : List Edit := [.set none .null]
    let ops : List Operation := [.mutate first, .listen, .mutate second, .mutate refused]
    let start : Model Nat := ofDocument []
    start.accepted ops = [first, second] ∧ callsOf 0 (start.notices ops) = [second] ∧
      (start.after ops).document = [("a", .bool true), ("b", .null)] ∧
      (start.after ops).metrics.mutationCount = 2 ∧ (start.after ops).metrics.dirty = true := by
  intro first second refused ops start
  obtain ⟨hlisteners, -, hcount, hdirty⟩ := run_history [] ops
  obtain ⟨hcalls, -⟩ := hlisteners [.mutate first] [.mutate second, .mutate refused] rfl
  have hsince : start.AcceptedSince ops := by
    refine ⟨[], ops, rfl, by simp [ops], ?_⟩
    show [first, second] ≠ []
    simp
  exact ⟨rfl, hcalls, rfl, hcount, hdirty.mpr hsince⟩

end Model

end LiveDoc
