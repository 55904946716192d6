import LiveDoc.Proofs.Fanout.Queues

/-!
# LiveDoc — whom the pump knows

A client comes to the pump with the command that attaches it, from there into the table, and from
the table into the rounds whose frames it gets. The pump learns of clients in no other way: nothing
but the submission of such a command makes it know anybody new.

* `Pump.Knows` — an attachment waits, is in the table, or is to get a frame.
* `Pump.Knows.submit` — how the pump learns of clients.
* `Pump.Knows.start`, `Pump.Knows.serve`, `Pump.Knows.finish` — its own steps teach it nothing.
-/

namespace LiveDoc.Pump

variable {φ : Type} {p p' : Pump φ} {a b : Attachment}

/-- The pump knows of a client and its queue. -/
inductive Knows (p : Pump φ) (a : Attachment) : Prop where
  -- It is to come into the table.
  | awaited (refresh : φ) (mem : .attach a.info a.queue refresh ∈ p.commands)
  | listed (mem : a ∈ p.targets)
  -- A frame is on its way to it.
  | served (r : Round φ) (underway : p.round = some r) (mem : a ∈ r.targets)

/-! ## How many queues there are -/

section Length

variable (p)

@[simp] theorem length_discard (command : PumpCommand φ) :
    (p.discard command).queues.length = p.queues.length := by
  cases command with
  | attach info queue refresh => exact p.length_updateQueue queue Queue.release
  | detach _ | broadcast _ | unicast _ _ | shutdown => rfl

@[simp] theorem length_submit (command : PumpCommand φ) :
    (p.submit command).queues.length = p.queues.length := by
  unfold submit
  split
  · rfl
  · exact p.length_discard command

@[simp] theorem length_start (command : PumpCommand φ) :
    (p.start command).queues.length = p.queues.length := by
  unfold start
  split
  · exact p.length_discard command
  · cases command with
    | attach info queue refresh => exact p.length_detach info.id
    | detach client => exact p.length_detach client
    | broadcast frame => rfl
    | unicast client frame => dsimp only; split <;> rfl
    | shutdown => exact p.length_foldl_updateQueue _ _

/-- A delivery changes one queue. -/
theorem frame_deliver (n : Nat) (frame : φ) :
    (p.deliver n frame).2.commands = p.commands ∧ (p.deliver n frame).2.table = p.table ∧
      (p.deliver n frame).2.queues.length = p.queues.length := by
  unfold deliver
  split
  · exact ⟨rfl, rfl, List.length_set⟩
  · exact ⟨rfl, rfl, rfl⟩

@[simp] theorem length_serve (a : Attachment) :
    (p.serve a).queues.length = p.queues.length := by
  unfold serve
  split
  · exact (p.frame_deliver a.queue _).2.2
  · rfl

@[simp] theorem length_read (n : Nat) : (p.read n).2.queues.length = p.queues.length := by
  unfold read
  split
  · exact p.length_updateQueue n _
  · rfl

theorem length_foldl {f : Pump φ → Attachment → Pump φ}
    (hf : ∀ q b, (f q b).queues.length = q.queues.length) (leaving : List Attachment) :
    (leaving.foldl f p).queues.length = p.queues.length := by
  induction leaving generalizing p with
  | nil => rfl
  | cons b rest ih => exact (ih _).trans (hf p b)

@[simp] theorem length_finish : p.finish.queues.length = p.queues.length := by
  unfold finish
  split
  · dsimp only
    split
    · exact length_foldl _ (fun q b => q.length_detach b.info.id) _
    · exact length_foldl (f := evict) _ (fun q b => q.length_updateQueue b.queue Queue.evict) _
  · rfl

end Length

/-! ## Whom it knows -/

namespace Knows

/-- A pump that has no commands and no table beyond those of another one. -/
theorem mono (h : p'.Knows a) (hcommands : p'.commands ⊆ p.commands)
    (htable : p'.table ⊆ p.table)
    (hround : ∀ r, p'.round = some r → a ∈ r.targets → p.Knows a) : p.Knows a := by
  cases h with
  | awaited refresh mem => exact .awaited refresh (hcommands mem)
  | listed mem => exact .listed (List.map_subset _ htable mem)
  | served r underway mem => exact hround r underway mem

/-- What touches queues only. -/
theorem congr (h : p'.Knows a) (hcommands : p'.commands = p.commands)
    (htable : p'.table = p.table) (hround : p'.round = p.round) : p.Knows a := by
  refine h.mono ?_ ?_ fun r underway mem => ?_
  · exact hcommands ▸ List.Subset.refl _
  · exact htable ▸ List.Subset.refl _
  · rw [hround] at underway
    exact .served r underway mem

theorem detach {client : String} (h : (p.detach client).Knows a) : p.Knows a := by
  refine h.mono ?_ ?_ fun r underway mem => ?_
  · exact commands_detach p client ▸ List.Subset.refl _
  · rw [table_detach]
    exact List.filter_sublist.subset
  · rw [round_detach] at underway
    exact .served r underway mem

theorem evict (h : (p.evict b).Knows a) : p.Knows a :=
  h.mono (List.Subset.refl _) List.filter_sublist.subset fun r underway mem =>
    .served r underway mem

theorem openQueue {capacity : Nat} (h : (p.openQueue capacity).2.Knows a) : p.Knows a :=
  h.congr rfl rfl rfl

/-- A pump learns of a client by the command that attaches it. -/
theorem submit {command : PumpCommand φ} (h : (p.submit command).Knows a) :
    p.Knows a ∨ ∃ refresh, command = .attach a.info a.queue refresh := by
  unfold Pump.submit at h
  split at h
  · cases h with
    | awaited refresh mem =>
      rcases List.mem_append.mp mem with hold | hnew
      · exact .inl (.awaited refresh hold)
      · exact .inr ⟨refresh, (List.mem_singleton.mp hnew).symm⟩
    | listed mem => exact .inl (.listed mem)
    | served r underway mem => exact .inl (.served r underway mem)
  · cases command <;> exact .inl (h.congr rfl rfl rfl)

/-! ## Steps of the pump -/

/-- Whom the next command attaches was awaited. -/
theorem of_next {info : ClientInfo} {queue : Nat} {refresh : φ} {rest : List (PumpCommand φ)}
    (next : p.commands = .attach info queue refresh :: rest) : p.Knows { info, queue } :=
  .awaited refresh (by rw [next]; exact List.mem_cons_self)

/-- The next command begins. -/
theorem start {command : PumpCommand φ} {rest : List (PumpCommand φ)}
    (next : p.commands = command :: rest)
    (h : (({ p with commands := rest } : Pump φ).start command).Knows a) : p.Knows a := by
  let q : Pump φ := { p with commands := rest }
  have hq : q.Knows a → p.Knows a := fun h => by
    refine h.mono ?_ (List.Subset.refl _) fun r underway mem => .served r underway mem
    rw [next]
    exact List.subset_cons_self command rest
  unfold Pump.start at h
  split at h
  · refine hq ?_
    cases command <;> exact h.congr rfl rfl rfl
  · cases command with
    | attach info queue refresh =>
      cases h with
      | awaited refresh' mem =>
        have hleft : (q.detach info.id).Knows a := .awaited refresh' mem
        exact hq hleft.detach
      | listed mem =>
        obtain ⟨entry, hentry, rfl⟩ := List.mem_map.mp mem
        rcases KeyMap.mem_set hentry with rfl | hold
        · exact of_next next
        · have hleft : (q.detach info.id).Knows entry.2 := .listed (List.mem_map_of_mem hold)
          exact hq hleft.detach
      | served r underway mem =>
        cases underway
        rw [List.mem_singleton.mp mem]
        exact of_next next
    | detach client => exact hq (detach h)
    | broadcast frame =>
      refine hq (h.mono (List.Subset.refl _) (List.Subset.refl _) fun r underway mem => ?_)
      cases underway
      exact .listed mem
    | unicast client frame =>
      dsimp only at h
      split at h
      · next b hget =>
        refine hq (h.mono (List.Subset.refl _) (List.Subset.refl _) fun r underway mem => ?_)
        cases underway
        rw [List.mem_singleton.mp mem]
        exact .listed (List.mem_map_of_mem (KeyMap.mem_of_get? hget))
      · exact hq (h.congr rfl rfl rfl)
    | shutdown =>
      refine hq (h.mono ?_ (List.nil_subset _) fun r underway mem => ?_)
      · exact commands_foldl_updateQueue q .. ▸ List.Subset.refl _
      · rw [round_foldl_updateQueue] at underway
        exact .served r underway mem

/-- A delivery is decided. -/
theorem serve (h : (p.serve b).Knows a) : p.Knows a := by
  unfold Pump.serve at h
  split at h
  · next r hround =>
    obtain ⟨hcommands, htable, -⟩ := p.frame_deliver b.queue r.frame
    refine h.mono ?_ ?_ fun r' underway mem => ?_
    · exact hcommands ▸ List.Subset.refl _
    · exact htable ▸ List.Subset.refl _
    · cases underway
      exact .served r hround (List.mem_of_mem_erase mem)
  · exact h

theorem foldl {f : Pump φ → Attachment → Pump φ} (hf : ∀ q b, (f q b).Knows a → q.Knows a)
    (leaving : List Attachment) (h : (leaving.foldl f p).Knows a) : p.Knows a := by
  induction leaving generalizing p with
  | nil => exact h
  | cons b rest ih => exact hf p b (ih h)

/-- All deliveries of a command are decided. -/
theorem finish (h : p.finish.Knows a) : p.Knows a := by
  unfold Pump.finish at h
  split at h
  · next r hround =>
    have hdone : ({ p with round := none } : Pump φ).Knows a := by
      dsimp only at h
      split at h
      · exact foldl (fun _ _ => detach) r.failed h
      · exact foldl (fun _ _ => evict) r.failed h
    exact hdone.mono (List.Subset.refl _) (List.Subset.refl _) nofun
  · exact h

theorem read {n : Nat} (h : (p.read n).2.Knows a) : p.Knows a := by
  unfold Pump.read at h
  split at h
  · exact h.congr rfl rfl rfl
  · exact h

end Knows

end LiveDoc.Pump
