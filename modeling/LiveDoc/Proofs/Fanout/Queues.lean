import LiveDoc.Fanout.Pump
import LiveDoc.Proofs.SortedMap

/-!
# LiveDoc — what the pump does to queues

The pump touches one queue at a time, and of a queue three things matter to its reader: the frames
that wait, whether the order to close is due, and whether there is a reader at all.

* `Queue.frames_deliver` — a delivery adds the frame if it is sent, and nothing otherwise.
* `Queue.deliver_eq_sent_iff`, `Queue.deliver_eq_closed_iff` — how deliveries end.
* `Pump.queue_updateQueue`, `Pump.queue_deliver` — the queues after one of them was touched.
-/

namespace LiveDoc

variable {φ : Type}

/-! ## One queue -/

namespace Queue

/-- There is a reader, and room for a frame. -/
def takes (q : Queue φ) : Bool := q.hasReader && q.hasRoom

/-- There is a reader, but no room for a frame. -/
def lags (q : Queue φ) : Bool := q.hasReader && !q.hasRoom

variable (q : Queue φ) (frame : φ)

/-- How a delivery ends. -/
theorem deliver_fst :
    (q.deliver frame).1 = if q.takes then .sent else if q.lags then .lagging else .closed := by
  unfold deliver takes lags
  cases hreader : q.hasReader <;> cases hroom : q.hasRoom <;> simp

/-- A delivery is closed exactly where no reader is left, however full the queue. -/
theorem deliver_eq_closed_iff : (q.deliver frame).1 = .closed ↔ q.hasReader = false := by
  unfold deliver
  cases q.hasReader <;> cases q.hasRoom <;> simp

/-- A frame gets into a queue exactly where there is a reader and room. -/
theorem deliver_eq_sent_iff :
    (q.deliver frame).1 = .sent ↔ q.hasReader = true ∧ q.hasRoom = true := by
  unfold deliver
  cases q.hasReader <;> cases q.hasRoom <;> simp

/-- A queue with room does not lag. -/
theorem deliver_ne_lagging (h : q.hasRoom = true) : (q.deliver frame).1 ≠ .lagging := by
  unfold deliver
  cases q.hasReader <;> simp [h]

/-- A delivery adds the frame if it is sent, and nothing otherwise. -/
theorem frames_deliver :
    (q.deliver frame).2.frames =
      q.frames ++ if (q.deliver frame).1 = .sent then [frame] else [] := by
  unfold deliver frames
  cases q.hasReader <;> cases q.hasRoom <;> simp

/-- A delivery does not take the reader away. -/
@[simp] theorem hasReader_deliver : (q.deliver frame).2.hasReader = q.hasReader := by
  unfold deliver
  split
  · rfl
  · split <;> rfl

/-- A delivery does not bring the order to close: eviction is a step of its own. -/
@[simp] theorem closing_deliver : (q.deliver frame).2.closing = q.closing := by
  unfold deliver
  split
  · rfl
  · split <;> rfl

@[simp] theorem capacity_deliver : (q.deliver frame).2.capacity = q.capacity := by
  unfold deliver
  split
  · rfl
  · split <;> rfl

/-- A queue that loses its writer keeps what waits. -/
@[simp] theorem frames_release : q.release.frames = q.frames := rfl

/-- The order to close overtakes what waits, and takes nothing of it away. -/
@[simp] theorem frames_evict : q.evict.frames = q.frames := rfl

/-- With the reader goes all that waits. -/
@[simp] theorem frames_hangUp : q.hangUp.frames = [] := rfl

/-- A shutdown puts no frame in and takes none out; only orders to close are added. -/
@[simp] theorem frames_shutDown : q.shutDown.frames = q.frames := by
  unfold shutDown frames
  cases q.hasReader && q.hasRoom <;> simp

@[simp] theorem frames_ofCapacity (capacity : Nat) : (ofCapacity capacity : Queue φ).frames = [] :=
  rfl

/-- To read is not to hang up. -/
@[simp] theorem hasReader_read : q.read.2.hasReader = q.hasReader := by
  unfold read
  split
  · rfl
  · split <;> rfl

@[simp] theorem capacity_read : q.read.2.capacity = q.capacity := by
  unfold read
  split
  · rfl
  · split <;> rfl

/-- Reading an empty queue leaves it empty, whether or not it was told to close. -/
theorem waiting_read_of_nil (h : q.waiting = []) : q.read.2.waiting = [] := by
  unfold read
  split
  · exact h
  · simp [h]

end Queue

/-! ## All queues -/

namespace Pump

/-- The queue with a number; an empty one if there is none. -/
def queue (p : Pump φ) (n : Nat) : Queue φ := p.queues.getD n (.ofCapacity 0)

variable (p : Pump φ)

/-- A number below the count of queues is that of a queue. -/
theorem getElem?_queues {n : Nat} (h : n < p.queues.length) : p.queues[n]? = some (p.queue n) := by
  simp [queue, List.getD_eq_getElem?_getD, h]

/-- A number that no queue has stands for one that is empty and has a reader; none is ever delivered
to. -/
theorem queue_of_length_le {n : Nat} (h : p.queues.length ≤ n) : p.queue n = .ofCapacity 0 := by
  simp [queue, List.getD_eq_getElem?_getD, List.getElem?_eq_none h]

/-- No queue comes or goes with a change of one of them. -/
@[simp] theorem length_updateQueue (n : Nat) (f : Queue φ → Queue φ) :
    (p.updateQueue n f).queues.length = p.queues.length := by
  simp [updateQueue]

/-- Only the queue with the number changes. -/
theorem queue_updateQueue (m n : Nat) (f : Queue φ → Queue φ) :
    (p.updateQueue m f).queue n =
      if m = n ∧ n < p.queues.length then f (p.queue n) else p.queue n := by
  simp only [queue, updateQueue, List.getD_eq_getElem?_getD, List.getElem?_modify]
  by_cases hmn : m = n
  · by_cases hn : n < p.queues.length <;> simp [hmn, hn]
  · simp [hmn]

theorem queue_updateQueue_of_lt {m : Nat} (h : m < p.queues.length) (n : Nat)
    (f : Queue φ → Queue φ) :
    (p.updateQueue m f).queue n = if m = n then f (p.queue n) else p.queue n := by
  rw [queue_updateQueue]
  by_cases hmn : m = n
  · simp [← hmn, h]
  · simp [hmn]

/-- A new queue gets the next number and is empty; all others are as before. -/
theorem queue_openQueue (capacity n : Nat) :
    (p.openQueue capacity).2.queue n =
      if n = p.queues.length then .ofCapacity capacity else p.queue n := by
  simp only [queue, openQueue, List.getD_eq_getElem?_getD]
  rcases Nat.lt_trichotomy n p.queues.length with h | h | h
  · rw [List.getElem?_append_left h, if_neg h.ne]
  · simp [h]
  · have hnone : p.queues[n]? = none := List.getElem?_eq_none (Nat.le_of_lt h)
    have hnone' : (p.queues ++ [Queue.ofCapacity capacity])[n]? = none :=
      List.getElem?_eq_none (by simpa using Nat.succ_le_of_lt h)
    rw [hnone, hnone', if_neg h.ne']

/-- A delivery to a queue there is changes this queue and counts how it ended. -/
theorem deliver_eq {n : Nat} (h : n < p.queues.length) (frame : φ) :
    p.deliver n frame = (((p.queue n).deliver frame).1,
      { p with
        queues := p.queues.set n ((p.queue n).deliver frame).2
        stats := p.stats.count ((p.queue n).deliver frame).1 }) := by
  rw [deliver, p.getElem?_queues h]

/-- A delivery changes the queue it goes to, as a delivery to this queue alone would. -/
theorem queue_deliver {m : Nat} (h : m < p.queues.length) (frame : φ) (n : Nat) :
    (p.deliver m frame).2.queue n =
      if m = n then ((p.queue n).deliver frame).2 else p.queue n := by
  rw [p.deliver_eq h]
  by_cases hmn : m = n
  · subst hmn
    simp [queue, h]
  · simp [queue, hmn]

/-- A delivery leaves every other queue alone, even one to a number that no queue has. -/
theorem queue_deliver_of_ne {m n : Nat} (h : m ≠ n) (frame : φ) :
    (p.deliver m frame).2.queue n = p.queue n := by
  by_cases hm : m < p.queues.length
  · rw [p.queue_deliver hm, if_neg h]
  · rw [deliver, List.getElem?_eq_none (Nat.le_of_not_lt hm)]
    rfl

/-- No delivery takes the reader of any queue away. -/
theorem hasReader_queue_deliver {m : Nat} (h : m < p.queues.length) (frame : φ) (n : Nat) :
    ((p.deliver m frame).2.queue n).hasReader = (p.queue n).hasReader := by
  rw [p.queue_deliver h]
  split
  · exact Queue.hasReader_deliver _ _
  · rfl

/-- A delivery, failed or not, takes nobody out of the table: this waits for the end of the
round. -/
theorem table_deliver {m : Nat} (h : m < p.queues.length) (frame : φ) :
    (p.deliver m frame).2.table = p.table := by
  rw [p.deliver_eq h]

/-- A delivery leaves the commands that wait alone. -/
theorem commands_deliver {m : Nat} (h : m < p.queues.length) (frame : φ) :
    (p.deliver m frame).2.commands = p.commands := by
  rw [p.deliver_eq h]

theorem length_deliver {m : Nat} (h : m < p.queues.length) (frame : φ) :
    (p.deliver m frame).2.queues.length = p.queues.length := by
  rw [p.deliver_eq h]
  exact List.length_set

/-- There is a reader for a client, and room for a frame. -/
def takes (a : Attachment) : Bool := p.queues[a.queue]?.any Queue.takes

/-- There is a reader for a client, but no room for a frame. -/
def lags (a : Attachment) : Bool := p.queues[a.queue]?.any Queue.lags

/-- How a delivery to a client ends. -/
def outcome (a : Attachment) : Delivery :=
  if p.takes a then .sent else if p.lags a then .lagging else .closed

/-- How a delivery to a client ends is told by its queue alone; one to a client without a queue is
closed. -/
theorem deliver_fst (a : Attachment) (frame : φ) : (p.deliver a.queue frame).1 = p.outcome a := by
  unfold deliver outcome takes lags
  cases p.queues[a.queue]? with
  | none => rfl
  | some q => exact q.deliver_fst frame

/-- A delivery as a change of one place in the list of queues, also where there is no such place. -/
theorem deliver_snd (n : Nat) (frame : φ) :
    (p.deliver n frame).2 =
      { p with
        queues := p.queues.modify n fun q => (q.deliver frame).2
        stats := p.stats.count (p.deliver n frame).1 } := by
  unfold deliver
  cases hget : p.queues[n]? with
  | none =>
    have hlength : p.queues.length ≤ n := List.getElem?_eq_none_iff.mp hget
    simp [List.modify_eq_self hlength]
  | some q => simp [List.modify_eq_set, hget]

variable {p} in
/-- To serve a target is to change its queue, to count how it ended, and to settle it in the
round. -/
theorem serve_of_round {r : Round φ} (hround : p.round = some r) (a : Attachment) :
    p.serve a =
      { p with
        queues := p.queues.modify a.queue fun q => (q.deliver r.frame).2
        stats := p.stats.count (p.outcome a)
        round := some (r.settle a (p.outcome a)) } := by
  rw [serve, hround]
  dsimp only
  rw [p.deliver_snd, p.deliver_fst]

variable {p} {a : Attachment} in
/-- A client that takes a frame does not lag. -/
theorem lags_of_takes (h : p.takes a = true) : p.lags a = false := by
  unfold takes at h
  unfold lags
  cases hget : p.queues[a.queue]? with
  | none => rfl
  | some q =>
    rw [hget, Option.any_some, Queue.takes, Bool.and_eq_true] at h
    simp [Queue.lags, h.2]

variable {p} {a : Attachment} in
/-- A delivery lags exactly where there is a reader and no room. -/
theorem outcome_eq_lagging_iff : p.outcome a = .lagging ↔ p.lags a = true := by
  unfold outcome
  cases htakes : p.takes a with
  | true => simp [lags_of_takes htakes]
  | false => cases p.lags a <;> simp

/-- To read a queue there is changes this queue alone. -/
theorem read_eq {n : Nat} (h : n < p.queues.length) :
    p.read n = ((p.queue n).read.1, p.updateQueue n fun q => q.read.2) := by
  rw [read, p.getElem?_queues h]

/-- Changing several queues changes each of them once. -/
theorem queue_foldl_updateQueue (f : Queue φ → Queue φ) {targets : List Attachment}
    (hnodup : (targets.map (·.queue)).Nodup) (hlt : ∀ a ∈ targets, a.queue < p.queues.length)
    (n : Nat) :
    (targets.foldl (fun p a => p.updateQueue a.queue f) p).queue n =
      if n ∈ targets.map (·.queue) then f (p.queue n) else p.queue n := by
  induction targets generalizing p with
  | nil => rfl
  | cons a rest ih =>
    obtain ⟨hnot, hrest⟩ := List.nodup_cons.mp hnodup
    have hlt' : ∀ b ∈ rest, b.queue < (p.updateQueue a.queue f).queues.length := by
      intro b hb
      rw [length_updateQueue]
      exact hlt b (List.mem_cons_of_mem _ hb)
    rw [List.foldl_cons, ih _ hrest hlt', queue_updateQueue]
    by_cases hn : a.queue = n
    · subst hn
      rw [if_neg hnot, if_pos ⟨rfl, hlt a List.mem_cons_self⟩, if_pos (by simp)]
    · have hmem : n ∈ (a :: rest).map (·.queue) ↔ n ∈ rest.map (·.queue) := by
        simp [Ne.symm hn]
      simp only [hn, hmem, false_and, ↓reduceIte]

/-- Changes of queues leave the commands that wait alone. -/
@[simp] theorem commands_foldl_updateQueue (f : Queue φ → Queue φ) (targets : List Attachment) :
    (targets.foldl (fun p a => p.updateQueue a.queue f) p).commands = p.commands := by
  induction targets generalizing p with
  | nil => rfl
  | cons a rest ih => exact ih _

@[simp] theorem length_foldl_updateQueue (f : Queue φ → Queue φ) (targets : List Attachment) :
    (targets.foldl (fun p a => p.updateQueue a.queue f) p).queues.length = p.queues.length := by
  induction targets generalizing p with
  | nil => rfl
  | cons a rest ih => exact (ih _).trans (length_updateQueue ..)

/-- Changes of queues leave the round alone. -/
@[simp] theorem round_foldl_updateQueue (f : Queue φ → Queue φ) (targets : List Attachment) :
    (targets.foldl (fun p a => p.updateQueue a.queue f) p).round = p.round := by
  induction targets generalizing p with
  | nil => rfl
  | cons a rest ih => exact ih _

/-- A client that is detached is not in the table, whether or not it was before. -/
theorem table_detach (client : String) :
    (p.detach client).table = KeyMap.erase p.table client := by
  unfold detach
  split
  · rfl
  · next hnone =>
    have hall : ∀ entry ∈ p.table, entry.1 ≠ client := by
      rintro entry hentry rfl
      exact KeyMap.get?_eq_none_iff.mp hnone (List.mem_map_of_mem hentry)
    rw [KeyMap.erase, List.filter_eq_self.mpr fun entry hentry => by simpa using hall entry hentry]

/-- Taking a client out of the table leaves to its queue all that waits. -/
theorem queue_detach (client : String) (n : Nat) :
    ∃ hasWriter, (p.detach client).queue n = { p.queue n with hasWriter } := by
  unfold detach
  split
  · next a hget =>
    have hqueue := p.queue_updateQueue a.queue n Queue.release
    split at hqueue
    · exact ⟨false, hqueue⟩
    · exact ⟨(p.queue n).hasWriter, hqueue⟩
  · exact ⟨(p.queue n).hasWriter, rfl⟩

@[simp] theorem commands_detach (client : String) : (p.detach client).commands = p.commands := by
  unfold detach
  split <;> rfl

/-- A queue outlives the entry of its client in the table. -/
@[simp] theorem length_detach (client : String) :
    (p.detach client).queues.length = p.queues.length := by
  unfold detach
  split
  · exact length_updateQueue ..
  · rfl

/-- Who leaves the table meanwhile does not end the round. -/
@[simp] theorem round_detach (client : String) : (p.detach client).round = p.round := by
  unfold detach
  split <;> rfl

theorem round_foldl_detach (failed : List Attachment) :
    (failed.foldl (fun p a => p.detach a.info.id) p).round = p.round := by
  induction failed generalizing p with
  | nil => rfl
  | cons a rest ih => exact (ih _).trans (p.round_detach _)

/-- Evictions leave the round alone. -/
theorem round_foldl_evict (failed : List Attachment) :
    (failed.foldl evict p).round = p.round := by
  induction failed generalizing p with
  | nil => rfl
  | cons a rest ih => exact ih _

end Pump

end LiveDoc
