import LiveDoc.Proofs.Fanout.Queues

/-!
# LiveDoc — the pump does not look at frames

The pump moves frames and reads none of them. So whatever is written on its frames changes nothing
of what it does: the pump of the frames without it does the same. A frame can be told from others
like it, and followed on its way, by what was written on it when it was submitted.

* `Pump.map` — the pump with every frame replaced.
* `Pump.map_submit`, `Pump.map_start`, `Pump.map_serve`, `Pump.map_finish`, `Pump.map_read`,
  `Pump.map_hangUp` — replacing frames commutes with all that happens to a pump.
-/

namespace LiveDoc

variable {φ ψ : Type} (f : φ → ψ)

/-! ## Frames are replaced -/

def Outbound.map : Outbound φ → Outbound ψ
  | .frame x => .frame (f x)
  | .close => .close

def Reading.map : Reading φ → Reading ψ
  | .item x => .item (x.map f)
  | .pending => .pending
  | .ended => .ended

def PumpCommand.map : PumpCommand φ → PumpCommand ψ
  | .attach info queue refresh => .attach info queue (f refresh)
  | .detach client => .detach client
  | .broadcast frame => .broadcast (f frame)
  | .unicast client frame => .unicast client (f frame)
  | .shutdown => .shutdown

def Queue.map (q : Queue φ) : Queue ψ where
  capacity := q.capacity
  waiting := q.waiting.map (·.map f)
  closing := q.closing
  hasReader := q.hasReader
  hasWriter := q.hasWriter

def Round.map (r : Round φ) : Round ψ where
  frame := f r.frame
  targets := r.targets
  failed := r.failed
  isRefresh := r.isRefresh

def Pump.map (p : Pump φ) : Pump ψ where
  commands := p.commands.map (·.map f)
  table := p.table
  queues := p.queues.map (·.map f)
  stats := p.stats
  running := p.running
  round := p.round.map (·.map f)

namespace Queue

variable (q : Queue φ)

/-- Whether a frame gets in depends on the queue alone, so the same frames get in behind the
replacement. -/
theorem map_deliver (frame : φ) :
    (q.map f).deliver (f frame) = ((q.deliver frame).1, (q.deliver frame).2.map f) := by
  have hroom : (q.map f).hasRoom = q.hasRoom := by simp [hasRoom, map]
  unfold deliver
  rw [hroom]
  show (if !q.hasReader then _ else _) = _
  split
  · rfl
  · split
    · simp [map, Outbound.map]
    · rfl

/-- What is read behind the replacement is the replacement of what is read before it. -/
theorem map_read : (q.map f).read = (q.read.1.map f, q.read.2.map f) := by
  unfold read
  show (if q.closing then _ else _) = _
  split
  · rfl
  · cases hwaiting : q.waiting with
    | nil => cases hwriter : q.hasWriter <;> simp [map, hwaiting, hwriter, Reading.map]
    | cons item rest => simp [map, hwaiting, Reading.map]

/-- An order to close is the same before and behind the replacement. -/
theorem map_shutDown : (q.map f).shutDown = q.shutDown.map f := by
  have hroom : (q.map f).hasRoom = q.hasRoom := by simp [hasRoom, map]
  unfold shutDown
  rw [hroom]
  cases hreader : q.hasReader <;> cases q.hasRoom <;> simp [map, hreader, Outbound.map]

end Queue

/-! ## The pump -/

namespace Pump

variable (p : Pump φ)

/-- Every number stands for the same queue, with its frames replaced. -/
theorem queue_map (n : Nat) : (p.map f).queue n = (p.queue n).map f := by
  have hget : (p.map f).queues[n]? = p.queues[n]?.map (·.map f) := List.getElem?_map ..
  rw [queue, queue, List.getD_eq_getElem?_getD, List.getD_eq_getElem?_getD, hget]
  cases p.queues[n]? <;> rfl

theorem map_openQueue (capacity : Nat) :
    ((p.openQueue capacity).2.map f) = ((p.map f).openQueue capacity).2 := by
  simp [openQueue, map, Queue.map, Queue.ofCapacity]

/-- Touching a queue commutes with replacing frames if it does so on every queue. -/
theorem map_updateQueue (n : Nat) (g : Queue φ → Queue φ) (g' : Queue ψ → Queue ψ)
    (h : ∀ q, (g q).map f = g' (q.map f)) :
    (p.updateQueue n g).map f = (p.map f).updateQueue n g' := by
  have hqueues : (p.queues.modify n g).map (·.map f) = (p.queues.map (·.map f)).modify n g' := by
    refine List.ext_getElem? fun m => ?_
    rw [List.getElem?_map, List.getElem?_modify, List.getElem?_modify, List.getElem?_map]
    cases p.queues[m]? with
    | none => rfl
    | some q => by_cases hmn : n = m <;> simp [hmn, h]
  simp [updateQueue, map, hqueues]

theorem map_hangUp (n : Nat) : (p.hangUp n).map f = (p.map f).hangUp n :=
  p.map_updateQueue f n Queue.hangUp Queue.hangUp fun _ => rfl

/-- Readers of the pump see the replacement of what they would have seen. -/
theorem map_read (n : Nat) :
    (p.map f).read n = ((p.read n).1.map f, (p.read n).2.map f) := by
  have hget : (p.map f).queues[n]? = p.queues[n]?.map (·.map f) := List.getElem?_map ..
  unfold read
  rw [hget]
  cases p.queues[n]? with
  | none => rfl
  | some q =>
    have hupdate := p.map_updateQueue f n (fun q => q.read.2) (fun q => q.read.2)
      fun q => by rw [q.map_read f]
    simp only [Option.map_some, q.map_read f, hupdate]

/-- Deliveries end the same way, and are counted the same way. -/
theorem map_deliver (n : Nat) (frame : φ) :
    (p.map f).deliver n (f frame) = ((p.deliver n frame).1, (p.deliver n frame).2.map f) := by
  have hget : (p.map f).queues[n]? = p.queues[n]?.map (·.map f) := List.getElem?_map ..
  unfold deliver
  rw [hget]
  cases p.queues[n]? with
  | none => rfl
  | some q => simp [q.map_deliver f, map, List.map_set]

/-- Who is evicted is told by the table alone. -/
theorem map_evict (a : Attachment) : (p.evict a).map f = (p.map f).evict a := by
  have hupdate := p.map_updateQueue f a.queue Queue.evict Queue.evict fun _ => rfl
  unfold evict
  rw [← hupdate]
  rfl

/-- Who is detached is told by the table alone. -/
theorem map_detach (client : String) : (p.detach client).map f = (p.map f).detach client := by
  have htable : (p.map f).table = p.table := rfl
  unfold detach
  rw [htable]
  cases KeyMap.get? p.table client with
  | none => rfl
  | some a =>
    have hupdate := p.map_updateQueue f a.queue Queue.release Queue.release fun _ => rfl
    simp only
    rw [← hupdate]
    rfl

theorem map_discard (command : PumpCommand φ) :
    (p.discard command).map f = (p.map f).discard (command.map f) := by
  cases command with
  | attach info queue refresh => exact p.map_updateQueue f queue Queue.release Queue.release fun _ => rfl
  | _ => rfl

/-- A command waits behind the same commands, with the frame that it brings replaced. -/
theorem map_submit (command : PumpCommand φ) :
    (p.submit command).map f = (p.map f).submit (command.map f) := by
  unfold submit
  show _ = if p.running then _ else _
  split
  · simp [map]
  · exact p.map_discard f command

/-- What is done to the pump for several clients in turn. -/
theorem map_foldl {α : Type} {g : Pump φ → α → Pump φ} {g' : Pump ψ → α → Pump ψ}
    (h : ∀ p a, (g p a).map f = g' (p.map f) a) (l : List α) :
    (l.foldl g p).map f = l.foldl g' (p.map f) := by
  induction l generalizing p with
  | nil => rfl
  | cons a rest ih => rw [List.foldl_cons, List.foldl_cons, ih, h]

/-- Every command begins its round with the replacement of its frame, for the same targets. -/
theorem map_start (command : PumpCommand φ) :
    (p.start command).map f = (p.map f).start (command.map f) := by
  unfold start
  show _ = if !p.running then _ else _
  split
  · exact p.map_discard f command
  · cases command with
    | attach info queue refresh =>
      simp only [PumpCommand.map, ← p.map_detach f info.id]
      rfl
    | detach client => exact p.map_detach f client
    | broadcast frame => rfl
    | unicast client frame =>
      have htable : (p.map f).table = p.table := rfl
      simp only [PumpCommand.map, htable]
      cases hget : KeyMap.get? p.table client <;> simp [map, Round.map]
    | shutdown =>
      have hfoldl : (p.targets.foldl (fun p a => p.updateQueue a.queue Queue.shutDown) p).map f =
          p.targets.foldl (fun p a => p.updateQueue a.queue Queue.shutDown) (p.map f) :=
        p.map_foldl f (fun p a => p.map_updateQueue f a.queue Queue.shutDown Queue.shutDown
          fun q => (q.map_shutDown f).symm) p.targets
      simp only [PumpCommand.map]
      show _ = { (p.targets.foldl _ (p.map f)) with table := [], running := false }
      rw [← hfoldl]
      rfl

/-- A target of the round is settled the same way, since its delivery ends the same way. -/
theorem map_serve (a : Attachment) : (p.serve a).map f = (p.map f).serve a := by
  have hround : (p.map f).round = p.round.map (·.map f) := rfl
  unfold serve
  rw [hround]
  cases p.round with
  | none => rfl
  | some r =>
    have hdeliver := p.map_deliver f a.queue r.frame
    show _ = { ((p.map f).deliver a.queue (f r.frame)).2 with
      round := some ((r.map f).settle a ((p.map f).deliver a.queue (f r.frame)).1) }
    rw [hdeliver]
    rfl

/-- The same clients leave at the end of a round. -/
theorem map_finish : p.finish.map f = (p.map f).finish := by
  have hround : (p.map f).round = p.round.map (·.map f) := rfl
  unfold finish
  rw [hround]
  cases p.round with
  | none => rfl
  | some r =>
    simp only [Option.map_some]
    show _ = if r.isRefresh then _ else _
    split
    · exact map_foldl f _ (fun p a => p.map_detach f a.info.id) r.failed
    · exact map_foldl f _ (fun p a => p.map_evict f a) r.failed

end Pump

end LiveDoc
