import LiveDoc.Proofs.Fanout.Knowledge
import Mathlib.Algebra.BigOperators.Group.Finset.Basic

/-!
# LiveDoc — the moves of a pump

What happens to a pump is told by a list of moves: what its users ask for, what it does next itself,
and what readers do. Any list will do, since a move that cannot be made changes nothing. Queues grow
at one place alone: no move puts a frame in a queue but the delivery to a client whose queue takes it.

* `PumpMove`, `Pump.move` — one thing that happens, and what it comes to.
* `Pump.Shrinks`, `Pump.gain_serve` — which moves make a queue grow.
-/

namespace LiveDoc

variable {φ : Type}

/-! ## Moves -/

/-- One thing that happens to a pump. Commands may bring any queue, also one that was attached
before. -/
inductive PumpMove (φ : Type) where
  | openQueue (capacity : Nat)
  | submit (command : PumpCommand φ)
  -- The pump begins with the next command.
  | start
  -- The delivery to a client is decided. If its queue has a reader and no room, the time is out.
  | serve (target : Attachment)
  -- All deliveries of a command are decided.
  | finish
  -- A reader takes what comes next.
  | read (queue : Nat)
  -- A reader goes away.
  | hangUp (queue : Nat)

namespace Pump

/-- The next command, and the pump that begins with it, if no frame is on its way. -/
def next? (p : Pump φ) : Option (PumpCommand φ × Pump φ) :=
  match p.round, p.commands with
  | none, command :: rest => some (command, { p with commands := rest })
  | _, _ => none

/-- The frame that is on its way to a client. -/
def underway? (p : Pump φ) (a : Attachment) : Option (Round φ) :=
  p.round.filter fun r => a ∈ r.targets

/-- What a move comes to. What cannot happen changes nothing. -/
def move (p : Pump φ) : PumpMove φ → Pump φ
  | .openQueue capacity => (p.openQueue capacity).2
  | .submit command => p.submit command
  | .start =>
    match p.next? with
    | some (command, q) => q.start command
    | none => p
  | .serve a => if (p.underway? a).isSome then p.serve a else p
  | .finish => if p.round.any (·.targets.isEmpty) then p.finish else p
  | .read n => (p.read n).2
  | .hangUp n => p.hangUp n

/-- The pump begins with the first command that waits, and only while no frame is on its way. -/
theorem next?_eq_some {p q : Pump φ} {command : PumpCommand φ} (h : p.next? = some (command, q)) :
    p.round = none ∧ ∃ rest, p.commands = command :: rest ∧ q = { p with commands := rest } := by
  unfold next? at h
  split at h
  · next hidle hnext =>
    cases h
    exact ⟨hidle, _, hnext, rfl⟩
  · cases h

/-- By how many frames the queues grew. -/
def gain (p p' : Pump φ) : Nat :=
  ∑ n ∈ Finset.range p'.queues.length, ((p'.queue n).frames.length - (p.queue n).frames.length)

/-! ## Queues that do not grow -/

/-- No queue has grown. -/
def Shrinks (p p' : Pump φ) : Prop :=
  ∀ n, (p'.queue n).frames.length ≤ (p.queue n).frames.length

theorem Shrinks.trans {p p' p'' : Pump φ} (h : Shrinks p p') (h' : Shrinks p' p'') :
    Shrinks p p'' := fun n => (h' n).trans (h n)

/-- Where no queue has grown nothing was gained, however many frames were taken out. -/
theorem Shrinks.gain_eq_zero {p p' : Pump φ} (h : Shrinks p p') : p.gain p' = 0 :=
  Finset.sum_eq_zero fun n _ => Nat.sub_eq_zero_of_le (h n)

section Shrinks

variable (p : Pump φ)

theorem shrinks_updateQueue (m : Nat) {f : Queue φ → Queue φ}
    (hf : ∀ q, (f q).frames.length ≤ q.frames.length) : p.Shrinks (p.updateQueue m f) := by
  intro n
  rw [queue_updateQueue]
  split
  · exact hf _
  · exact Nat.le_refl _

theorem shrinks_foldl {f : Pump φ → Attachment → Pump φ} (hf : ∀ q a, Shrinks q (f q a))
    (clients : List Attachment) : p.Shrinks (clients.foldl f p) := by
  induction clients generalizing p with
  | nil => exact fun _ => Nat.le_refl _
  | cons a rest ih => exact (hf p a).trans (ih _)

/-- A client that leaves the table leaves its queue as it is. -/
theorem shrinks_detach (client : String) : p.Shrinks (p.detach client) := by
  intro n
  obtain ⟨hasWriter, heq⟩ := p.queue_detach client n
  rw [heq]
  exact Nat.le_refl _

theorem shrinks_discard (command : PumpCommand φ) : p.Shrinks (p.discard command) := by
  cases command with
  | attach info queue refresh =>
    exact p.shrinks_updateQueue queue fun q => (congrArg List.length q.frames_release).le
  | _ => exact fun _ => Nat.le_refl _

theorem shrinks_openQueue (capacity : Nat) : p.Shrinks (p.openQueue capacity).2 := by
  intro n
  rw [queue_openQueue]
  split
  · exact Nat.zero_le _
  · exact Nat.le_refl _

/-- A frame is not in any queue as long as its command waits. -/
theorem shrinks_submit (command : PumpCommand φ) : p.Shrinks (p.submit command) := by
  unfold submit
  split
  · exact fun _ => Nat.le_refl _
  · exact p.shrinks_discard command

/-- No command puts a frame in a queue when it is begun. -/
theorem shrinks_start (command : PumpCommand φ) : p.Shrinks (p.start command) := by
  unfold start
  split
  · exact p.shrinks_discard command
  · cases command with
    | attach info queue refresh => exact p.shrinks_detach info.id
    | detach client => exact p.shrinks_detach client
    | broadcast frame => exact fun _ => Nat.le_refl _
    | unicast client frame => dsimp only; split <;> exact fun _ => Nat.le_refl _
    | shutdown =>
      exact p.shrinks_foldl (fun q a => q.shrinks_updateQueue a.queue fun q =>
        (congrArg List.length q.frames_shutDown).le) p.targets

/-- Those who leave at the end of a round get no frame for it. -/
theorem shrinks_finish : p.Shrinks p.finish := by
  unfold finish
  split
  · dsimp only
    split
    · exact shrinks_foldl _ (fun q a => q.shrinks_detach a.info.id) _
    · exact shrinks_foldl (f := evict) _ (fun q a => q.shrinks_updateQueue a.queue fun q =>
        (congrArg List.length q.frames_evict).le) _
  · exact fun _ => Nat.le_refl _

/-- Reading takes at most one frame out, and puts none in. -/
theorem shrinks_read (n : Nat) : p.Shrinks (p.read n).2 := by
  unfold read
  split
  · refine p.shrinks_updateQueue n fun q => ?_
    unfold Queue.read Queue.frames
    split
    · exact Nat.le_refl _
    · split
      · next item rest hwaiting =>
        rw [hwaiting]
        exact ((List.sublist_cons_self item rest).filterMap _).length_le
      · exact Nat.le_refl _
  · exact fun _ => Nat.le_refl _

theorem shrinks_hangUp (n : Nat) : p.Shrinks (p.hangUp n) :=
  p.shrinks_updateQueue n fun _ => Nat.zero_le _

end Shrinks

/-- A delivery makes a queue grow by its frame if the queue takes it. -/
theorem gain_serve {p : Pump φ} {r : Round φ} (hround : p.round = some r) (a : Attachment) :
    p.gain (p.serve a) = if p.takes a then 1 else 0 := by
  have hqueue : ∀ n, (p.serve a).queue n = if a.queue = n ∧ n < p.queues.length then
      ((p.queue n).deliver r.frame).2 else p.queue n := by
    rw [serve_of_round hround]
    exact fun n => p.queue_updateQueue a.queue n _
  unfold gain
  by_cases hlt : a.queue < p.queues.length
  · have htakes : p.takes a = (p.queue a.queue).takes := by
      rw [takes, p.getElem?_queues hlt, Option.any_some]
    rw [Finset.sum_eq_single a.queue]
    · rw [hqueue, if_pos ⟨rfl, hlt⟩, Queue.frames_deliver, Queue.deliver_fst, htakes]
      cases (p.queue a.queue).takes <;> cases (p.queue a.queue).lags <;> simp
    · intro n _ hne
      rw [hqueue, if_neg fun hn => hne hn.1.symm, Nat.sub_self]
    · intro hout
      exact absurd (Finset.mem_range.mpr (by rwa [length_serve])) hout
  · have htakes : p.takes a = false := by
      rw [takes, List.getElem?_eq_none (Nat.le_of_not_lt hlt)]
      rfl
    rw [htakes, if_neg Bool.false_ne_true]
    refine Finset.sum_eq_zero fun n _ => ?_
    have hne : ¬ (a.queue = n ∧ n < p.queues.length) := by
      rintro ⟨rfl, hn⟩
      exact hlt hn
    rw [hqueue, if_neg hne, Nat.sub_self]

end Pump

end LiveDoc
