import LiveDoc.Backoff
import LiveDoc.Proofs.Decimal.Nanos

/-!
# LiveDoc — the range of delays

Delays grow and are spread as floats, which overflow, are no numbers, or are no delays. Whatever
becomes of them, they are clamped last: what is not above the seconds of the least delay comes out
as the least delay, and what is above them makes a delay that is no shorter. A delay that is not
spread is returned as it is, and is in the range because it was clamped when it was computed.

A policy's multiplier and jitter are any floats, and its initial delay may exceed the greatest one.
Its least delay is a whole number of nanoseconds, with whole seconds of 64 bits.

* `Settings.Backoff.clamp_inRange` — what is clamped is in the range.
* `Backoff.delays_inRange` — all delays of a run are.
-/

namespace LiveDoc

open Decimal

namespace Settings.Backoff

variable {policy : Backoff}

/-- Neither shorter than the least delay nor longer than the greatest. -/
def InRange (policy : Backoff) (ns : Nat) : Prop := policy.floorNs ≤ ns ∧ ns ≤ policy.maxNs

theorem floorNs_inRange (policy : Backoff) : policy.InRange policy.floorNs :=
  ⟨le_rfl, min_le_right _ _⟩

theorem maxNs_inRange (policy : Backoff) : policy.InRange policy.maxNs :=
  ⟨min_le_right _ _, le_rfl⟩

/-- What is clamped stays in range, for every float, not a number included. -/
theorem clamp_inRange (h : policy.floorNs < 2 ^ 64 * nanosPerSecond) (secs : Float) :
    policy.InRange (policy.clamp secs) := by
  rw [clamp]
  split
  · exact floorNs_inRange policy
  · next habove =>
    have hsecs : ¬ secs ≤ secondsOfNanos policy.floorNs := fun hle => habove (by simp [hle])
    split
    · next ns hns =>
      exact ⟨le_min (le_nanosOfSeconds? h hsecs hns) (min_le_right _ _), min_le_right _ _⟩
    · exact maxNs_inRange policy

/-- The delay behind any other is in the range, also behind one that is not. -/
theorem nextAfter_inRange (h : policy.floorNs < 2 ^ 64 * nanosPerSecond) (previous : Option Nat) :
    policy.InRange (policy.nextAfter previous) := by
  cases previous <;> exact clamp_inRange h _

/-- A spread delay is clamped, and any other stays what it is. -/
theorem spread_inRange (h : policy.floorNs < 2 ^ 64 * nanosPerSecond) {ns : Nat}
    (hns : policy.InRange ns) (word : UInt64) : policy.InRange (policy.spread word ns) := by
  rw [spread]
  split
  · exact clamp_inRange h _
  · exact hns

end Settings.Backoff

/-! ## Runs -/

inductive BackoffCall where
  -- The next delay, with a random word.
  | next (word : UInt64)
  | reset
  deriving DecidableEq

namespace Backoff

variable {b : Backoff}

/-- The calls in turn, and the delays that they return. -/
def run (b : Backoff) : List BackoffCall → List Nat × Backoff
  | [] => ([], b)
  | .next word :: calls =>
    let (delay, b) := b.next word
    let (delays, b) := b.run calls
    (delay :: delays, b)
  | .reset :: calls => b.reset.run calls

/-- The last delay is in the range, before its spread. -/
def IsSound (b : Backoff) : Prop := ∀ ns, b.current = some ns → b.policy.InRange ns

theorem isSound_reset (b : Backoff) : b.reset.IsSound := by
  rintro ns ⟨⟩

theorem isSound_next (h : b.policy.floorNs < 2 ^ 64 * nanosPerSecond) (word : UInt64) :
    (b.next word).2.IsSound := by
  rintro ns ⟨⟩
  exact Settings.Backoff.nextAfter_inRange h b.current

theorem next_inRange (h : b.policy.floorNs < 2 ^ 64 * nanosPerSecond) (word : UInt64) :
    b.policy.InRange (b.next word).1 :=
  Settings.Backoff.spread_inRange h (Settings.Backoff.nextAfter_inRange h b.current) word

/-- Delays and resets in any order keep the backoff sound and each delay in range. -/
theorem run_sound (h : b.policy.floorNs < 2 ^ 64 * nanosPerSecond) (hb : b.IsSound)
    (calls : List BackoffCall) :
    (∀ delay ∈ (b.run calls).1, b.policy.InRange delay) ∧ (b.run calls).2.IsSound ∧
      (b.run calls).2.policy = b.policy := by
  induction calls generalizing b with
  | nil => exact ⟨by simp [run], hb, rfl⟩
  | cons call calls ih =>
    cases call with
    | next word =>
      obtain ⟨hdelays, hsound, hpolicy⟩ := ih (b := (b.next word).2) h (isSound_next h word)
      exact ⟨List.forall_mem_cons.mpr ⟨next_inRange h word, hdelays⟩, hsound, hpolicy⟩
    | reset => exact ih (b := b.reset) h (isSound_reset b)

/-- The delays of any run are in the policy's range, and so is the delay behind any other. -/
theorem delays_inRange (policy : Settings.Backoff) (h : policy.floorNs < 2 ^ 64 * nanosPerSecond) :
    (∀ calls, ∀ delay ∈ (run { policy } calls).1,
        min policy.initialNs policy.maxNs ≤ delay ∧ delay ≤ policy.maxNs) ∧
      ∀ previous, min policy.initialNs policy.maxNs ≤ policy.nextAfter previous ∧
        policy.nextAfter previous ≤ policy.maxNs := by
  refine ⟨fun calls => (run_sound h ?_ calls).1, Settings.Backoff.nextAfter_inRange h⟩
  rintro ns ⟨⟩

/-- Where the initial delay exceeds the greatest one, every delay is the greatest. -/
theorem delays_of_inverted :
    (run
      { policy :=
          { initialNs := 60000000000
            maxNs := 1000000000
            multiplier := 0.0 / 0.0
            jitter := 1.0 / 0.0 } }
      [.next 0, .next 4294967296, .reset, .next 18446744073709551615]).1 =
      List.replicate 3 1000000000 := by
  refine List.eq_replicate_iff.mpr ⟨rfl, fun delay hmem => ?_⟩
  obtain ⟨hleast, hgreatest⟩ := (delays_inRange _ (by decide)).1 _ delay hmem
  exact le_antisymm hgreatest hleast

end Backoff

end LiveDoc
