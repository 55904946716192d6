import LiveDoc.Decimal.Nanos
import LiveDoc.Settings.Basic

/-!
# LiveDoc — delays between attempts to connect

A `Backoff` starts at the policy's initial delay and multiplies it with every further attempt. What
it returns is that delay spread at random by up to the policy's jitter; the spread does not
accumulate. Every delay is clamped to the range from the initial to the greatest delay.

Randomness comes as 64-bit words, one for every delay that is spread.
-/

namespace LiveDoc

open Decimal Settings

namespace Settings.Backoff

/-- The least delay: the initial one, unless even that exceeds the greatest. -/
def floorNs (policy : Backoff) : Nat := min policy.initialNs policy.maxNs

/-- Seconds as a delay in the policy's range. -/
def clamp (policy : Backoff) (secs : Float) : Nat :=
  if secs.isNaN || secs <= secondsOfNanos policy.floorNs then policy.floorNs
  else
    match nanosOfSeconds? secs with
    | some ns => min ns policy.maxNs
    | none => policy.maxNs

/-- The delay behind another one, before any spread. -/
def nextAfter (policy : Backoff) (previous : Option Nat) : Nat :=
  match previous with
  | none => policy.clamp (secondsOfNanos policy.initialNs)
  | some ns => policy.clamp (secondsOfNanos ns * policy.multiplier)

def floatBelow (x : Float) : Float := Float.ofBits (x.toBits - 1)

/-- The largest number below one with 52 binary places. -/
def maxFraction : Float := 1.0 - 1.0 / 4503599627370496.0

/-- Steps a scale down until the greatest fraction of it, moved down by the bound, is within the
bound. -/
def fitScale (bound : Float) : (steps : Nat) → (scale : Float) → Float
  | 0, scale => scale
  | steps + 1, scale =>
    if scale * maxFraction + -bound > bound then fitScale bound steps (floatBelow scale) else scale

/-- A random number between the bound and its negative, from the leading 52 bits of a word. -/
def spreadOf (bound : Float) (word : UInt64) : Float :=
  let fraction := (word >>> 12).toFloat / 4503599627370496.0
  fraction * fitScale bound 64 ((bound - -bound) / maxFraction) + -bound

/-- The part of a delay that is added or taken off at most: one at most, and also one where the
policy's is not a number. -/
def bound (policy : Backoff) : Float :=
  if policy.jitter.isNaN || 1.0 < policy.jitter then 1.0 else policy.jitter

def isSpread (policy : Backoff) : Bool := 0.0 < policy.bound

def spread (policy : Backoff) (word : UInt64) (ns : Nat) : Nat :=
  if policy.isSpread then
    policy.clamp (secondsOfNanos ns * (1.0 + spreadOf policy.bound word))
  else ns

end Settings.Backoff

structure Backoff where
  policy : Settings.Backoff
  attempt : Nat := 0
  -- The last delay, before its spread.
  current : Option Nat := none

namespace Backoff

/-- The next delay, spread by a random word. -/
def next (b : Backoff) (word : UInt64) : Nat × Backoff :=
  let base := b.policy.nextAfter b.current
  (b.policy.spread word base, { b with attempt := b.attempt + 1, current := some base })

/-- Starts over after an attempt that succeeded. -/
def reset (b : Backoff) : Backoff := { b with attempt := 0, current := none }

end Backoff

end LiveDoc
