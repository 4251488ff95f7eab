import Mathlib.Data.Int.Bitwise

/-!
# The saturating backoff

The delay every retry loop takes: the base doubled once per attempt, which stops at the largest
duration instead of wrapping past it.
-/

namespace Backoff

/-- The largest `time.Duration`. -/
def maxDuration : ℤ := 9223372036854775807

/-- `base` shifted `shift` times, saturating. -/
def saturating (base maxDelay shift : ℤ) : ℤ :=
  let base := max base 0
  if shift < 0 then 0
  else
    let d := if base ≤ maxDuration >>> shift.toNat then base <<< shift.toNat else maxDuration
    if 0 < maxDelay then min d maxDelay else d

end Backoff
