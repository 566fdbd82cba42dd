/-!
# The ends of the 64-bit integers

Sizes and times are settled in arithmetic that stops at the ends of the 64-bit integers instead of
wrapping past them.
-/

namespace StreamGauge

/-- The least 64-bit integer. -/
def minInt64 : Int := -9223372036854775808

/-- The greatest 64-bit integer. -/
def maxInt64 : Int := 9223372036854775807

/-- Whether `n` is a 64-bit integer. -/
def isInt64 (n : Int) : Bool := minInt64 ≤ n && n ≤ maxInt64

theorem isInt64_iff {n : Int} : isInt64 n = true ↔ minInt64 ≤ n ∧ n ≤ maxInt64 := by
  simp [isInt64]

/-- The most bytes that one buffer can have: the greatest 64-bit integer, as a natural number. -/
def maxBufferBytes : Nat := 9223372036854775807

/-- The 64-bit integer nearest to `n`. -/
def saturate (n : Int) : Int := max minInt64 (min maxInt64 n)

theorem minInt64_le_saturate (n : Int) : minInt64 ≤ saturate n := by
  unfold saturate
  omega

theorem saturate_le_maxInt64 (n : Int) : saturate n ≤ maxInt64 := by
  unfold saturate minInt64 maxInt64
  omega

end StreamGauge
