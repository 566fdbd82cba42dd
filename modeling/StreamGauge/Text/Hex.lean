import StreamGauge.Scalar.Power

/-!
# Hexadecimal text
-/

namespace StreamGauge

/-- The lowest `width` hexadecimal digits of `n`. -/
def hexText (width n : Nat) : String :=
  String.ofList ((List.range width).reverse.map fun i => Nat.digitChar (n / twoTo (4 * i) % 16))

/-- The hexadecimal digits of `n`, as few as there are. -/
def hexTextShort (n : Nat) : String := String.ofList (Nat.toDigits 16 n)

end StreamGauge
