import StreamGauge.Scalar.Power

/-!
# Doubles

A `Double` is a floating point number as its 64 bits. Two that denote the same number may differ
(the zeros), and a non-number has a sign and a payload, which moving it must not change; arithmetic
goes through `Double.toFloat` and keeps only what the number is.

`Double.narrow` and `Double.ofSingle` convert from and to the 32 bits of a single. A non-number
becomes a quiet one there and keeps its sign and the upper bits of its payload.
-/

namespace StreamGauge

/-- A floating point number by its bits. -/
structure Double where
  bits : UInt64
deriving DecidableEq, Repr

namespace Double

/-- The bits of a number. -/
def ofFloat (x : Float) : Double := ⟨x.toBits⟩

/-- The number for arithmetic. -/
def toFloat (d : Double) : Float := Float.ofBits d.bits

/-- Whether the bits denote no number: the exponent is all ones and the fraction is not zero. -/
def isNaN (d : Double) : Bool := 0x7FF0000000000000 < d.bits &&& 0x7FFFFFFFFFFFFFFF

/-- The quiet single of a sign bit and the upper bits of a payload. -/
def quietSingle (sign payload : UInt64) : UInt32 :=
  (sign <<< 31 ||| 0x7FC00000 ||| payload).toUInt32

/-- The quiet double of a sign bit and a payload. -/
def quietDouble (sign payload : UInt64) : Double :=
  ⟨sign <<< 63 ||| 0x7FF8000000000000 ||| payload⟩

/-- The bits of the nearest single. -/
def narrow (d : Double) : UInt32 :=
  if d.isNaN then quietSingle (d.bits >>> 63) (d.bits >>> 29 &&& 0x3FFFFF)
  else d.toFloat.toFloat32.toBits

/-- The double of the bits of a single. -/
def ofSingle (bits : UInt32) : Double :=
  let word := bits.toUInt64
  if 0x7F800000 < word &&& 0x7FFFFFFF then
    quietDouble (word >>> 31) ((word &&& 0x3FFFFF) <<< 29)
  else ofFloat (Float32.ofBits bits).toFloat

end Double

end StreamGauge
