import StreamGauge.Scalar.Saturate

/-!
# Integers in text

An integer is written with ASCII digits only. A plus sign may stand before any of them, a minus
sign only before one of a type with signs.
-/

namespace StreamGauge

/-- The number that digits spell, if there is at least one and nothing else. -/
def digitsValue? (cs : List Char) : Option Nat :=
  if cs.isEmpty ∨ !cs.all Char.isDigit then none
  else some (cs.foldl (fun n c => 10 * n + (c.toNat - '0'.toNat)) 0)

/-- An unsigned 64-bit integer. -/
def readUInt64? (s : String) : Option UInt64 :=
  let value? := match s.toList with
    | '+' :: cs => digitsValue? cs
    | cs => digitsValue? cs
  (value?.filter (· < UInt64.size)).map UInt64.ofNat

/-- A signed 64-bit integer. -/
def readInt64? (s : String) : Option Int64 :=
  let value? : Option Int := match s.toList with
    | '+' :: cs => (digitsValue? cs).map Int.ofNat
    | '-' :: cs => (digitsValue? cs).map Int.negOfNat
    | cs => (digitsValue? cs).map Int.ofNat
  (value?.filter fun n => minInt64 ≤ n ∧ n ≤ maxInt64).map Int64.ofInt

end StreamGauge
