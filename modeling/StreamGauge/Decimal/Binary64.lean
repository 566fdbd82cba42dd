import StreamGauge.Scalar.Power

/-!
# Doubles as exact numbers

`Reading.ofBits` splits the 64 bits of a double into what they denote: no number, an infinity, or
a sign and a magnitude `mantissa * 2 ^ exponent` (`Dyadic`). Everything that writes a double in
decimal starts from here, so no rounding happens before the digits are chosen.
-/

namespace StreamGauge.Decimal

/-- The number `mantissa * 2 ^ exponent`. -/
structure Dyadic where
  mantissa : Nat
  exponent : Int
deriving DecidableEq, Repr

/-- What the bits of a double denote. -/
inductive Reading where
  | notANumber
  | infinite (negative : Bool)
  | finite (negative : Bool) (magnitude : Dyadic)
deriving DecidableEq, Repr

/-- The least number of 53 bits, which is the leading one of a fraction of 52 bits. -/
def leadingOne : Nat := twoTo 52

/-- The lowest 52 bits. -/
def fractionField (bits : UInt64) : Nat := bits.toNat % leadingOne

/-- The eleven bits above the fraction. -/
def exponentField (bits : UInt64) : Nat := bits.toNat / leadingOne % twoTo 11

/-- The highest bit. -/
def signField (bits : UInt64) : Bool := twoTo 63 ≤ bits.toNat

/-- An exponent field of all ones marks infinities and non-numbers; of zero, a fraction without
the leading one; any other adds the leading one. -/
def Reading.ofBits (bits : UInt64) : Reading :=
  let fraction := fractionField bits
  let field := exponentField bits
  let negative := signField bits
  if field = 2047 then
    if fraction = 0 then .infinite negative else .notANumber
  else if field = 0 then
    .finite negative ⟨fraction, -1074⟩
  else
    .finite negative ⟨leadingOne + fraction, field - 1075⟩

/-- A magnitude as a quotient of two natural numbers, the second one positive. -/
def Dyadic.quotient (v : Dyadic) : Nat × Nat :=
  (v.mantissa * twoTo v.exponent.toNat, twoTo (-v.exponent).toNat)

theorem Dyadic.quotient_snd_pos (v : Dyadic) : 0 < v.quotient.2 :=
  twoTo_pos _

end StreamGauge.Decimal
