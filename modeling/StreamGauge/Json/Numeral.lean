import StreamGauge.Decimal.Notation

/-!
# Numbers in JSON

A `Numeral` is a number as it is written: sign, digits, fraction and exponent. As an integer it
counts only without fraction and exponent, and not as `-0`. As a double, `Numeral.toFloat?` keeps
as many leading digits as a 64-bit significand takes and scales it by one power of ten; a number
that is too large has no double.
-/

namespace StreamGauge

/-- A number as written. Digits are numbers below ten. -/
structure Numeral where
  negative : Bool
  whole : List Nat
  /-- The digits after the point. -/
  fraction? : Option (List Nat)
  /-- The sign and the digits of the exponent. -/
  exponent? : Option (Bool × List Nat)
deriving DecidableEq, Repr

namespace Numeral

/-- The number that digits denote. -/
def ofDigits (digits : List Nat) : Nat := digits.foldl (fun n d => 10 * n + d) 0

/-- The integer, if it is written as one. Minus zero is a double. -/
def toInt? (n : Numeral) : Option Int :=
  let magnitude := ofDigits n.whole
  if n.fraction?.isSome ∨ n.exponent?.isSome ∨ (n.negative ∧ magnitude = 0) then none
  else some (if n.negative then -magnitude else magnitude)

/-- The leading digits as a number within 64 bits, and the digits that are left. -/
def takeSignificand (significand : Nat) : List Nat → Nat × List Nat
  | [] => (significand, [])
  | d :: rest =>
    if 10 * significand + d < UInt64.size then takeSignificand (10 * significand + d) rest
    else (significand, d :: rest)

/-- A significand below `2 ^ 64` and a power of ten. Digits before the point that do not fit only
scale; digits after it that do not fit are dropped. -/
def significand (n : Numeral) : Nat × Int :=
  let (s, dropped) := takeSignificand 0 n.whole
  match n.fraction? with
  | none => (s, dropped.length)
  | some fraction =>
    let (s, left) := takeSignificand s fraction
    (s, dropped.length - (fraction.length - left.length : Nat))

/-- The largest number of an exponent. -/
def maxExponent : Nat := 2147483647

/-- A double times a power of ten, taken in steps of at most `10 ^ 308`. It has no result when it
grows past the doubles. -/
def scaleBy : (steps : Nat) → Float → Int → Option Float
  | 0, _, _ => some 0
  | steps + 1, x, e =>
    if e.natAbs ≤ 308 then
      let power := Float.ofScientific 1 false e.natAbs
      if 0 ≤ e then
        let y := x * power
        if y.isInf then none else some y
      else some (x / power)
    else if x == 0 then some x
    else if 0 ≤ e then none
    else scaleBy steps (x / Float.ofScientific 1 false 308) (e + 308)

/-- The magnitude as a double. An exponent past 31 bits makes zero or has no result. -/
def magnitude? (n : Numeral) : Option Float :=
  let (s, scale) := n.significand
  let x := Float.ofNat s
  match n.exponent? with
  | none => scaleBy 4 x scale
  | some (negative, digits) =>
    let e := ofDigits digits
    if maxExponent < e then if s ≠ 0 ∧ !negative then none else some 0
    else scaleBy 4 x (if negative then scale - e else scale + e)

/-- The number as a double. -/
def toFloat? (n : Numeral) : Option Float :=
  n.magnitude?.map fun x => if n.negative then -x else x

end Numeral

namespace Decimal

/-- Doubles in JSON: positional from `1e-5` up to `1e16`, whole ones with `.0`; an exponent always
has a sign. -/
def Style.json : Style where
  tie := .toEven
  pointed := true
  isPositional := fun e => -5 ≤ e && e < 16
  signed := true
  notANumber := "null"
  infinity := "null"

end Decimal

end StreamGauge
