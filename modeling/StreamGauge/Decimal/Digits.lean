import StreamGauge.Decimal.Binary64

/-!
# Decimal digits of a quotient

A positive number is written with the digits of `coefficient` at `10 ^ exponent` (`Digits`). Three
ways to choose them:

* `Digits.rounded n` keeps `n` digits of the exact quotient, an exact half going to the even
  neighbour;
* `Digits.fixed n` keeps as many as stand up to the `n`-th place after the point, likewise rounded;
* `Digits.shortest` takes the fewest digits that a double is still the nearest one to.

All of them take a multiple of one power of ten that is next to the exact quotient.
-/

namespace StreamGauge.Decimal

/-- The number `coefficient * 10 ^ exponent`. -/
structure Digits where
  coefficient : Nat
  exponent : Int
deriving DecidableEq, Repr

/-- How many digits are taken off a long number at once. -/
def stride : Nat := 64

theorem one_lt_tenTo_stride : 1 < tenTo stride := by decide +kernel

/-- How many decimal digits `n` has; zero has none. -/
def decimalLength (n : Nat) : Nat :=
  if n = 0 then 0
  else if tenTo stride ≤ n then decimalLength (n / tenTo stride) + stride
  else decimalLength (n / 10) + 1
termination_by n
decreasing_by
  · exact Nat.div_lt_self (by omega) one_lt_tenTo_stride
  · omega

/-- The exponent of the leading digit of `num / den`: `10 ^ e ≤ num / den < 10 ^ (e + 1)`. -/
def leadingExponent (num den : Nat) : Int :=
  if den ≤ num then decimalLength (num / den) - 1
  else -decimalLength ((den - 1) / num)

/-- `num / den` in units of `10 ^ unit`, again as a quotient. -/
def inUnits (num den : Nat) (unit : Int) : Nat × Nat :=
  (num * tenTo (-unit).toNat, den * tenTo unit.toNat)

/-- Which of two neighbours an exact half goes to. -/
inductive Tie where
  | toEven
  | upward
deriving DecidableEq, Repr

/-- The natural number nearest to `num / den`. -/
def roundQuotient (tie : Tie) (num den : Nat) : Nat :=
  let low := num / den
  match compare (2 * (num % den)) den with
  | .lt => low
  | .gt => low + 1
  | .eq =>
    match tie with
    | .upward => low + 1
    | .toEven => if low % 2 = 0 then low else low + 1

/-- `num / den` rounded to `places` digits, at least one. A carry into one digit more shortens
the coefficient again. -/
def Digits.rounded (places num den : Nat) : Digits :=
  let unit := leadingExponent num den - (places - 1 : Nat)
  let scaled := inUnits num den unit
  let coefficient := roundQuotient .toEven scaled.1 scaled.2
  if coefficient = tenTo places then ⟨tenTo (places - 1), unit + 1⟩ else ⟨coefficient, unit⟩

/-- `num / den` rounded to `places` places after the point. -/
def Digits.fixed (places num den : Nat) : Digits :=
  ⟨roundQuotient .toEven (num * tenTo places) den, -places⟩

/-- The numbers that round to a double: between the halves to its neighbours, in quarters of its
unit. Below a power of two the neighbour is half as far. -/
structure Basin where
  low : Nat
  high : Nat
  quarter : Int
  closed : Bool

/-- The numbers nearest to `v`; the two ends belong to it when the mantissa is even. -/
def Dyadic.basin (v : Dyadic) : Basin where
  low :=
    if v.mantissa = leadingOne ∧ v.exponent ≠ -1074 then 4 * v.mantissa - 1
    else 4 * v.mantissa - 2
  high := 4 * v.mantissa + 2
  quarter := v.exponent - 2
  closed := v.mantissa % 2 = 0

/-- Whether the grid point `count * 10 ^ unit` rounds to the double that `basin` belongs to. -/
def Basin.contains (basin : Basin) (count : Nat) (unit : Int) : Bool :=
  let point := count * tenTo unit.toNat * twoTo (-basin.quarter).toNat
  let scale := tenTo (-unit).toNat * twoTo basin.quarter.toNat
  if basin.closed then basin.low * scale ≤ point && point ≤ basin.high * scale
  else basin.low * scale < point && point < basin.high * scale

/-- The grid point next to `v` that rounds to `v`, on the grid of `places` digits: of two, the
nearer one. -/
def Dyadic.onGrid? (tie : Tie) (v : Dyadic) (places : Nat) : Option Digits :=
  let q := v.quotient
  let unit := leadingExponent q.1 q.2 - (places - 1 : Nat)
  let scaled := inUnits q.1 q.2 unit
  let low := scaled.1 / scaled.2
  match v.basin.contains low unit, v.basin.contains (low + 1) unit with
  | true, true => some ⟨roundQuotient tie scaled.1 scaled.2, unit⟩
  | true, false => some ⟨low, unit⟩
  | false, true => some ⟨low + 1, unit⟩
  | false, false => none

/-- Drops the zeros at the end of a coefficient. -/
def Digits.trim (d : Digits) : Digits :=
  if h : d.coefficient = 0 then d
  else if d.coefficient % tenTo stride = 0 then
    Digits.trim ⟨d.coefficient / tenTo stride, d.exponent + stride⟩
  else if d.coefficient % 10 = 0 then
    Digits.trim ⟨d.coefficient / 10, d.exponent + 1⟩
  else d
termination_by d.coefficient
decreasing_by
  · exact Nat.div_lt_self (by omega) one_lt_tenTo_stride
  · exact Nat.div_lt_self (by omega) (by decide)

/-- The fewest digits that read back as the positive number `v`; seventeen always do. -/
def Digits.shortest (tie : Tie) (v : Dyadic) : Digits :=
  let q := v.quotient
  (((List.range 17).findSome? fun i => v.onGrid? tie (i + 1)).getD (.rounded 17 q.1 q.2)).trim

/-- The exponent of the leading digit. -/
def Digits.leading (d : Digits) : Int :=
  d.exponent + decimalLength d.coefficient - 1

end StreamGauge.Decimal
