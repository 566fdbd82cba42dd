import StreamGauge.Decimal.Digits

/-!
# Writing digits

`positional` and `scientific` place the digits of a positive number. A `Style` says when a format
uses which and how it writes what has no digits; `Style.text` writes any double in a style. The
styles of this library:

* `Style.plain` never uses an exponent and drops a fraction of zero;
* `Style.plan` (query plans) keeps one digit after the point;
* `significant n` keeps `n` digits, exactly rounded, without zeros at the end of the fraction.
-/

namespace StreamGauge.Decimal

/-- The decimal digits of a number. -/
def digitText (n : Nat) : String := toString n

/-- `n` zeros. -/
def zeros (n : Nat) : String := String.ofList (List.replicate n '0')

/-- The digits with a point at their place, zeros filling the gaps, and `.0` after a whole number
if `pointed`. -/
def positional (pointed : Bool) (d : Digits) : String :=
  let digits := (digitText d.coefficient).toList
  if 0 ≤ d.exponent then
    String.ofList digits ++ zeros d.exponent.toNat ++ (if pointed then ".0" else "")
  else
    let places := (-d.exponent).toNat
    if places < digits.length then
      String.ofList (digits.take (digits.length - places)) ++ "." ++
        String.ofList (digits.drop (digits.length - places))
    else
      "0." ++ zeros (places - digits.length) ++ String.ofList digits

/-- The digits with a point after the first one, if there are more. -/
def leadingText (coefficient : Nat) : String :=
  match (digitText coefficient).toList with
  | [] => ""
  | [c] => String.ofList [c]
  | c :: rest => String.ofList (c :: '.' :: rest)

/-- The digits and the exponent of the first one, with a plus sign if `signed`. -/
def scientific (signed : Bool) (d : Digits) : String :=
  leadingText d.coefficient ++ "e" ++ (if signed ∧ 0 ≤ d.leading then "+" else "") ++
    toString d.leading

/-- How a format writes doubles. -/
structure Style where
  /-- Where an exact half between two shortest candidates goes. -/
  tie : Tie
  /-- Whole numbers end in `.0`. -/
  pointed : Bool
  /-- Leading exponents that are written with the point in place; any other takes the
  scientific form. -/
  isPositional : Int → Bool
  /-- Exponents that are not negative have a plus sign. -/
  signed : Bool
  notANumber : String
  infinity : String

/-- Zero is written like a whole number, with its sign. -/
def Style.zero (s : Style) : String := if s.pointed then "0.0" else "0"

/-- A double in a style, from its bits. -/
def Style.textOfBits (s : Style) (bits : UInt64) : String :=
  match Reading.ofBits bits with
  | .notANumber => s.notANumber
  | .infinite negative => (if negative then "-" else "") ++ s.infinity
  | .finite negative v =>
    let body :=
      if v.mantissa = 0 then s.zero
      else
        let d := Digits.shortest s.tie v
        if s.isPositional d.leading then positional s.pointed d else scientific s.signed d
    (if negative then "-" else "") ++ body

/-- A double in a style. -/
def Style.text (s : Style) (x : Float) : String := s.textOfBits x.toBits

/-- Values and dumps: always positional, whole numbers without a point. -/
def Style.plain : Style where
  tie := .upward
  pointed := false
  isPositional := fun _ => true
  signed := false
  notANumber := "NaN"
  infinity := "inf"

/-- Constants of a query plan: positional from `1e-4` up to `1e16`, and always marked as a
fraction by a point or an exponent. -/
def Style.plan : Style where
  tie := .upward
  pointed := true
  isPositional := fun e => -4 ≤ e && e < 16
  signed := false
  notANumber := "NaN"
  infinity := "inf"

/-! ## A fixed count of digits -/

/-- The exponent with its sign and at least two digits. -/
def paddedExponent (e : Int) : String :=
  (if e < 0 then "-" else "+") ++ (if e.natAbs < 10 then "0" else "") ++ toString e.natAbs

/-- Whether a number of `places` significant digits, the first of them at `10 ^ leading`, is
written with its point in place. -/
def isModerate (places : Nat) (leading : Int) : Bool := -4 ≤ leading && leading < places

/-- A text with a point, without the zeros at its end and then without the point if that is left at
the end. A text without a point keeps its zeros. -/
def trimZeros (text : List Char) : List Char :=
  if '.' ∈ text then
    ((text.reverse.dropWhile (· = '0')).dropWhile (· = '.')).reverse
  else text

/-- A positive quotient with `places` significant digits. The number rounded to so many digits says
which exponent it has. To put the point in place, the number is rounded once more, now at the place
where that many digits end. -/
def significantQuotient (places num den : Nat) : String :=
  let d := Digits.rounded places num den
  if isModerate places d.leading then
    let decimals := ((places - 1 : Nat) - d.leading).toNat
    String.ofList (trimZeros (positional false (.fixed decimals num den)).toList)
  else
    String.ofList (trimZeros (leadingText d.coefficient).toList) ++ "e" ++
      paddedExponent d.leading

/-- The most digits that can follow the point. -/
def maxPlaces : Nat := 65535

/-- Whether the digits after the point are few enough, zeros at the end included: those after the
first of `places` digits, and as many as it takes to write them with the point in place. -/
def placesFit (places num den : Nat) : Bool :=
  places - 1 ≤ maxPlaces &&
    (let leading := (Digits.rounded places num den).leading
     !isModerate places leading || (places - 1 : Int) - leading ≤ maxPlaces)

/-- A double with `digits` significant digits, at least one, from its bits. Zero has no sign. -/
def significantOfBits (bits : UInt64) (digits : Nat) : String :=
  match Reading.ofBits bits with
  | .notANumber => "nan"
  | .infinite negative => if negative then "-inf" else "inf"
  | .finite negative v =>
    if v.mantissa = 0 then "0"
    else
      let q := v.quotient
      (if negative then "-" else "") ++ significantQuotient (max digits 1) q.1 q.2

/-- A double with `digits` significant digits, if so many can be written. -/
def significantOfBits? (bits : UInt64) (digits : Nat) : Option String :=
  let fits := match Reading.ofBits bits with
    | .finite _ v => v.mantissa = 0 || placesFit (max digits 1) v.quotient.1 v.quotient.2
    | _ => true
  if fits then some (significantOfBits bits digits) else none

/-- A double with `digits` significant digits. -/
def significant (x : Float) (digits : Nat) : String := significantOfBits x.toBits digits

end StreamGauge.Decimal
