import StreamGauge.Decimal.Notation
import StreamGauge.Scalar.Double

/-!
# Values

A `Value` is an element outside its region: a 64-bit integer, a double, or the result of a
predicate. It can be looked at as any of the three.
-/

namespace StreamGauge

/-- An element on its way through an expression. -/
inductive Value where
  | int (v : Int64)
  | float (v : Double)
  | bool (v : Bool)
deriving DecidableEq, Repr

namespace Value

/-- A computed number. -/
def ofFloat (x : Float) : Value := .float (.ofFloat x)

/-- As an integer: a double drops its fraction and stops at the ends of 64 bits, a non-number is
zero. -/
def toInt64 : Value → Int64
  | int v => v
  | float v => v.toFloat.toInt64
  | bool b => if b then 1 else 0

/-- As a double: the nearest one to an integer. -/
def toDouble : Value → Double
  | int v => .ofFloat v.toFloat
  | float v => v
  | bool b => .ofFloat (if b then 1 else 0)

/-- As a double for arithmetic. -/
def toFloat (v : Value) : Float := v.toDouble.toFloat

/-- As a truth value: anything but zero is true. -/
def toBool : Value → Bool
  | int v => v != 0
  | float v => v.toFloat != 0
  | bool b => b

/-- Whether the value is a double. -/
def isFloat : Value → Bool
  | float _ => true
  | _ => false

/-- The value as dumps and messages show it. -/
def text : Value → String
  | int v => toString v.toInt
  | float v => Decimal.Style.plain.textOfBits v.bits
  | bool b => if b then "true" else "false"

end Value

end StreamGauge
