import StreamGauge.Scalar.Codec

/-!
# Expressions

An `Expr` computes a value from the values of an element (slot 0) or of a pair of elements
(slots 0 and 1). Integers wrap at 64 bits; an operator with a double on either side works on
doubles. `Expr.eval` fails on an integer division by zero and on a slot without a value.
-/

namespace StreamGauge

/-- A binary operator. -/
inductive Operator where
  | add
  | sub
  | mul
  | div
  | gt
  | lt
  | ge
  | eq
  | and
  | or
deriving DecidableEq, Repr

namespace Operator

def symbol : Operator → String
  | add => "+"
  | sub => "-"
  | mul => "*"
  | div => "/"
  | gt => ">"
  | lt => "<"
  | ge => ">="
  | eq => "=="
  | and => "&&"
  | or => "||"

/-- Every operator. -/
def all : List Operator := [add, sub, mul, div, gt, lt, ge, eq, and, or]

end Operator

/-- A computation on the values of an element. -/
inductive Expr where
  | input (slot : Nat)
  | const (v : Value)
  | binary (op : Operator) (lhs rhs : Expr)
  | not (e : Expr)
  | cast (kind : Kind) (e : Expr)

/-- Why an expression has no value. -/
inductive EvalError where
  | divisionByZero
  | unbound (slot : Nat)
deriving DecidableEq, Repr

/-- Doubles closer than this are equal in expressions: the distance from one to the next double,
`2 ^ -52`. -/
def floatTolerance : Float := Float.ofBits 0x3CB0000000000000

namespace Operator

/-- The operator on doubles. -/
def onFloats (op : Operator) (x y : Float) : Value :=
  match op with
  | add => .ofFloat (x + y)
  | sub => .ofFloat (x - y)
  | mul => .ofFloat (x * y)
  | div => .ofFloat (x / y)
  | gt => .bool (x > y)
  | lt => .bool (x < y)
  | ge => .bool (x ≥ y)
  | eq => .bool ((x - y).abs < floatTolerance)
  | and => .bool (x != 0 && y != 0)
  | or => .bool (x != 0 || y != 0)

/-- The operator on integers. -/
def onInts (op : Operator) (x y : Int64) : Except EvalError Value :=
  match op with
  | add => .ok (.int (x + y))
  | sub => .ok (.int (x - y))
  | mul => .ok (.int (x * y))
  | div => if y = 0 then .error .divisionByZero else .ok (.int (x / y))
  | gt => .ok (.bool (x > y))
  | lt => .ok (.bool (x < y))
  | ge => .ok (.bool (x ≥ y))
  | eq => .ok (.bool (x == y))
  | and => .ok (.bool (x != 0 && y != 0))
  | or => .ok (.bool (x != 0 || y != 0))

/-- The operator on values. The logical ones take each side as a truth value. -/
def apply (op : Operator) (a b : Value) : Except EvalError Value :=
  match op with
  | and => .ok (.bool (a.toBool && b.toBool))
  | or => .ok (.bool (a.toBool || b.toBool))
  | _ =>
    if a.isFloat || b.isFloat then .ok (op.onFloats a.toFloat b.toFloat)
    else op.onInts a.toInt64 b.toInt64

end Operator

namespace Expr

/-- The highest slot that the expression reads. -/
def maxSlot? : Expr → Option Nat
  | input slot => some slot
  | const _ => none
  | binary _ lhs rhs => max lhs.maxSlot? rhs.maxSlot?
  | not e => e.maxSlot?
  | cast _ e => e.maxSlot?

/-- The value of the expression when slot `i` holds `slots[i]`. Both sides of an operator are
computed, the left one first. -/
def eval (slots : List Value) : Expr → Except EvalError Value
  | input slot =>
    match slots[slot]? with
    | some v => .ok v
    | none => .error (.unbound slot)
  | const v => .ok v
  | binary op lhs rhs => do
    let a ← lhs.eval slots
    let b ← rhs.eval slots
    op.apply a b
  | not e => return .bool !(← e.eval slots).toBool
  | cast kind e => return kind.convert (← e.eval slots)

end Expr

end StreamGauge
