import StreamGauge.Query.Expr

/-!
# Queries

A `Query` is a tree of operators over input streams. Each operator reads one or two sources: an
input, by its slot, or the elements that a nested query produces. `Query.arity` is the number of
inputs that it needs, `Query.check` says which queries can be run.
-/

namespace StreamGauge

/-- What a window computes of its elements. -/
inductive Reducer where
  | sum
  | count
  | average
  | variance
  /-- The number of elements behind a state of sum of squares, sum and count. -/
  | deviationState
deriving DecidableEq, Repr

namespace Reducer

/-- Whether a window without elements has a result. -/
def emitsEmpty : Reducer → Bool
  | sum | count => true
  | _ => false

/-- Whether the sum of a whole block can stand for its elements. -/
def foldsBlocks : Reducer → Bool
  | sum | count | average => true
  | _ => false

/-- The name in the text of a query. -/
def name : Reducer → String
  | sum => "sum"
  | count => "count"
  | average => "avg"
  | variance => "var"
  | deviationState => "stddev_state"

end Reducer

mutual

/-- Where an operator reads its elements. -/
inductive Source where
  | input (slot : Nat)
  | query (q : Query)

/-- A tree of operators. -/
inductive Query where
  /-- One element per source element, with the same span. -/
  | select (source : Source) (expr : Expr) (output : Kind)
  /-- The source elements of which the predicate holds. -/
  | filter (source : Source) (predicate : Expr)
  /-- One element per `period`, computed of the elements that stopped in the last `length`. -/
  | window (source : Source) (length period : Int) (reducer : Reducer) (output : Kind)
  /-- One element per overlap of a left and a right element. With `fill?` the join is outer: a
  span that only one side covers counts too, and `fill?` stands for the other side. -/
  | join (left right : Source) (expr : Expr) (fill? : Option Value) (output : Kind)

end

/-- A window emitted once per its own length. -/
def Query.tumbling (source : Source) (length : Int) (reducer : Reducer) (output : Kind) : Query :=
  .window source length length reducer output

mutual

/-- The inputs that the query needs: one more than the highest slot. -/
def Query.arity : Query → Nat
  | .select source _ _ => source.arity
  | .filter source _ => source.arity
  | .window source _ _ _ _ => source.arity
  | .join left right _ _ _ => max left.arity right.arity

@[inherit_doc Query.arity]
def Source.arity : Source → Nat
  | .input slot => slot + 1
  | .query q => q.arity

end

mutual

/-- The kind of the elements that the query produces of inputs of these kinds. -/
def Query.outputKind? (kinds : List Kind) : Query → Option Kind
  | .select _ _ output => some output
  | .filter source _ => source.outputKind? kinds
  | .window _ _ _ _ output => some output
  | .join _ _ _ _ output => some output

@[inherit_doc Query.outputKind?]
def Source.outputKind? (kinds : List Kind) : Source → Option Kind
  | .input slot => kinds[slot]?
  | .query q => q.outputKind? kinds

end

/-- Why a query cannot be run. -/
inductive QueryDefect where
  /-- A window or period that is not positive. -/
  | notPositive (window period : Int)
  /-- An expression reads a slot past those that its operator binds. -/
  | unboundSlot (expr : Expr) (slot bound : Nat)
  /-- A compiler has a reason of its own. -/
  | rejected (reason : String)

/-- An operator that binds `bound` slots takes expressions that read no other. -/
def Expr.checkSlots (e : Expr) (bound : Nat) : Except QueryDefect Unit :=
  match e.maxSlot? with
  | some slot => if bound ≤ slot then .error (.unboundSlot e slot bound) else .ok ()
  | none => .ok ()

mutual

/-- Checks every operator of the query, each before its sources. -/
def Query.check : Query → Except QueryDefect Unit
  | .select source expr _ => do
    expr.checkSlots 1
    source.check
  | .filter source predicate => do
    predicate.checkSlots 1
    source.check
  | .window source length period _ _ =>
    if length ≤ 0 ∨ period ≤ 0 then .error (.notPositive length period) else source.check
  | .join left right expr _ _ => do
    expr.checkSlots 2
    left.check
    right.check

@[inherit_doc Query.check]
def Source.check : Source → Except QueryDefect Unit
  | .input _ => .ok ()
  | .query q => q.check

end

end StreamGauge
