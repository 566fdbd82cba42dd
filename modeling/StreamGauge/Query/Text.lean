import StreamGauge.Query.Basic

/-!
# The text of a query

A query is written as one line per operator and input, each source indented two spaces deeper
than the operator that reads it. Expressions are in brackets, and a constant shows its sort:
doubles always have a point or an exponent.
-/

namespace StreamGauge

/-- A constant of an expression. -/
def Value.constantText : Value → String
  | .float x => Decimal.Style.plan.textOfBits x.bits
  | v => v.text

/-- The text of an expression. -/
def Expr.text : Expr → String
  | .input slot => s!"${slot}"
  | .const v => v.constantText
  | .binary op lhs rhs => s!"({lhs.text} {op.symbol} {rhs.text})"
  | .not e => s!"!{e.text}"
  | .cast kind e => s!"{kind}({e.text})"

/-- A line at a depth of the tree. -/
def lineAt (depth : Nat) (text : String) : String :=
  String.ofList (List.replicate (2 * depth) ' ') ++ text ++ "\n"

mutual

/-- The lines of a query from a depth of the tree on. -/
def Query.textAt (depth : Nat) : Query → String
  | .select source expr output =>
    lineAt depth s!"select -> {output}: {expr.text}" ++ source.textAt (depth + 1)
  | .filter source predicate =>
    lineAt depth s!"where: {predicate.text}" ++ source.textAt (depth + 1)
  | .window source length period reducer output =>
    lineAt depth s!"window[{length}, every {period}] -> {output}: {reducer.name}" ++
      source.textAt (depth + 1)
  | .join left right expr fill? output =>
    lineAt depth (match fill? with
      | some fill => s!"outer join({fill.constantText}) -> {output}: {expr.text}"
      | none => s!"join -> {output}: {expr.text}") ++
      left.textAt (depth + 1) ++ right.textAt (depth + 1)

@[inherit_doc Query.textAt]
def Source.textAt (depth : Nat) : Source → String
  | .input slot => lineAt depth s!"input {slot}"
  | .query q => q.textAt depth

end

/-- The text of a query. -/
def Query.text (q : Query) : String := q.textAt 0

def QueryDefect.message : QueryDefect → String
  | notPositive window period => s!"window {window} and period {period} must be positive"
  | unboundSlot expr slot bound =>
    s!"expression {expr.text} reads ${slot}, operator binds {bound} input(s)"
  | rejected reason => reason

end StreamGauge
