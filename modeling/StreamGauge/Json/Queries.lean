import StreamGauge.Json.Scalars
import StreamGauge.Query.Basic

/-!
# JSON forms of expressions and queries
-/

namespace StreamGauge

open JsonTree

/-- The name of an operator in a document. -/
def Operator.jsonName : Operator → String
  | .add => "Add"
  | .sub => "Sub"
  | .mul => "Mul"
  | .div => "Div"
  | .gt => "Gt"
  | .lt => "Lt"
  | .ge => "Ge"
  | .eq => "Eq"
  | .and => "And"
  | .or => "Or"

instance : JsonForm Operator :=
  .ofNames Operator.jsonName (Operator.all.map fun op => (op.jsonName, op))

/-- Writes an expression. -/
def Expr.json : Expr → String
  | .input slot => jsonCase "Input" (JsonForm.write slot)
  | .const v => jsonCase "Const" (JsonForm.write v)
  | .binary op lhs rhs => jsonCase "Binary" (jsonArray [JsonForm.write op, lhs.json, rhs.json])
  | .not e => jsonCase "Not" e.json
  | .cast kind e => jsonCase "Cast" (jsonArray [JsonForm.write kind, e.json])

/-- Reads an expression. Each level of it takes at least one container. -/
def Expr.ofJson? : (room : Nat) → JsonTree → Option Expr
  | room + 1, .object [(some "Input", t)] => (JsonForm.read? room t).map .input
  | room + 1, .object [(some "Const", t)] => (JsonForm.read? room t).map .const
  | room + 2, .object [(some "Binary", .array [op, lhs, rhs])] => do
    return .binary (← JsonForm.read? room op) (← ofJson? room lhs) (← ofJson? room rhs)
  | room + 1, .object [(some "Not", t)] => (ofJson? room t).map .not
  | room + 2, .object [(some "Cast", .array [kind, t])] => do
    return .cast (← JsonForm.read? room kind) (← ofJson? room t)
  | _, _ => none

instance : JsonForm Expr := ⟨Expr.json, Expr.ofJson?⟩

/-- The name of a reducer in a document. -/
def Reducer.jsonName : Reducer → String
  | .sum => "sum"
  | .count => "count"
  | .average => "average"
  | .variance => "variance"
  | .deviationState => "std_dev_state"

/-- Every reducer. -/
def Reducer.all : List Reducer := [.sum, .count, .average, .variance, .deviationState]

instance : JsonForm Reducer :=
  .ofNames Reducer.jsonName (Reducer.all.map fun r => (r.jsonName, r))

mutual

/-- Writes a query. -/
def Query.json : Query → String
  | .select source expr output => jsonCase "Select" <| jsonObject
      [("source", source.json), ("expr", JsonForm.write expr), ("output", JsonForm.write output)]
  | .filter source predicate => jsonCase "Where" <| jsonObject
      [("source", source.json), ("predicate", JsonForm.write predicate)]
  | .window source length period reducer output => jsonCase "WindowReduce" <| jsonObject
      [("source", source.json), ("window", JsonForm.write length),
        ("period", JsonForm.write period), ("reducer", JsonForm.write reducer),
        ("output", JsonForm.write output)]
  | .join left right expr fill? output => jsonCase "Join" <| jsonObject
      [("left", left.json), ("right", right.json), ("expr", JsonForm.write expr),
        ("fill", JsonForm.write fill?), ("output", JsonForm.write output)]

@[inherit_doc Query.json]
def Source.json : Source → String
  | .input slot => jsonCase "Input" (JsonForm.write slot)
  | .query q => jsonCase "Query" q.json

end

mutual

/-- Reads a query. Each level of it takes at least one container. -/
def Query.ofJson? : (room : Nat) → JsonTree → Option Query
  | room + 2, .object [(some name, content)] =>
    match name with
    | "Select" => do
      let (values, _) ← content.record? plainRecord ["source", "expr", "output"] (room + 1)
      match values with
      | [some source, some expr, some output] =>
        return .select (← Source.ofJson? room source) (← JsonForm.read? room expr)
          (← JsonForm.read? room output)
      | _ => none
    | "Where" => do
      let (values, _) ← content.record? plainRecord ["source", "predicate"] (room + 1)
      match values with
      | [some source, some predicate] =>
        return .filter (← Source.ofJson? room source) (← JsonForm.read? room predicate)
      | _ => none
    | "WindowReduce" => do
      let names := ["source", "window", "period", "reducer", "output"]
      let (values, _) ← content.record? plainRecord names (room + 1)
      match values with
      | [some source, some length, some period, some reducer, some output] =>
        return .window (← Source.ofJson? room source) (← JsonForm.read? room length)
          (← JsonForm.read? room period) (← JsonForm.read? room reducer)
          (← JsonForm.read? room output)
      | _ => none
    | "Join" => do
      let names := ["left", "right", "expr", "fill", "output"]
      let (values, _) ← content.record? plainRecord names (room + 1)
      match values with
      | [some left, some right, some expr, fill?, some output] =>
        return .join (← Source.ofJson? room left) (← Source.ofJson? room right)
          (← JsonForm.read? room expr) (← JsonForm.read? room (fill?.getD .null))
          (← JsonForm.read? room output)
      | _ => none
    | _ => none
  | _, _ => none

@[inherit_doc Query.ofJson?]
def Source.ofJson? : (room : Nat) → JsonTree → Option Source
  | room + 1, .object [(some "Input", t)] => (JsonForm.read? room t).map .input
  | room + 1, .object [(some "Query", t)] => (Query.ofJson? room t).map .query
  | _, _ => none

end

instance : JsonForm Query := ⟨Query.json, Query.ofJson?⟩

instance : JsonForm Source := ⟨Source.json, Source.ofJson?⟩

end StreamGauge
