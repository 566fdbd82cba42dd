import StreamGauge.Exec.Run
import StreamGauge.Query.Text
import StreamGauge.Text.Literal

/-!
# Routines

A `Routine` is a query made callable. Each compilation makes a routine of its own, told apart by
its `serial`: two routines are the same if one compilation made both. A `Backend` makes routines;
`Backend.interpreter` makes those that run the query as it stands.

The symbol of a query is made of a hash of its text. Which hash that is, is left to whoever runs the
program (`TextHash`).
-/

namespace StreamGauge

/-- Why there is no routine. -/
inductive CompileError where
  | invalidQuery (cause : QueryDefect)
  | symbolNotFound (name : String)

def CompileError.message : CompileError → String
  | invalidQuery cause => "invalid query: " ++ cause.message
  | symbolNotFound name => "symbol not found: " ++ name

/-- What a call does to its output. -/
abbrev RoutineBody :=
  List View → (start stop : Int) → PlainRegion → PlainRegion × Except ExecError Unit

/-- A query made callable. -/
structure Routine where
  /-- The compilation that made it. -/
  serial : Nat
  name : String
  /-- The inputs that it reads. -/
  arity : Nat
  body : RoutineBody

namespace Routine

/-- Runs the routine over `[start, stop)` into `output`, if there are enough inputs. -/
def call (r : Routine) (inputs : List View) (start stop : Int) (output : PlainRegion) :
    PlainRegion × Except ExecError Unit :=
  if inputs.length < r.arity then (output, .error (.missingInput r.arity inputs.length))
  else r.body inputs start stop output

/-- Whether one compilation made both. -/
def isSame (a b : Routine) : Bool := a.serial == b.serial

/-- The routine as diagnostics show it. -/
def description (r : Routine) : String :=
  "CompiledRoutine \x7b name: " ++ literal r.name ++ s!", arity: {r.arity}, .. \x7d"

end Routine

/-- The 64-bit hash of a text that symbols are made of. Nothing is presumed of it. -/
class TextHash where
  hash : String → UInt64

/-- The hash of a text. -/
def textHash [TextHash] (s : String) : UInt64 := TextHash.hash s

/-- The symbol of a query: queries of the same text have the same one. -/
def Query.symbol [TextHash] (q : Query) : String := "query_" ++ hexText 16 (textHash q.text).toNat

/-- Makes routines. The number is the serial of the compilation. -/
abbrev Backend := Nat → Query → Except CompileError Routine

/-- Refuses a query with a defect; any other becomes the routine that runs it. -/
def Backend.interpreter [TextHash] : Backend := fun serial q =>
  match q.check with
  | .error defect => .error (.invalidQuery defect)
  | .ok () => .ok ⟨serial, q.symbol, q.arity, q.run⟩

end StreamGauge
