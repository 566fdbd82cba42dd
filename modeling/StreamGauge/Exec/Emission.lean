import StreamGauge.Exec.Sequence
import StreamGauge.Query.Basic
import StreamGauge.Region.View

/-!
# Emissions

An operator turns elements into a sequence of emissions, without seeing the region that they go
to: an element with a span of its own, an element up to a time, a time that passes without an
element, or a halt. `play` hands them to a region one after the other and stops at the first one
that fails; what was committed before stays, and what would have followed is never computed.
-/

namespace StreamGauge

/-- What a run asked for that is not there. A checked query over well-formed inputs asks for none
of it, save a sum or a time that leaves 64 bits. -/
inductive Fault where
  /-- An expression reads a slot without a value. -/
  | unboundSlot (slot : Nat)
  /-- The query reads an input that was not given. -/
  | unboundInput (slot : Nat)
  /-- An element has no span, or no value within 64 bits. -/
  | unreadable
  /-- The elements of a block have no sum within 64 bits. -/
  | blockSum (block : Nat)
  /-- A time that a window needs is outside 64 bits. -/
  | time (time : Int)
  /-- No buffer can hold the output of a window with this period. -/
  | noBound (period : Int)
  /-- No buffer can hold so many elements. -/
  | noBuffer (elements : Nat)
  /-- A side of an outer join has elements in a range that ends before it starts. -/
  | invertedRange (start stop : Int)
deriving DecidableEq, Repr

/-- Why a run stops. -/
inductive ExecError where
  | missingInput (expected found : Nat)
  | divisionByZero
  | region (cause : RegionError)
  | fault (cause : Fault)
deriving DecidableEq, Repr

def ExecError.message : ExecError → String
  | missingInput expected found => s!"routine reads {expected} inputs, {found} provided"
  | divisionByZero => "integer division by zero"
  | region cause => cause.message
  | fault _ => "fault"

def EvalError.toExecError : EvalError → ExecError
  | divisionByZero => .divisionByZero
  | unbound slot => .fault (.unboundSlot slot)

/-- The value of an element. -/
def Element.read (e : Element) : Except ExecError Value :=
  match e.value? with
  | some v => .ok v
  | none => .error (.fault .unreadable)

/-- The value of an expression in a run. -/
def Expr.compute (e : Expr) (slots : List Value) : Except ExecError Value :=
  (e.eval slots).mapError (·.toExecError)

/-- One thing that an operator does to its output. -/
inductive Emission where
  /-- An element with its own span. -/
  | during (span : Span) (v : Value)
  /-- An element from the stop of the output up to a time. -/
  | upTo (time : Int) (v : Value)
  /-- No element up to a time. -/
  | pass (time : Int)
  /-- The run ends here. -/
  | halt (e : ExecError)

/-- The emission of a computed value. -/
def Emission.ofResult (emit : Value → Emission) : Except ExecError Value → Emission
  | .ok v => emit v
  | .error e => .halt e

namespace PlainRegion

/-- Stores the value of an element in the slot that its commit has answered. -/
def putCommitted (v : Value) :
    PlainRegion × Except RegionError Nat → PlainRegion × Except ExecError Unit
  | (r, .ok slot) => (r.put slot v, .ok ())
  | (r, .error e) => (r, .error (.region e))

/-- The region after an emission, and how that ended. -/
def accept (r : PlainRegion) : Emission → PlainRegion × Except ExecError Unit
  | .during span v => putCommitted v (r.commitWithPeriod span.stop span.length)
  | .upTo time v => putCommitted v (r.commit time)
  | .pass time =>
    let (r, ended) := r.pass time
    (r, ended.mapError .region)
  | .halt e => (r, .error e)

/-- The region after as many of the emissions as succeed, and how that ended. -/
def play : Sequence Emission → PlainRegion → PlainRegion × Except ExecError Unit
  | .nil, r => (r, .ok ())
  | .cons e rest, r =>
    match r.accept e with
    | (r, .ok ()) => play (rest ()) r
    | (r, .error x) => (r, .error x)

end PlainRegion

end StreamGauge
