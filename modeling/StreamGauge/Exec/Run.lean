import StreamGauge.Exec.Join
import StreamGauge.Exec.Pointwise
import StreamGauge.Exec.Window

/-!
# Running a query

`Query.run` evaluates a query over the times `[start, stop)` into an output region. A nested query
is run first, into a region of its own that begins at `start` and has room for `Query.bound`
elements; the operator then reads that region.
-/

namespace StreamGauge

/-- The input in a slot. -/
def inputAt (inputs : List View) (slot : Nat) : Except ExecError View :=
  match inputs[slot]? with
  | some v => .ok v
  | none => .error (.fault (.unboundInput slot))

/-- The most ticks in a range, and one more. The length of the range has to be within 64 bits. The
quotient is cut toward zero; a period of zero or one that makes it negative has no bound. -/
def tickBound (start stop period : Int) : Except ExecError Nat :=
  let quotient := (max (stop - start) 0).tdiv period
  if !isInt64 (stop - start) then .error (.fault (.time (stop - start)))
  else if period = 0 ∨ quotient < 0 then .error (.fault (.noBound period))
  else .ok (quotient.toNat + 1)

mutual

/-- The most elements that the query produces. -/
def Query.bound (inputs : List View) (start stop : Int) : Query → Except ExecError Nat
  | .select source _ _ => source.bound inputs start stop
  | .filter source _ => source.bound inputs start stop
  | .window _ _ period _ _ => tickBound start stop period
  | .join left right _ fill? _ => do
    let n := (← left.bound inputs start stop) + (← right.bound inputs start stop)
    return if fill?.isSome then 2 * n else n

@[inherit_doc Query.bound]
def Source.bound (inputs : List View) (start stop : Int) : Source → Except ExecError Nat
  | .input slot => return (← inputAt inputs slot).size
  | .query q => q.bound inputs start stop

end

/-- The emissions of an outer join over a range. -/
def outerJoinIn (expr : Expr) (fill : Value) (left right : Feed) (start stop : Int) :
    Sequence Emission :=
  let (leftFirst, leftLast) := rangeOf left.elements start stop
  let (rightFirst, rightLast) := rangeOf right.elements start stop
  if leftLast < leftFirst ∨ rightLast < rightFirst then
    .ofList [.halt (.fault (.invertedRange start stop))]
  else
    outerJoin expr fill (elementsIn left.elements start stop)
      (elementsIn right.elements start stop)

/-- The region of a nested query. -/
def scratch (kind : Kind) (capacity : Nat) (start : Int) : Except ExecError PlainRegion :=
  match PlainRegion.allocate? kind capacity start with
  | some r => .ok r
  | none => .error (.fault (.noBuffer capacity))

mutual

/-- What the query does to its output. -/
def Query.emissions (inputs : List View) (start stop : Int) :
    Query → Except ExecError (Sequence Emission)
  | .select source expr _ => do
    let f ← source.feed inputs start stop
    return StreamGauge.select expr (elementsIn f.elements start stop)
  | .filter source predicate => do
    let f ← source.feed inputs start stop
    return StreamGauge.filter predicate (elementsIn f.elements start stop)
  | .window source length period reducer _ => do
    let f ← source.feed inputs start stop
    return StreamGauge.window length period reducer f start stop
  | .join left right expr fill? _ => do
    let l ← left.feed inputs start stop
    let r ← right.feed inputs start stop
    match fill? with
    | some fill => return outerJoinIn expr fill l r start stop
    | none =>
      return innerJoin expr (elementsIn l.elements start stop) (elementsIn r.elements start stop)

/-- The elements of a source: of an input, all of them; of a nested query, those that it
produces. -/
def Source.feed (inputs : List View) (start stop : Int) : Source → Except ExecError Feed
  | .input slot => do Feed.ofView (← inputAt inputs slot)
  | .query q =>
    match q.outputKind? (inputs.map (·.kind)) with
    | none => .error (.missingInput q.arity inputs.length)
    | some kind => do
      let region ← scratch kind (← q.bound inputs start stop) start
      let (region, ended) := region.play (← q.emissions inputs start stop)
      ended
      Feed.ofView (.plain region)

end

/-- Evaluates the query over `[start, stop)` into `output`. -/
def Query.run (q : Query) (inputs : List View) (start stop : Int) (output : PlainRegion) :
    PlainRegion × Except ExecError Unit :=
  match q.emissions inputs start stop with
  | .ok emissions => output.play emissions
  | .error e => (output, .error e)

end StreamGauge
