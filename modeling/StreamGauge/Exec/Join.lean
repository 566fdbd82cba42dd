import StreamGauge.Exec.Emission

/-!
# Joins

`innerJoin` emits one element per overlap of a left and a right element, going through both lists
at once: of two elements, the one that stops first overlaps nothing later, so it is left behind.
`outerJoin` cuts time at every start and stop of both sides and emits one element per piece that
at least one side covers, a fixed value standing for the other side.
-/

namespace StreamGauge

/-- The element of an expression over a left and a right value. -/
def joined (expr : Expr) (span : Span) (left right : Except ExecError Value) : Emission :=
  .ofResult (.during span) do
    let a ← left
    let b ← right
    expr.compute [a, b]

/-- One element per overlap of a left and a right element, in time order. -/
def innerJoin (expr : Expr) : List Element → List Element → Sequence Emission
  | a :: left, b :: right =>
    let lo := max a.span.start b.span.start
    let hi := min a.span.stop b.span.stop
    let here := if lo < hi then [joined expr (.between lo hi) a.read b.read] else []
    if a.span.stop ≤ b.span.stop then .append here fun _ => innerJoin expr left (b :: right)
    else .append here fun _ => innerJoin expr (a :: left) right
  | _, _ => .nil
termination_by left right => left.length + right.length

/-- The times where elements start or stop, in order, each once. -/
def cutsOf (elements : List Element) : List Int :=
  ((elements.flatMap fun e => [e.span.start, e.span.stop]).mergeSort (· ≤ ·)).eraseReps

/-- The first of the elements, if it covers the time after `time`. -/
def covering (elements : List Element) (time : Int) : Option Element :=
  elements.head?.filter (·.span.start ≤ time)

/-- The elements from the first one on that stops after `time`. -/
def stoppingAfter (elements : List Element) (time : Int) : List Element :=
  elements.dropWhile (·.span.stop ≤ time)

/-- The value of a side of an outer join. -/
def sideValue (fill : Value) : Option Element → Except ExecError Value
  | some e => e.read
  | none => .ok fill

/-- One element per piece of time that a side covers. The pieces come in order, so elements that
stop before one are not needed for the next. -/
def outerJoinPieces (expr : Expr) (fill : Value) :
    List (Int × Int) → List Element → List Element → Sequence Emission
  | [], _, _ => .nil
  | (lo, hi) :: pieces, left, right =>
    let left := stoppingAfter left lo
    let right := stoppingAfter right lo
    match covering left lo, covering right lo with
    | none, none => outerJoinPieces expr fill pieces left right
    | a, b =>
      .cons (joined expr (.between lo hi) (sideValue fill a) (sideValue fill b)) fun _ =>
        outerJoinPieces expr fill pieces left right

/-- One element per piece between two cuts that at least one side covers. -/
def outerJoin (expr : Expr) (fill : Value) (left right : List Element) : Sequence Emission :=
  let cuts := cutsOf (left ++ right)
  outerJoinPieces expr fill (cuts.zip cuts.tail) left right

end StreamGauge
