import StreamGauge.Exec.Emission

/-!
# Select and filter

Both go through the elements of a source one by one and keep their spans. `select` computes a new
value for each; `filter` keeps the values of which a predicate holds and lets the time of the
others pass.
-/

namespace StreamGauge

/-- One element per source element, with the value of an expression. -/
def select (expr : Expr) (elements : List Element) : Sequence Emission :=
  .mapList (fun e => .ofResult (.during e.span) do expr.compute [← e.read]) elements

/-- What a filter does with an element. -/
def filterOne (predicate : Expr) (e : Element) : Emission :=
  match e.read with
  | .error x => .halt x
  | .ok v =>
    match predicate.compute [v] with
    | .error x => .halt x
    | .ok keep => if keep.toBool then .during e.span v else .pass e.span.stop

/-- The elements of which the predicate holds. -/
def filter (predicate : Expr) (elements : List Element) : Sequence Emission :=
  .mapList (filterOne predicate) elements

end StreamGauge
