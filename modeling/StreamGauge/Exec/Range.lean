import StreamGauge.Region.View

/-!
# Range search

An element takes part in a run over `[start, stop)` if its span starts there. `startIndex` finds
the first element that starts at a time or later by halving, which presumes that starts do not
decrease; `rangeOf` is the two such searches of a range.
-/

namespace StreamGauge

/-- The first index from `lo` on where `p` fails, at most `hi`, if `p` holds of a prefix. -/
def partitionPoint (p : Nat → Bool) (lo hi : Nat) : Nat :=
  if lo < hi then
    let mid := lo + (hi - lo) / 2
    if p mid then partitionPoint p (mid + 1) hi else partitionPoint p lo mid
  else lo
termination_by hi - lo

/-- Whether element `i` starts before a time. -/
def startsBefore (elements : Array Element) (time : Int) (i : Nat) : Bool :=
  match elements[i]? with
  | some e => e.span.start < time
  | none => false

/-- The first element that starts at `time` or later. -/
def startIndex (elements : Array Element) (time : Int) : Nat :=
  partitionPoint (startsBefore elements time) 0 elements.size

/-- The elements that start in `[start, stop)`: from the first index up to the second. -/
def rangeOf (elements : Array Element) (start stop : Int) : Nat × Nat :=
  (startIndex elements start, startIndex elements stop)

/-- The elements that start in `[start, stop)`. -/
def elementsIn (elements : Array Element) (start stop : Int) : List Element :=
  let (first, last) := rangeOf elements start stop
  (elements.extract first last).toList

end StreamGauge
