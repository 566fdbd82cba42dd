import StreamGauge.Region.Blocked
import StreamGauge.Region.Plain

/-!
# Views

A `View` is a region of either layout, read as a sequence of elements. `View.elements?` lists the
committed elements with their spans and values; queries see nothing else of a region, but for the
whole-block sums of a blocked one.
-/

namespace StreamGauge

/-- A region of either layout, for reading. -/
inductive View where
  | plain (r : PlainRegion)
  | blocked (r : BlockedRegion)
deriving DecidableEq, Repr

/-- A committed element. It has no value if that leaves 64 bits. -/
structure Element where
  span : Span
  value? : Option Value
deriving DecidableEq, Repr

namespace View

/-- How many elements are committed. -/
def size : View → Nat
  | plain r => r.count
  | blocked r => r.count

/-- The kind of the elements; of a blocked region, that of its bases. -/
def kind : View → Kind
  | plain r => r.kind
  | blocked r => r.layout.base

/-- Whether the elements lie in blocks. -/
def isBlocked : View → Bool
  | plain _ => false
  | blocked _ => true

/-- The span of element `i`. -/
def span? : View → Nat → Option Span
  | plain r, i => r.span? i
  | blocked r, i => r.span? i

/-- The value of element `i`. -/
def value? : View → Nat → Option Value
  | plain r, i => r.value? i
  | blocked r, i => (r.value? i).map .int

/-- The committed elements in order, if each has a span. -/
def elements? (v : View) : Option (Array Element) :=
  (Array.range v.size).mapM fun i => (v.span? i).map (⟨·, v.value? i⟩)

end View

end StreamGauge
