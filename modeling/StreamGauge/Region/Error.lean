import StreamGauge.Scalar.Kind
import StreamGauge.Time.Span

/-!
# Region errors

What a region reports when it refuses to be allocated or to take a commit.
-/

namespace StreamGauge

/-- Which of the two kinds of a blocked region is meant. -/
inductive KindRole where
  | base
  | delta
deriving DecidableEq, Repr

def KindRole.name : KindRole → String
  | base => "base"
  | delta => "delta"

/-- Why no blocked region has a layout. -/
inductive LayoutError where
  | deltaNotNarrower (delta base : Kind)
  | blockSize (size : Nat)
  | policyStep
deriving DecidableEq, Repr

def LayoutError.message : LayoutError → String
  | deltaNotNarrower delta base => s!"delta kind {delta} must be narrower than base kind {base}"
  | blockSize size => s!"block size {size} out of range"
  | policyStep => "every-nth policy needs n > 0"

/-- Why a region refuses. -/
inductive RegionError where
  | full (capacity : Nat)
  | notAdvancing (time stop : Int)
  | invalidLayout (cause : LayoutError)
  | notInteger (role : KindRole) (kind : Kind)
  | blockOutOfOrder (expected found : Nat)
  | blocksExhausted (blockCount : Nat)
  | policyMismatch (block : Nat) (expected found : Bool)
  | payloadOverflow (needed available : Nat)
  | elementOutOfOrder (expected found : Nat)
  | blockNotCommitted (element block : Nat)
  | log (cause : LogError)
deriving DecidableEq, Repr

def RegionError.message : RegionError → String
  | full capacity => s!"region full: capacity {capacity}"
  | notAdvancing time stop => s!"timestamp {time} does not advance past region end {stop}"
  | invalidLayout cause => "invalid layout: " ++ cause.message
  | notInteger role kind => s!"{role.name} kind {kind} is not an integer kind"
  | blockOutOfOrder expected found => s!"block {found} committed out of order, expected {expected}"
  | blocksExhausted blockCount => s!"all {blockCount} blocks already committed"
  | policyMismatch block expected found =>
    s!"block {block}: policy expects compressed={expected}, commit used compressed={found}"
  | payloadOverflow needed available =>
    s!"payload overflow: block needs bytes up to {needed}, payload holds {available}"
  | elementOutOfOrder expected found =>
    s!"element {found} committed out of order, expected {expected}"
  | blockNotCommitted element block => s!"element {element} belongs to uncommitted block {block}"
  | log cause => cause.message

end StreamGauge
