import StreamGauge.Region.View

/-!
# Dumps

A dump shows the contents of a region as lines of text: its times and counts, then its elements.
The elements of a blocked region stand in one section per block, `BlockSection`, with what the
payload stores for them: the delta in a packed block, the value in a raw one.
-/

namespace StreamGauge

/-- Lines of text, each ended. -/
def textOfLines (lines : List String) : String :=
  String.join (lines.map (· ++ "\n"))

/-- The dump of a plain region, if every element can be read. -/
def PlainRegion.dumpLines? (r : PlainRegion) : Option (List String) := do
  let elements ← (List.range r.count).mapM fun i => do
    let span ← r.span? i
    let value ← r.value? i
    return s!"{span.start} {span.length} {value.text}"
  return ["Metadata:", s!"st: {r.start}", s!"et: {r.stop}", s!"head: {r.head}",
    s!"count: {r.count}"] ++ elements

/-- What a dump shows of one block. -/
structure BlockSection where
  index : Nat
  block : Block
  anchor : Span
  /-- The base of a packed block. -/
  base? : Option Int64
  /-- The committed elements of the block, each with its stored number. -/
  entries : List (OffsetSpan × Int64)
deriving DecidableEq, Repr

namespace BlockedRegion

/-- The number stored for element `i` of a block. -/
def stored? (r : BlockedRegion) (block : Block) (i : Nat) : Option Int64 :=
  if block.packed then r.delta? i else r.value? i

/-- The committed elements of block `k`. -/
def committedIn (r : BlockedRegion) (k : Nat) (block : Block) : List Nat :=
  let first := k * r.layout.blockSize
  List.range' first (min (first + block.length.toNat) r.count - first)

/-- The section of block `k`. -/
def section? (r : BlockedRegion) (k : Nat) (block : Block) : Option BlockSection := do
  let anchor ← r.anchor? k
  let base ← if block.packed then (r.base? k).map some else some none
  let entries ← (r.committedIn k block).mapM fun i => do
    return (← r.offsets.spans[i]?, ← r.stored? block i)
  return ⟨k, block, anchor, base, entries⟩

/-- The sections of all committed blocks. -/
def sections? (r : BlockedRegion) : Option (List BlockSection) :=
  r.blocks.toList.zipIdx.mapM fun (block, k) => r.section? k block

end BlockedRegion

/-- The lines of a section. -/
def BlockSection.lines (s : BlockSection) : List String :=
  [s!"Block {s.index}:", s!"start: {s.block.start}", s!"next_start: {s.block.next}",
    s!"Base: {s.anchor.start} {s.anchor.length}"] ++
  s.base?.toList.map (toString ·.toInt) ++
  ["Deltas:"] ++
  s.entries.map fun (span, stored) => s!"{span.offset} {span.length} {stored.toInt}"

/-- The dump of a blocked region, if everything in it can be read. -/
def BlockedRegion.dumpLines? (r : BlockedRegion) : Option (List String) := do
  let stop ← r.stop?
  let sections ← r.sections?
  return ["Metadata:", s!"st: {r.start}", s!"et: {stop}", s!"count: {r.count}",
    s!"blocks: {r.blocks.size}"] ++ sections.flatMap BlockSection.lines

/-- The text of the dump of a region. -/
def View.dump? : View → Option String
  | .plain r => r.dumpLines?.map textOfLines
  | .blocked r => r.dumpLines?.map textOfLines

end StreamGauge
