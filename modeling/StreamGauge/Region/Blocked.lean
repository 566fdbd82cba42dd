import StreamGauge.Region.Layout
import StreamGauge.Scalar.Codec

/-!
# Blocked regions

A `BlockedRegion` fills the blocks of a fixed `Layout`. Blocks are committed in order, each with
an anchor in time and the packing that the policy asks for; elements are committed in order, each
with a span relative to the anchor of its block. Values are written at any time into a committed
block: its base, the delta of an element, or the whole value of an element of a raw block.

Reads and writes have no result where there is no block, where the block is of the other sort, or
where a sum leaves 64 bits.
-/

namespace StreamGauge

/-- The sum, if it is a 64-bit integer. -/
def addWithin (a b : Int64) : Option Int64 :=
  let sum := a.toInt + b.toInt
  if minInt64 ≤ sum ∧ sum ≤ maxInt64 then some (Int64.ofInt sum) else none

/-- The product, if it is a 64-bit integer. -/
def mulWithin (a b : Int64) : Option Int64 :=
  let product := a.toInt * b.toInt
  if minInt64 ≤ product ∧ product ≤ maxInt64 then some (Int64.ofInt product) else none

/-- Elements in blocks of a base and deltas. -/
structure BlockedRegion where
  layout : Layout
  /-- The committed elements. -/
  count : Nat
  blocks : Array Block
  anchors : SpanLog
  offsets : OffsetLog
  payload : Bytes
deriving DecidableEq, Repr

namespace BlockedRegion

/-- A region without blocks. -/
def allocate (layout : Layout) : Except RegionError BlockedRegion := do
  layout.check
  return {
    layout := layout
    count := 0
    blocks := #[]
    anchors := .empty layout.blockCount
    offsets := .empty layout.length
    payload := .zeroed layout.payloadBytes }

/-- Where the next block begins in the payload: where the last one ends. -/
def nextStart (r : BlockedRegion) : Nat := (r.blocks.back?.map (·.next)).getD 0

/-- Block `k` as the next one. -/
def nextBlock (r : BlockedRegion) (k : Nat) (packed : Bool) : Block :=
  let n := r.layout.elementsIn k
  ⟨r.nextStart, r.nextStart + blockBytes r.layout.base r.layout.delta n packed, UInt32.ofNat n,
    packed⟩

/-- Adds a block, if the log takes its anchor. -/
def logBlock (r : BlockedRegion) (anchor : Span) (block : Block) :
    BlockedRegion × Except RegionError Block :=
  -- Taken apart, the region does not share the log that grows.
  let ⟨layout, count, blocks, anchors, offsets, payload⟩ := r
  match anchors.push anchor with
  | (anchors, .error e) => (⟨layout, count, blocks, anchors, offsets, payload⟩, .error (.log e))
  | (anchors, .ok _) => (⟨layout, count, blocks.push block, anchors, offsets, payload⟩, .ok block)

/-- Commits block `k`, whose base is still to be stored. It is refused if there are no further
blocks, if it is not the next one, if the policy asks for the other packing, if the payload is too
short, or if the log refuses the anchor. -/
def commitBlock (r : BlockedRegion) (k : Nat) (anchor : Span) (packed : Bool) :
    BlockedRegion × Except RegionError Block :=
  let block := r.nextBlock k packed
  if r.blocks.size = r.layout.blockCount then
    (r, .error (.blocksExhausted r.layout.blockCount))
  else if k ≠ r.blocks.size then (r, .error (.blockOutOfOrder r.blocks.size k))
  else if packed ≠ r.layout.policy.packs k then
    (r, .error (.policyMismatch k (r.layout.policy.packs k) packed))
  else if r.payload.size < block.next then
    (r, .error (.payloadOverflow block.next r.payload.size))
  else r.logBlock anchor block

/-- Adds an element, if the log takes its span. -/
def logElement (r : BlockedRegion) (span : OffsetSpan) : BlockedRegion × Except RegionError Unit :=
  -- As for a block, so that each element does not copy the log.
  let ⟨layout, count, blocks, anchors, offsets, payload⟩ := r
  match offsets.push span with
  | (offsets, .error e) => (⟨layout, count, blocks, anchors, offsets, payload⟩, .error (.log e))
  | (offsets, .ok _) => (⟨layout, count + 1, blocks, anchors, offsets, payload⟩, .ok ())

/-- Commits element `i`, whose value is still to be stored. It is refused if it is not the next one,
if its block is not committed, or if the log is full. -/
def commitElement (r : BlockedRegion) (i : Nat) (span : OffsetSpan) :
    BlockedRegion × Except RegionError Unit :=
  if i ≠ r.count then (r, .error (.elementOutOfOrder r.count i))
  else if r.blocks.size ≤ r.layout.blockOf i then
    (r, .error (.blockNotCommitted i (r.layout.blockOf i)))
  else r.logElement span

/-! ## Where values lie -/

/-- The block of element `i` and the offset of its delta or value in the payload. -/
def place? (r : BlockedRegion) (i : Nat) : Option (Block × Nat) :=
  r.blocks[r.layout.blockOf i]?.map fun block =>
    let j := i % r.layout.blockSize
    if block.packed then
      (block, block.start + r.layout.base.size + j * r.layout.delta.size)
    else (block, block.start + j * r.layout.base.size)

/-- The offset of the base of packed block `k`. -/
def basePlace? (r : BlockedRegion) (k : Nat) : Option Nat :=
  (r.blocks[k]?.filter (·.packed)).map (·.start)

/-- The offset of the delta of element `i`, which must lie in a packed block. -/
def deltaPlace? (r : BlockedRegion) (i : Nat) : Option Nat :=
  ((r.place? i).filter (·.1.packed)).map (·.2)

/-- The offset of the value of element `i`, which must lie in a raw block. -/
def rawPlace? (r : BlockedRegion) (i : Nat) : Option Nat :=
  ((r.place? i).filter (!·.1.packed)).map (·.2)

/-! ## Writing -/

/-- Stores an integer of some kind at an offset of the payload. -/
def writeInt? (r : BlockedRegion) (kind : Kind) (offset : Nat) (v : Int64) :
    Option BlockedRegion :=
  (r.payload.writeValue? kind offset (.int v)).map ({ r with payload := · })

/-- Stores the base of packed block `k`. -/
def writeBase? (r : BlockedRegion) (k : Nat) (v : Int64) : Option BlockedRegion :=
  (r.basePlace? k).bind (r.writeInt? r.layout.base · v)

/-- Stores the delta of element `i` of a packed block. -/
def writeDelta? (r : BlockedRegion) (i : Nat) (v : Int64) : Option BlockedRegion :=
  (r.deltaPlace? i).bind (r.writeInt? r.layout.delta · v)

/-- Stores the value of element `i` of a raw block. -/
def writeRaw? (r : BlockedRegion) (i : Nat) (v : Int64) : Option BlockedRegion :=
  (r.rawPlace? i).bind (r.writeInt? r.layout.base · v)

/-- Stores an integer of some kind, if there is a place for it. -/
def putInt (r : BlockedRegion) (kind : Kind) (place? : Option Nat) (v : Int64) : BlockedRegion :=
  match place? with
  | some offset => { r with payload := r.payload.put offset (kind.encode (.int v)) }
  | none => r

/-- Stores the base of packed block `k`; in a raw block, or without one, nothing is stored. -/
def putBase (r : BlockedRegion) (k : Nat) (v : Int64) : BlockedRegion :=
  r.putInt r.layout.base (r.basePlace? k) v

/-- Stores element `i`: in a packed block its delta, in a raw one its value. -/
def putElement (r : BlockedRegion) (i : Nat) (delta value : Int64) : BlockedRegion :=
  match r.place? i with
  | none => r
  | some (block, offset) =>
    if block.packed then r.putInt r.layout.delta (some offset) delta
    else r.putInt r.layout.base (some offset) value

/-! ## Reading -/

/-- The bytes of the base of packed block `k`. -/
def baseBytes? (r : BlockedRegion) (k : Nat) : Option (List UInt8) :=
  (r.basePlace? k).bind (r.payload.read? · r.layout.base.size)

/-- The bytes of the delta of element `i` of a packed block. -/
def deltaBytes? (r : BlockedRegion) (i : Nat) : Option (List UInt8) :=
  (r.deltaPlace? i).bind (r.payload.read? · r.layout.delta.size)

/-- The bytes of the value of element `i` of a raw block. -/
def rawBytes? (r : BlockedRegion) (i : Nat) : Option (List UInt8) :=
  (r.rawPlace? i).bind (r.payload.read? · r.layout.base.size)

/-- The integer of some kind at an offset of the payload. -/
def readInt? (r : BlockedRegion) (kind : Kind) (offset : Nat) : Option Int64 :=
  (r.payload.readValue? kind offset).map (·.toInt64)

/-- The integer of the base's width where block `k` begins. -/
def base? (r : BlockedRegion) (k : Nat) : Option Int64 :=
  r.blocks[k]?.bind fun block => r.readInt? r.layout.base block.start

/-- The integer of the delta's width at the place of element `i`. -/
def delta? (r : BlockedRegion) (i : Nat) : Option Int64 :=
  (r.place? i).bind fun (_, offset) => r.readInt? r.layout.delta offset

/-- The value of element `i`: base plus delta in a packed block, the stored value in a raw one. -/
def value? (r : BlockedRegion) (i : Nat) : Option Int64 := do
  let (block, offset) ← r.place? i
  if block.packed then
    addWithin (← r.readInt? r.layout.base block.start) (← r.readInt? r.layout.delta offset)
  else r.readInt? r.layout.base offset

/-- The sum of some numbers, each read as it is needed, as long as it stays within 64 bits. -/
def sumWithin (read? : Nat → Option Int64) : List Nat → Int64 → Option Int64
  | [], sum => some sum
  | i :: rest, sum => do sumWithin read? rest (← addWithin sum (← read? i))

/-- The sum of the elements of block `k`: of a packed block, the base times the number of elements
plus the sum of the deltas. -/
def blockSum? (r : BlockedRegion) (k : Nat) : Option Int64 := do
  let block ← r.blocks[k]?
  let n := block.length.toNat
  let indices := List.range' (k * r.layout.blockSize) n
  if block.packed then
    let deltas ← sumWithin r.delta? indices 0
    addWithin (← mulWithin (← r.base? k) (Int64.ofNat n)) deltas
  else sumWithin r.value? indices 0

/-- The span of element `i`. -/
def span? (r : BlockedRegion) (i : Nat) : Option Span := do
  let offset ← r.offsets.spans[i]?
  let anchor ← r.anchors.spans[r.layout.blockOf i]?
  return offset.resolve anchor

/-- The anchor of block `k`. -/
def anchor? (r : BlockedRegion) (k : Nat) : Option Span := r.anchors.spans[k]?

/-- The start of the first anchor, `0` before any block. -/
def start (r : BlockedRegion) : Int := (r.anchors.spans[0]?.map (·.start)).getD 0

/-- The stop of the last element; before any element, the start. -/
def stop? (r : BlockedRegion) : Option Int :=
  if r.count = 0 then some r.start else (r.span? (r.count - 1)).map (·.stop)

/-- Bytes of the buffers at full capacity: the payload, the blocks and both logs. -/
def footprint (r : BlockedRegion) : Nat :=
  r.payload.size + Layout.blockEntryBytes * r.layout.blockCount +
    SpanLog.entryBytes * r.anchors.capacity + OffsetLog.entryBytes * r.offsets.capacity

end BlockedRegion

end StreamGauge
