import StreamGauge.Region.Error

/-!
# Block layout

The elements of a blocked region are grouped into blocks that lie one after the other in one
payload. A packed block stores a base followed by one narrow delta per element; a raw block stores
every element at the width of the base. A `PackingPolicy` says which blocks are packed, and a
`Layout` fixes everything that depends on the sizes alone: how many blocks there are, how many
elements each one has, and how many bytes it takes.
-/

namespace StreamGauge

/-- Which blocks are packed. -/
inductive PackingPolicy where
  | always
  | never
  /-- The blocks whose index is a multiple of `n`. -/
  | everyNth (n : Nat)
deriving DecidableEq, Repr

/-- Whether block `k` is packed. -/
def PackingPolicy.packs : PackingPolicy → Nat → Bool
  | always, _ => true
  | never, _ => false
  | everyNth n, k => n != 0 && k % n == 0

/-- Bytes of a block of `n` elements. -/
def blockBytes (base delta : Kind) (n : Nat) (packed : Bool) : Nat :=
  if packed then base.size + n * delta.size else n * base.size

/-- The sizes of a blocked region. -/
structure Layout where
  base : Kind
  delta : Kind
  /-- Elements in the whole region. -/
  length : Nat
  /-- Elements in a full block. -/
  blockSize : Nat
  policy : PackingPolicy
deriving DecidableEq, Repr

namespace Layout

/-- Refuses a layout with a floating point kind, a delta that is not narrower than its base, a
block size of zero or past 32 bits, or a policy step of zero; the first of these is reported. -/
def check (l : Layout) : Except RegionError Unit :=
  if !l.base.isInteger then .error (.notInteger .base l.base)
  else if !l.delta.isInteger then .error (.notInteger .delta l.delta)
  else if l.base.size ≤ l.delta.size then .error (.invalidLayout (.deltaNotNarrower l.delta l.base))
  else if l.blockSize = 0 ∨ UInt32.size ≤ l.blockSize then
    .error (.invalidLayout (.blockSize l.blockSize))
  else if l.policy = .everyNth 0 then .error (.invalidLayout .policyStep)
  else .ok ()

/-- How many blocks hold the elements; the last one may be short. -/
def blockCount (l : Layout) : Nat := (l.length + l.blockSize - 1) / l.blockSize

/-- Elements in block `k`. -/
def elementsIn (l : Layout) (k : Nat) : Nat :=
  if k * l.blockSize + l.blockSize ≤ l.length then l.blockSize else l.length - k * l.blockSize

/-- Blocks without room for another element. -/
def fullBlocks (l : Layout) : Nat := l.length / l.blockSize

/-- Elements in the short block at the end. -/
def leftover (l : Layout) : Nat := l.length % l.blockSize

/-- The block of element `i`. -/
def blockOf (l : Layout) (i : Nat) : Nat := i / l.blockSize

/-- Bytes of block `k`. -/
def bytesOf (l : Layout) (k : Nat) : Nat :=
  blockBytes l.base l.delta (l.elementsIn k) (l.policy.packs k)

/-- Bytes that describe a block beside its payload: three 64-bit numbers. -/
def blockEntryBytes : Nat := 24

/-- Whether there can be buffers for the spans and the blocks of so many elements. -/
def fits (l : Layout) : Bool :=
  OffsetLog.fits l.length && l.blockCount * blockEntryBytes ≤ maxBufferBytes

/-- Bytes of all the blocks. -/
def payloadBytes (l : Layout) : Nat := (List.range l.blockCount).foldr (l.bytesOf · + ·) 0

end Layout

/-- Where a committed block lies in the payload. -/
structure Block where
  /-- The offset of its first byte. -/
  start : Nat
  /-- The offset of the block after it. -/
  next : Nat
  /-- How many elements it has. -/
  length : UInt32
  packed : Bool
deriving DecidableEq, Repr

/-- Bytes of the block. -/
def Block.bytes (b : Block) : Nat := b.next - b.start

end StreamGauge
