import StreamGauge.Scalar.Codec

/-!
# Slot buffers

A `SlotBuffer` stores elements of one kind side by side: slot `i` is the bytes from `i * size` on.
Reads and writes of a slot that is not there have no result.
-/

namespace StreamGauge

/-- A buffer of one kind accessed as another. -/
structure KindMismatch where
  held : Kind
  used : Kind
deriving DecidableEq, Repr

def KindMismatch.message (e : KindMismatch) : String :=
  s!"kind mismatch: buffer holds {e.held}, access used {e.used}"

/-- `capacity` slots for elements of `kind`. -/
structure SlotBuffer where
  kind : Kind
  capacity : Nat
  bytes : Bytes
deriving DecidableEq, Repr

namespace SlotBuffer

/-- A buffer of zero bytes. -/
def zeroed (kind : Kind) (capacity : Nat) : SlotBuffer :=
  ⟨kind, capacity, Bytes.zeroed (capacity * kind.size)⟩

/-- Whether the buffer holds elements of `kind`. -/
def checkKind (b : SlotBuffer) (kind : Kind) : Except KindMismatch Unit :=
  if kind = b.kind then .ok () else .error ⟨b.kind, kind⟩

/-- Where slot `i` begins. -/
def offset (b : SlotBuffer) (i : Nat) : Nat := i * b.kind.size

/-- The slot after `head`; after the last one comes the first. -/
def next (b : SlotBuffer) (head : Int) : Nat := (head + 1).toNat % b.capacity

/-- The bytes of slot `i`. -/
def slot? (b : SlotBuffer) (i : Nat) : Option (List UInt8) :=
  b.bytes.read? (b.offset i) b.kind.size

/-- Puts all the bytes of slot `i`. -/
def setSlot? (b : SlotBuffer) (i : Nat) (bytes : List UInt8) : Option SlotBuffer :=
  if bytes.length = b.kind.size then
    (b.bytes.write? (b.offset i) bytes).map ({ b with bytes := · })
  else none

/-- The element in slot `i`. -/
def read? (b : SlotBuffer) (i : Nat) : Option Value :=
  b.bytes.readValue? b.kind (b.offset i)

/-- Stores a value in slot `i`, converted to the kind of the buffer. -/
def write? (b : SlotBuffer) (i : Nat) (v : Value) : Option SlotBuffer :=
  (b.bytes.writeValue? b.kind (b.offset i) v).map ({ b with bytes := · })

/-- Stores a value in slot `i`; without such a slot nothing is stored. -/
def put (b : SlotBuffer) (i : Nat) (v : Value) : SlotBuffer :=
  { b with bytes := b.bytes.put (b.offset i) (b.kind.encode v) }

end SlotBuffer

end StreamGauge
