import StreamGauge.Region.Error
import StreamGauge.Region.SlotBuffer

/-!
# Plain regions

A `PlainRegion` keeps one slot per element. A writer commits an element, which gives it the next
slot and a span of time, and then stores its value there. Spans follow each other without
overlapping: the region's `stop` is the time of the last commit, and no commit goes behind it.

* `commit` lets the element begin where the region stops;
* `commitWithPeriod` gives the element a length and leaves the time before it empty;
* `pass` only moves the stop.

Each of them answers the region together with how it ended.
-/

namespace StreamGauge

/-- The least power of two that is at least `n`. -/
def leastPowerOfTwo (n : Nat) : Nat :=
  if n ≤ 1 then 1 else twoTo ((n - 1).log2 + 1)

/-- The slots of a region that expects `expected` elements: a power of two, so that slot numbers
wrap by masking. -/
def slotCapacity (expected : Nat) : Nat := leastPowerOfTwo expected

/-- Elements in slots, with their spans. -/
structure PlainRegion where
  start : Int
  stop : Int
  /-- The slot written last, `-1` before the first commit. -/
  head : Int
  /-- The committed elements. -/
  count : Nat
  log : SpanLog
  slots : SlotBuffer
deriving DecidableEq, Repr

namespace PlainRegion

/-- A region without elements that begins at `start`. -/
def allocate (kind : Kind) (expected : Nat) (start : Int) : PlainRegion where
  start := start
  stop := start
  head := -1
  count := 0
  log := .empty (slotCapacity expected)
  slots := .zeroed kind (slotCapacity expected)

/-- A region without elements, if there are buffers for as many as it expects. The log has the
longest one. -/
def allocate? (kind : Kind) (expected : Nat) (start : Int) : Option PlainRegion :=
  if SpanLog.fits (slotCapacity expected) then some (allocate kind expected start) else none

/-- The kind of the elements. -/
def kind (r : PlainRegion) : Kind := r.slots.kind

/-- How many elements fit. -/
def capacity (r : PlainRegion) : Nat := r.slots.capacity

/-- The index of the last element, `-1` when there is none. -/
def lastIndex (r : PlainRegion) : Int := r.count - 1

/-- The slot of the next element. -/
def nextSlot (r : PlainRegion) : Nat := r.slots.next r.head

/-- Gives an element the next slot, if the log takes its span. -/
def logSpan (r : PlainRegion) (span : Span) : PlainRegion × Except RegionError Nat :=
  -- Taken apart, the region does not share the log that grows.
  let ⟨start, stop, head, count, log, slots⟩ := r
  match log.push span with
  | (log, .error e) => (⟨start, stop, head, count, log, slots⟩, .error (.log e))
  | (log, .ok _) =>
    let slot := slots.next head
    (⟨start, span.stop, slot, count + 1, log, slots⟩, .ok slot)

/-- Commits an element with this span and answers its slot, whose value is still to be stored. It is
refused if the region is full, if the span does not stop after the region does, or if the log
refuses the span. -/
def commitSpan (r : PlainRegion) (span : Span) : PlainRegion × Except RegionError Nat :=
  if r.count = r.capacity then (r, .error (.full r.capacity))
  else if span.stop ≤ r.stop then (r, .error (.notAdvancing span.stop r.stop))
  else r.logSpan span

/-- Commits an element from the region's stop up to `time`. -/
def commit (r : PlainRegion) (time : Int) : PlainRegion × Except RegionError Nat :=
  r.commitSpan (.between r.stop time)

/-- Commits an element of length `period` up to `time`; it must have a length, and it must not begin
before the region's stop. -/
def commitWithPeriod (r : PlainRegion) (time period : Int) :
    PlainRegion × Except RegionError Nat :=
  if period ≤ 0 ∨ time - period < r.stop then (r, .error (.notAdvancing time r.stop))
  else r.commitSpan ⟨time - period, period⟩

/-- Moves the stop to `time` without an element. -/
def pass (r : PlainRegion) (time : Int) : PlainRegion × Except RegionError Unit :=
  if time < r.stop then (r, .error (.notAdvancing time r.stop))
  else ({ r with stop := time }, .ok ())

/-- The slot that an index stands for: indices wrap at the capacity. -/
def slotOf (r : PlainRegion) (i : Nat) : Nat := i % r.capacity

/-- The bytes of the slot of `i`. -/
def fetch? (r : PlainRegion) (i : Nat) : Option (List UInt8) := r.slots.slot? (r.slotOf i)

/-- Puts the bytes of the slot of `i`. -/
def store? (r : PlainRegion) (i : Nat) (bytes : List UInt8) : Option PlainRegion :=
  (r.slots.setSlot? (r.slotOf i) bytes).map ({ r with slots := · })

/-- The value in the slot of `i`. -/
def value? (r : PlainRegion) (i : Nat) : Option Value := r.slots.read? (r.slotOf i)

/-- Stores a value in the slot of `i`. -/
def put (r : PlainRegion) (i : Nat) (v : Value) : PlainRegion :=
  { r with slots := r.slots.put (i % r.slots.capacity) v }

/-- The span of element `i`. -/
def span? (r : PlainRegion) (i : Nat) : Option Span := r.log.spans[i]?

/-- Bytes of the buffers at full capacity: the slots and the log. -/
def footprint (r : PlainRegion) : Nat :=
  r.slots.bytes.size + SpanLog.entryBytes * r.log.capacity

end PlainRegion

end StreamGauge
