import StreamGauge.Scalar.Saturate

/-!
# Spans of time

Every element of a region owns a `Span`: it starts where the element before it ended, at the
earliest, and stops at the time the element was committed. A `SpanLog` lists the spans of a region
in order; it has a fixed capacity and its starts increase.

Times are exact integers. Callers hand in 64-bit ones, and the length, the stop or the resolved
start of a span is computed from them without a check. So what is said of a span is said of its
64-bit form where that has all three (`Span.Fits`): the spans of a region do if its times are not
too far apart (`PlainRegion.fits_of_requests`), and a resolved one if its anchor is not too late
(`OffsetSpan.fits_resolve`). The times that operators and generators make up are checked instead.
-/

namespace StreamGauge

/-- The times after `start`, up to and with `stop = start + length`, in the unit of the stream. -/
structure Span where
  start : Int
  length : Int
deriving DecidableEq, Repr, Inhabited

/-- The last time of a span. -/
def Span.stop (s : Span) : Int := s.start + s.length

/-- The span between two times. -/
def Span.between (start stop : Int) : Span := ⟨start, stop - start⟩

@[simp]
theorem Span.stop_between (start stop : Int) : (Span.between start stop).stop = stop := by
  simp only [Span.between, Span.stop]
  omega

/-- 64-bit integers hold the start, the length and the stop. -/
structure Span.Fits (s : Span) : Prop where
  start : isInt64 s.start = true
  length : isInt64 s.length = true
  stop : isInt64 s.stop = true

theorem Span.stop_sub_length (s : Span) : s.stop - s.length = s.start := Int.add_sub_cancel ..

/-- Why a log refuses an entry. -/
inductive LogError where
  | full (capacity : Nat)
  | notAdvancing (time previous : Int)
deriving DecidableEq, Repr

def LogError.message : LogError → String
  | full capacity => s!"log full: capacity {capacity}"
  | notAdvancing time previous => s!"timestamp {time} does not advance past {previous}"

/-- Spans in the order of their starts, at most `capacity` of them. -/
structure SpanLog where
  capacity : Nat
  spans : Array Span
deriving DecidableEq, Repr

namespace SpanLog

/-- Bytes of an entry: two 64-bit numbers. -/
def entryBytes : Nat := 16

/-- Whether there can be a buffer for so many entries. -/
def fits (capacity : Nat) : Bool := capacity * entryBytes ≤ maxBufferBytes

/-- A log without entries. -/
def empty (capacity : Nat) : SpanLog := ⟨capacity, #[]⟩

/-- How many spans are logged. -/
def size (log : SpanLog) : Nat := log.spans.size

/-- Why a span cannot follow: the log is full, or the span does not start after the last one. -/
def refusal? (log : SpanLog) (span : Span) : Option LogError :=
  if log.spans.size = log.capacity then some (.full log.capacity)
  else
    match log.spans.back? with
    | some last =>
      if span.start ≤ last.start then some (.notAdvancing span.start last.start) else none
    | none => none

/-- With one span more. -/
def append (log : SpanLog) (span : Span) : SpanLog := { log with spans := log.spans.push span }

/-- Appends a span that can follow, and answers its index. -/
def push (log : SpanLog) (span : Span) : SpanLog × Except LogError Nat :=
  match log.refusal? span with
  | some e => (log, .error e)
  | none =>
    let index := log.size
    (log.append span, .ok index)

theorem push_of_none {log : SpanLog} {span : Span} (h : log.refusal? span = none) :
    log.push span = (log.append span, .ok log.size) := by
  simp only [push, h]

theorem push_of_some {log : SpanLog} {span : Span} {e : LogError} (h : log.refusal? span = some e) :
    log.push span = (log, .error e) := by
  simp only [push, h]

end SpanLog

/-- A span inside a block, by the distance of its start from the start of the block's anchor. -/
structure OffsetSpan where
  offset : UInt32
  length : UInt32
deriving DecidableEq, Repr, Inhabited

/-- The span, given the anchor of its block. -/
def OffsetSpan.resolve (s : OffsetSpan) (anchor : Span) : Span :=
  ⟨anchor.start + s.offset.toNat, s.length.toNat⟩

theorem OffsetSpan.fits_resolve (s : OffsetSpan) {anchor : Span}
    (hfirst : minInt64 ≤ anchor.start) (hlast : anchor.start ≤ maxInt64 - 2 * UInt32.size) :
    (s.resolve anchor).Fits := by
  have hoffset := s.offset.toNat_lt
  have hlength := s.length.toNat_lt
  have hsize : UInt32.size = 4294967296 := rfl
  have hmin : minInt64 = -9223372036854775808 := rfl
  have hmax : maxInt64 = 9223372036854775807 := rfl
  refine ⟨?_, ?_, ?_⟩ <;> rw [isInt64_iff] <;> simp only [resolve, Span.stop] <;> omega

/-- Offset spans in order, at most `capacity` of them. -/
structure OffsetLog where
  capacity : Nat
  spans : Array OffsetSpan
deriving DecidableEq, Repr

namespace OffsetLog

/-- Bytes of an entry: two 32-bit numbers. -/
def entryBytes : Nat := 8

/-- Whether there can be a buffer for so many entries. -/
def fits (capacity : Nat) : Bool := capacity * entryBytes ≤ maxBufferBytes

/-- A log without entries. -/
def empty (capacity : Nat) : OffsetLog := ⟨capacity, #[]⟩

/-- How many spans are logged. -/
def size (log : OffsetLog) : Nat := log.spans.size

/-- Why no span can follow: the log is full. -/
def refusal? (log : OffsetLog) : Option LogError :=
  if log.spans.size = log.capacity then some (.full log.capacity) else none

/-- With one span more. -/
def append (log : OffsetLog) (span : OffsetSpan) : OffsetLog :=
  { log with spans := log.spans.push span }

/-- Appends a span, if one can follow, and answers its index. -/
def push (log : OffsetLog) (span : OffsetSpan) : OffsetLog × Except LogError Nat :=
  match log.refusal? with
  | some e => (log, .error e)
  | none =>
    let index := log.size
    (log.append span, .ok index)

theorem push_of_none {log : OffsetLog} (h : log.refusal? = none) (span : OffsetSpan) :
    log.push span = (log.append span, .ok log.size) := by
  simp only [push, h]

theorem push_of_some {log : OffsetLog} {e : LogError} (h : log.refusal? = some e)
    (span : OffsetSpan) : log.push span = (log, .error e) := by
  simp only [push, h]

end OffsetLog

end StreamGauge
