import StreamGauge.Proofs.Region.Bytes
import StreamGauge.Region.Plain

/-!
# The states of a plain region

`PlainRegion.Reachable` are the regions that the operations make out of an allocated one, and
`PlainRegion.Valid` is what all of them have in common (`Reachable.valid`): as many spans as
elements, no more of them than slots, and spans that follow each other inside the times of the
region.

* `append` is what a commit that is taken makes of a region. One is refused only for the reasons of
  the region, as the log has none of its own, and then the region stays as it is
  (`Valid.commit_eq`, `Valid.commitWithPeriod_eq`).
* Every write of bytes is one of a slot (`writeSlot`); a slot reads as what was written to it, and
  no other slot changes (`Valid.value?_writeSlot`).
* `Valid.record` keeps a region valid; `span?_record` and `value?_record` say what is read after
  it: the new element at the end, and every other one as before.
-/

namespace StreamGauge

theorem leastPowerOfTwo_eq (n : Nat) : ∃ k, leastPowerOfTwo n = twoTo k := by
  unfold leastPowerOfTwo
  split
  · exact ⟨0, rfl⟩
  · exact ⟨_, rfl⟩

theorem le_leastPowerOfTwo (n : Nat) : n ≤ leastPowerOfTwo n := by
  unfold leastPowerOfTwo
  split
  · assumption
  · have h : n - 1 < 2 ^ ((n - 1).log2 + 1) := Nat.lt_log2_self
    have h' : twoTo ((n - 1).log2 + 1) = 2 ^ ((n - 1).log2 + 1) := rfl
    omega

/-- It is the least. -/
theorem leastPowerOfTwo_le {n k : Nat} (h : n ≤ twoTo k) : leastPowerOfTwo n ≤ twoTo k := by
  unfold leastPowerOfTwo
  split
  · exact Nat.one_le_two_pow
  · have hlog : (n - 1).log2 < k := (Nat.log2_lt (by omega)).mpr (show n - 1 < twoTo k by omega)
    exact Nat.pow_le_pow_right (by decide) hlog

theorem SpanLog.fits_of_le {m n : Nat} (h : m ≤ n) (hfits : SpanLog.fits n = true) :
    SpanLog.fits m = true := by
  simp only [SpanLog.fits, decide_eq_true_eq] at hfits ⊢
  exact Nat.le_trans (Nat.mul_le_mul_right _ h) hfits

/-- Spans that follow each other between two times. -/
structure SpansWithin (start stop : Int) (spans : List Span) : Prop where
  length_pos : ∀ s ∈ spans, 0 < s.length
  ordered : spans.Pairwise (·.stop ≤ ·.start)
  start_le : ∀ s ∈ spans, start ≤ s.start
  stop_le : ∀ s ∈ spans, s.stop ≤ stop

namespace SpansWithin

theorem nil (start stop : Int) : SpansWithin start stop [] :=
  ⟨by simp, .nil, by simp, by simp⟩

/-- A span that begins where the others have ended can follow them. -/
theorem concat {start stop : Int} {spans : List Span} (h : SpansWithin start stop spans)
    {span : Span} (hlength : 0 < span.length) (hstart : stop ≤ span.start) (hle : start ≤ stop) :
    SpansWithin start span.stop (spans ++ [span]) := by
  have hstop : span.start ≤ span.stop := by unfold Span.stop; omega
  refine ⟨fun s hs => ?_, ?_, fun s hs => ?_, fun s hs => ?_⟩
  · rcases List.mem_append.mp hs with hs | hs
    · exact h.length_pos s hs
    · rwa [List.mem_singleton.mp hs]
  · rw [List.pairwise_append]
    refine ⟨h.ordered, List.pairwise_singleton _ _, fun s hs t ht => ?_⟩
    rw [List.mem_singleton.mp ht]
    exact Int.le_trans (h.stop_le s hs) hstart
  · rcases List.mem_append.mp hs with hs | hs
    · exact h.start_le s hs
    · rw [List.mem_singleton.mp hs]
      exact Int.le_trans hle hstart
  · rcases List.mem_append.mp hs with hs | hs
    · have := h.stop_le s hs
      omega
    · obtain rfl := List.mem_singleton.mp hs
      exact Int.le_refl _

theorem mono {start stop stop' : Int} {spans : List Span} (h : SpansWithin start stop spans)
    (hle : stop ≤ stop') : SpansWithin start stop' spans :=
  { h with stop_le := fun s hs => Int.le_trans (h.stop_le s hs) hle }

/-- Spans between 64-bit times that a 64-bit length separates have 64-bit parts. -/
theorem fits {start stop : Int} {spans : List Span} (h : SpansWithin start stop spans)
    (hstart : minInt64 ≤ start) (hstop : stop ≤ maxInt64) (hlength : stop - start ≤ maxInt64) :
    ∀ s ∈ spans, s.Fits := by
  intro s hs
  have hpos := h.length_pos s hs
  have hfirst := h.start_le s hs
  have hlast := h.stop_le s hs
  have hmin : minInt64 < 0 := by decide
  unfold Span.stop at hlast
  refine ⟨isInt64_iff.mpr ?_, isInt64_iff.mpr ?_, isInt64_iff.mpr ?_⟩
  · omega
  · omega
  · unfold Span.stop
    omega

end SpansWithin

namespace PlainRegion

/-- With one element more, whose value is still to be stored in the next slot. -/
def append (r : PlainRegion) (span : Span) : PlainRegion :=
  { r with
    log := r.log.append span
    head := r.nextSlot
    count := r.count + 1
    stop := span.stop }

/-- With one element more and its value. -/
def record (r : PlainRegion) (span : Span) (v : Value) : PlainRegion :=
  let slot := r.nextSlot
  (r.append span).put slot v

theorem logSpan_of_none {r : PlainRegion} {span : Span} (h : r.log.refusal? span = none) :
    r.logSpan span = (r.append span, .ok r.nextSlot) := by
  cases r
  simp only [logSpan, SpanLog.push_of_none h]
  rfl

/-- The regions that the operations lead to, also those that refuse. -/
inductive Reachable : PlainRegion → Prop where
  | allocate {kind : Kind} {expected : Nat} {start : Int} {r : PlainRegion}
      (h : allocate? kind expected start = some r) : Reachable r
  | commit {r r' : PlainRegion} {time : Int} {ended : Except RegionError Nat} (hr : Reachable r)
      (h : r.commit time = (r', ended)) : Reachable r'
  | commitWithPeriod {r r' : PlainRegion} {time period : Int} {ended : Except RegionError Nat}
      (hr : Reachable r) (h : r.commitWithPeriod time period = (r', ended)) : Reachable r'
  | pass {r r' : PlainRegion} {time : Int} {ended : Except RegionError Unit} (hr : Reachable r)
      (h : r.pass time = (r', ended)) : Reachable r'
  | store {r r' : PlainRegion} {i : Nat} {bytes : List UInt8} (hr : Reachable r)
      (h : r.store? i bytes = some r') : Reachable r'
  | put {r : PlainRegion} {i : Nat} {v : Value} (hr : Reachable r) : Reachable (r.put i v)

/-- What every reachable region keeps. -/
structure Valid (r : PlainRegion) : Prop where
  size_spans : r.log.spans.size = r.count
  count_le : r.count ≤ r.capacity
  capacity_log : r.log.capacity = r.capacity
  capacity_eq : ∃ k, r.capacity = twoTo k
  head_eq : r.head = r.count - 1
  size_bytes : r.slots.bytes.size = r.capacity * r.kind.size
  start_le : r.start ≤ r.stop
  spans : SpansWithin r.start r.stop r.log.spans.toList

theorem valid_allocate (kind : Kind) (expected : Nat) (start : Int) :
    (allocate kind expected start).Valid where
  size_spans := rfl
  count_le := Nat.zero_le _
  capacity_log := rfl
  capacity_eq := leastPowerOfTwo_eq expected
  head_eq := rfl
  size_bytes := Bytes.size_zeroed _
  start_le := Int.le_refl _
  spans := .nil _ _

/-- A region comes about if there is a buffer for its slots. -/
theorem allocate?_eq_some_iff {kind : Kind} {expected : Nat} {start : Int} {r : PlainRegion} :
    allocate? kind expected start = some r ↔
      SpanLog.fits (slotCapacity expected) = true ∧ allocate kind expected start = r := by
  unfold allocate?
  rw [Option.ite_none_right_eq_some, Option.some.injEq]

/-- All that a pass can do. -/
theorem pass_cases (r : PlainRegion) (time : Int) :
    (r.stop ≤ time ∧ r.pass time = ({ r with stop := time }, .ok ())) ∨
    time < r.stop ∧ r.pass time = (r, .error (.notAdvancing time r.stop)) := by
  by_cases hlt : time < r.stop
  · exact .inr ⟨hlt, if_pos hlt⟩
  · exact .inl ⟨Int.not_lt.mp hlt, if_neg hlt⟩

namespace Valid

variable {r : PlainRegion} {span : Span} {v : Value}

/-- The next slot is the first one without an element. -/
theorem nextSlot_eq (h : r.Valid) (room : r.count < r.capacity) : r.nextSlot = r.count := by
  unfold nextSlot SlotBuffer.next
  rw [h.head_eq, show ((r.count : Int) - 1 + 1).toNat = r.count by omega]
  exact Nat.mod_eq_of_lt room

theorem slotOf_eq (h : r.Valid) {i : Nat} (hi : i < r.count) : r.slotOf i = i :=
  Nat.mod_eq_of_lt (Nat.lt_of_lt_of_le hi h.count_le)

/-- The log takes every span that the region takes. -/
theorem log_refusal?_eq_none (h : r.Valid) (room : r.count < r.capacity)
    (hstart : r.stop ≤ span.start) : r.log.refusal? span = none := by
  unfold SpanLog.refusal?
  rw [if_neg (by rw [h.size_spans, h.capacity_log]; omega)]
  split
  case h_2 => rfl
  case h_1 last hlast =>
    have hmem : last ∈ r.log.spans.toList := by
      rw [← Array.getLast?_toList] at hlast
      exact List.mem_of_getLast? hlast
    have hlen := h.spans.length_pos last hmem
    have hstop := h.spans.stop_le last hmem
    unfold Span.stop at hstop
    rw [if_neg (by omega)]

/-- What a commit of a span from the stop of the region on answers: the log adds no reason of its
own to refuse it. -/
theorem commitSpan_eq (h : r.Valid) (hstart : r.stop ≤ span.start) :
    r.commitSpan span =
      if r.count = r.capacity then (r, .error (.full r.capacity))
      else if span.stop ≤ r.stop then (r, .error (.notAdvancing span.stop r.stop))
      else (r.append span, .ok r.count) := by
  unfold commitSpan
  have hle := h.count_le
  split
  case isTrue => rfl
  case isFalse hcount =>
    have room : r.count < r.capacity := by omega
    split
    case isTrue => rfl
    case isFalse =>
      rw [logSpan_of_none (h.log_refusal?_eq_none room hstart), h.nextSlot_eq room]

/-- What a commit answers. -/
theorem commit_eq (h : r.Valid) (time : Int) :
    r.commit time =
      if r.count = r.capacity then (r, .error (.full r.capacity))
      else if time ≤ r.stop then (r, .error (.notAdvancing time r.stop))
      else (r.append (.between r.stop time), .ok r.count) := by
  unfold commit
  rw [h.commitSpan_eq (Int.le_refl _), Span.stop_between]

/-- What a commit of an element of a given length answers. -/
theorem commitWithPeriod_eq (h : r.Valid) (time period : Int) :
    r.commitWithPeriod time period =
      if period ≤ 0 ∨ time - period < r.stop then (r, .error (.notAdvancing time r.stop))
      else if r.count = r.capacity then (r, .error (.full r.capacity))
      else (r.append ⟨time - period, period⟩, .ok r.count) := by
  unfold commitWithPeriod
  split
  case isTrue => rfl
  case isFalse hgap =>
    have hstop : ¬ (⟨time - period, period⟩ : Span).stop ≤ r.stop := by
      simp only [Span.stop]
      omega
    rw [h.commitSpan_eq (show r.stop ≤ time - period by omega), if_neg hstop]

theorem append (h : r.Valid) (room : r.count < r.capacity) (hstart : r.stop ≤ span.start)
    (hlength : 0 < span.length) : (r.append span).Valid where
  size_spans := by simp [PlainRegion.append, SpanLog.append, h.size_spans]
  count_le := room
  capacity_log := h.capacity_log
  capacity_eq := h.capacity_eq
  head_eq := by simp [PlainRegion.append, h.nextSlot_eq room]
  size_bytes := h.size_bytes
  start_le := by
    have := h.start_le
    simp only [PlainRegion.append, Span.stop]
    omega
  spans := by
    simp only [PlainRegion.append, SpanLog.append, Array.toList_push]
    exact h.spans.concat hlength hstart h.start_le

theorem pass (h : r.Valid) {time : Int} (hle : r.stop ≤ time) : { r with stop := time }.Valid :=
  { h with
    start_le := Int.le_trans h.start_le hle
    spans := h.spans.mono hle }

theorem put (h : r.Valid) (i : Nat) (v : Value) : (r.put i v).Valid :=
  { h with size_bytes := (Bytes.size_put ..).trans h.size_bytes }

/-- Storing the value in the slot that the commit has answered completes the element. -/
theorem put_append (h : r.Valid) (room : r.count < r.capacity) (span : Span) (v : Value) :
    (r.append span).put r.count v = r.record span v := by
  rw [PlainRegion.record, h.nextSlot_eq room]

theorem record (h : r.Valid) (room : r.count < r.capacity) (hstart : r.stop ≤ span.start)
    (hlength : 0 < span.length) : (r.record span v).Valid :=
  (h.append room hstart hlength).put _ _

/-- All that a commit can do: it makes the next element, or it is refused for a reason that is not
the log's and changes nothing. -/
theorem commit_cases (h : r.Valid) (time : Int) :
    (r.count < r.capacity ∧ r.stop < time ∧
      r.commit time = (r.append (.between r.stop time), .ok r.count)) ∨
    ¬ (r.count < r.capacity ∧ r.stop < time) ∧
      ∃ e, r.commit time = (r, .error e) ∧ ∀ cause, e ≠ .log cause := by
  have hle := h.count_le
  rw [h.commit_eq]
  by_cases hcount : r.count = r.capacity
  · exact .inr ⟨by omega, _, if_pos hcount, nofun⟩
  · rw [if_neg hcount]
    by_cases htime : time ≤ r.stop
    · exact .inr ⟨by omega, _, if_pos htime, nofun⟩
    · exact .inl ⟨by omega, by omega, if_neg htime⟩

/-- All that a commit of an element of a given length can do. -/
theorem commitWithPeriod_cases (h : r.Valid) (time period : Int) :
    (r.count < r.capacity ∧ 0 < period ∧ r.stop ≤ time - period ∧
      r.commitWithPeriod time period = (r.append ⟨time - period, period⟩, .ok r.count)) ∨
    ¬ (r.count < r.capacity ∧ 0 < period ∧ r.stop ≤ time - period) ∧
      ∃ e, r.commitWithPeriod time period = (r, .error e) ∧ ∀ cause, e ≠ .log cause := by
  have hle := h.count_le
  rw [h.commitWithPeriod_eq]
  by_cases hgap : period ≤ 0 ∨ time - period < r.stop
  · exact .inr ⟨by omega, _, if_pos hgap, nofun⟩
  · rw [if_neg hgap]
    by_cases hcount : r.count = r.capacity
    · exact .inr ⟨by omega, _, if_pos hcount, nofun⟩
    · exact .inl ⟨by omega, by omega, by omega, if_neg hcount⟩

/-- Whether it is taken or not, a commit keeps a region valid. -/
theorem of_commit (h : r.Valid) {time : Int} {ended : Except RegionError Nat} {r' : PlainRegion}
    (hcommit : r.commit time = (r', ended)) : r'.Valid ∧ r'.capacity = r.capacity := by
  rcases h.commit_cases time with ⟨room, htime, heq⟩ | ⟨-, e, heq, -⟩
  · cases heq.symm.trans hcommit
    exact ⟨h.append room (Int.le_refl _) (by simp only [Span.between]; omega), rfl⟩
  · cases heq.symm.trans hcommit
    exact ⟨h, rfl⟩

theorem of_commitWithPeriod (h : r.Valid) {time period : Int} {ended : Except RegionError Nat}
    {r' : PlainRegion} (hcommit : r.commitWithPeriod time period = (r', ended)) :
    r'.Valid ∧ r'.capacity = r.capacity := by
  rcases h.commitWithPeriod_cases time period with ⟨room, hperiod, hstart, heq⟩ | ⟨-, e, heq, -⟩
  · cases heq.symm.trans hcommit
    exact ⟨h.append room hstart hperiod, rfl⟩
  · cases heq.symm.trans hcommit
    exact ⟨h, rfl⟩

theorem of_pass (h : r.Valid) {time : Int} {ended : Except RegionError Unit} {r' : PlainRegion}
    (hpass : r.pass time = (r', ended)) : r'.Valid ∧ r'.capacity = r.capacity := by
  rcases pass_cases r time with ⟨hle, heq⟩ | ⟨-, heq⟩
  · cases heq.symm.trans hpass
    exact ⟨h.pass hle, rfl⟩
  · cases heq.symm.trans hpass
    exact ⟨h, rfl⟩

/-- Slot `i` lies inside the buffer. -/
theorem slot_le (h : r.Valid) {i : Nat} (hi : i < r.capacity) :
    i * r.kind.size + r.kind.size ≤ r.slots.bytes.size := by
  rw [h.size_bytes]
  exact Bytes.stride_le hi _

theorem span?_eq_some (h : r.Valid) {i : Nat} (hi : i < r.count) : ∃ s, r.span? i = some s :=
  ⟨_, Array.getElem?_eq_getElem (by rw [h.size_spans]; exact hi)⟩

theorem value?_eq_some (h : r.Valid) {i : Nat} (hi : i < r.count) : ∃ v, r.value? i = some v := by
  unfold value?
  rw [h.slotOf_eq hi]
  exact Bytes.isSome_readValue? _ (h.slot_le (Nat.lt_of_lt_of_le hi h.count_le))

end Valid

/-! ## What a slot holds -/

section Slot

variable {r : PlainRegion}

/-- The region with other bytes in slot `i`. -/
def writeSlot (r : PlainRegion) (i : Nat) (bytes : List UInt8) : PlainRegion :=
  { r with slots := { r.slots with bytes := r.slots.bytes.put (i * r.kind.size) bytes } }

theorem put_eq_writeSlot {i : Nat} (hi : i < r.capacity) (v : Value) :
    r.put i v = r.writeSlot i (r.kind.encode v) := by
  have hslot : i % r.slots.capacity = i := Nat.mod_eq_of_lt hi
  unfold put
  rw [hslot]
  rfl

theorem span?_append (h : r.Valid) (span : Span) (i : Nat) :
    (r.append span).span? i = if i = r.count then some span else r.span? i := by
  change (r.log.spans.push span)[i]? = _
  rw [Array.getElem?_push, h.size_spans]
  rfl

namespace Valid

theorem store?_eq_writeSlot (h : r.Valid) {i : Nat} (hi : i < r.capacity) {bytes : List UInt8}
    (hlength : bytes.length = r.kind.size) : r.store? i bytes = some (r.writeSlot i bytes) := by
  have hslot : r.slotOf i = i := Nat.mod_eq_of_lt hi
  have hfits : r.slots.offset i + bytes.length ≤ r.slots.bytes.size := by
    rw [hlength]
    exact h.slot_le hi
  unfold store? SlotBuffer.setSlot? Bytes.write?
  rw [hslot, if_pos (show bytes.length = r.slots.kind.size from hlength), if_pos hfits]
  rfl

theorem writeSlot (h : r.Valid) (i : Nat) (bytes : List UInt8) : (r.writeSlot i bytes).Valid :=
  { h with size_bytes := (Bytes.size_put ..).trans h.size_bytes }

/-- A slot reads as what was written to it, and no other slot changes. -/
theorem value?_writeSlot (h : r.Valid) {i j : Nat} (hi : i < r.capacity) (hj : j < r.capacity)
    {bytes : List UInt8} (hlength : bytes.length = r.kind.size) :
    (r.writeSlot i bytes).value? j =
      if j = i then some (r.kind.decode bytes) else r.value? j := by
  have hslot : j % r.slots.capacity = j := Nat.mod_eq_of_lt hj
  have hbefore : r.value? j = r.slots.bytes.readValue? r.kind (j * r.kind.size) := by
    change r.slots.read? (j % r.slots.capacity) = _
    rw [hslot]
    rfl
  have hafter : (r.writeSlot i bytes).value? j =
      (r.slots.bytes.put (i * r.kind.size) bytes).readValue? r.kind (j * r.kind.size) := by
    change (r.writeSlot i bytes).slots.read? (j % r.slots.capacity) = _
    rw [hslot]
    rfl
  rw [hbefore, hafter, Bytes.readValue?, Bytes.readValue?]
  by_cases hij : j = i
  · subst hij
    have hread := Bytes.read?_put_same r.slots.bytes (j * r.kind.size) bytes
      (by rw [hlength]; exact h.slot_le hj)
    rw [hlength] at hread
    rw [if_pos rfl, hread, Option.map_some]
  · have hapart := Bytes.strides_disjoint hij r.kind.size
    rw [if_neg hij, Bytes.read?_put_disjoint (by rw [hlength]; exact hapart)]

end Valid

end Slot

/-! ## What a recorded element changes -/

section Record

variable (r : PlainRegion) (span : Span) (v : Value)

@[simp]
theorem count_record : (r.record span v).count = r.count + 1 := rfl

@[simp]
theorem capacity_record : (r.record span v).capacity = r.capacity := rfl

@[simp]
theorem kind_record : (r.record span v).kind = r.kind := rfl

@[simp]
theorem start_record : (r.record span v).start = r.start := rfl

@[simp]
theorem stop_record : (r.record span v).stop = span.stop := rfl

variable {r}

theorem span?_record (h : r.Valid) (i : Nat) :
    (r.record span v).span? i = if i = r.count then some span else r.span? i :=
  span?_append h span i

/-- The new element reads as its kind keeps it, and no other element changes. -/
theorem value?_record (h : r.Valid) (room : r.count < r.capacity) {i : Nat} (hi : i ≤ r.count) :
    (r.record span v).value? i = if i = r.count then some (r.kind.convert v) else r.value? i := by
  -- A value is read from the slots alone.
  have hslots : (r.record span v).value? i =
      (r.writeSlot r.count (r.kind.encode v)).value? i := by
    change ((r.append span).put r.nextSlot v).value? i = _
    rw [h.nextSlot_eq room, @put_eq_writeSlot (r.append span) _ room]
    rfl
  rw [hslots, h.value?_writeSlot room (Nat.lt_of_le_of_lt hi room) (Kind.length_encode ..)]
  rfl

end Record

/-! ## Reachable regions -/

theorem Reachable.valid {r : PlainRegion} (h : r.Reachable) : r.Valid := by
  induction h with
  | allocate h =>
    obtain ⟨-, rfl⟩ := allocate?_eq_some_iff.mp h
    exact valid_allocate ..
  | commit _ h ih => exact (ih.of_commit h).1
  | commitWithPeriod _ h ih => exact (ih.of_commitWithPeriod h).1
  | pass _ h ih => exact (ih.of_pass h).1
  | @store r r' i bytes _ h ih =>
    obtain ⟨slots, hslots, rfl⟩ := Option.map_eq_some_iff.mp h
    unfold SlotBuffer.setSlot? at hslots
    split at hslots
    case isFalse => cases hslots
    case isTrue =>
      obtain ⟨store, hstore, rfl⟩ := Option.map_eq_some_iff.mp hslots
      unfold Bytes.write? at hstore
      split at hstore
      · cases hstore
        exact { ih with size_bytes := (Bytes.size_put ..).trans ih.size_bytes }
      · cases hstore
  | put _ ih => exact ih.put _ _

/-- An element that finds a free slot and follows the stop leads to a reachable region. -/
theorem Reachable.record {r : PlainRegion} (hr : r.Reachable) {span : Span}
    (h : r.count < r.capacity ∧ r.stop ≤ span.start ∧ 0 < span.length) (v : Value) :
    (r.record span v).Reachable := by
  obtain ⟨room, hstart, hlength⟩ := h
  have hcommit := hr.valid.commitWithPeriod_eq span.stop span.length
  rw [span.stop_sub_length, if_neg (by omega), if_neg (by omega)] at hcommit
  exact .put (.commitWithPeriod hr hcommit)

/-- There is a buffer for the slots of a reachable region. -/
theorem Reachable.fits {r : PlainRegion} (h : r.Reachable) : SpanLog.fits r.capacity = true := by
  induction h with
  | allocate h =>
    obtain ⟨hfits, rfl⟩ := allocate?_eq_some_iff.mp h
    exact hfits
  | commit hr h ih => rwa [(hr.valid.of_commit h).2]
  | commitWithPeriod hr h ih => rwa [(hr.valid.of_commitWithPeriod h).2]
  | pass hr h ih => rwa [(hr.valid.of_pass h).2]
  | store hr h ih =>
    obtain ⟨slots, hslots, rfl⟩ := Option.map_eq_some_iff.mp h
    unfold SlotBuffer.setSlot? at hslots
    split at hslots
    case isFalse => cases hslots
    case isTrue =>
      obtain ⟨store, -, rfl⟩ := Option.map_eq_some_iff.mp hslots
      exact ih
  | put _ ih => exact ih

/-- So there is one for as many slots as it has elements. -/
theorem Reachable.fits_count {r : PlainRegion} (h : r.Reachable) :
    SpanLog.fits (slotCapacity r.count) = true := by
  obtain ⟨k, hk⟩ := h.valid.capacity_eq
  have hle := h.valid.count_le
  rw [hk] at hle
  exact SpanLog.fits_of_le (hk.symm ▸ leastPowerOfTwo_le hle) h.fits

end PlainRegion

end StreamGauge
