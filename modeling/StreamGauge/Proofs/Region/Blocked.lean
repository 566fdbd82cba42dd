import StreamGauge.Proofs.Region.Bytes
import StreamGauge.Proofs.Scalar.Codec
import StreamGauge.Region.Blocked

/-!
# The states of a blocked region

`BlockedRegion.Reachable` are the regions that the operations make out of an allocated one, and
`BlockedRegion.Valid` is what all of them have in common (`Reachable.valid`): every committed block
is the one that the layout has there (`Layout.blockAt`), and every committed element lies in a
committed block. `Valid.commitBlock_cases` and `Valid.commitElement_cases` say all that a commit
can do to a valid region.

* `Layout.offsetOf k` is the place of block `k` in the payload; the payload ends where the blocks
  end (`payloadBytes_eq`), so every stored number can be read (`readInt?_eq_some`).
* `Valid.value?_packed` and `Valid.value?_raw`: the value of a committed element is missing only if
  its base and delta have no sum within 64 bits.
-/

namespace StreamGauge

namespace Layout

variable (l : Layout)

/-- The place of block `k` in the payload: after all the blocks before it. -/
def offsetOf : Nat → Nat
  | 0 => 0
  | k + 1 => offsetOf k + l.bytesOf k

/-- Block `k` as every region of this layout has it. -/
def blockAt (k : Nat) : Block :=
  ⟨l.offsetOf k, l.offsetOf (k + 1), UInt32.ofNat (l.elementsIn k), l.policy.packs k⟩

theorem offsetOf_mono {j k : Nat} (h : j ≤ k) : l.offsetOf j ≤ l.offsetOf k := by
  induction h with
  | refl => exact Nat.le_refl _
  | step _ ih => exact Nat.le_trans ih (Nat.le_add_right _ _)

private theorem foldr_bytesOf (ks : List Nat) (n : Nat) :
    ks.foldr (l.bytesOf · + ·) n = ks.foldr (l.bytesOf · + ·) 0 + n := by
  induction ks with
  | nil => simp
  | cons k ks ih =>
    rw [List.foldr_cons, List.foldr_cons, ih]
    omega

theorem payloadBytes_eq : l.payloadBytes = l.offsetOf l.blockCount := by
  unfold payloadBytes
  induction l.blockCount with
  | zero => rfl
  | succ k ih =>
    rw [List.range_succ, List.foldr_append, List.foldr_cons, List.foldr_nil, foldr_bytesOf, ih]
    rfl

variable {l}

theorem blockSize_of_check (h : l.check = .ok ()) :
    0 < l.blockSize ∧ l.blockSize < UInt32.size := by
  unfold check at h
  repeat' split at h
  all_goals first | omega | cases h

/-- Both kinds are integers, and the delta is of the narrower half. -/
theorem kinds_of_check (h : l.check = .ok ()) :
    l.base.isInteger = true ∧ l.delta.isInteger = true ∧ l.delta.size ≤ 4 := by
  unfold check at h
  split at h
  · cases h
  split at h
  · cases h
  split at h
  · cases h
  case isFalse hbase hdelta hsize =>
  refine ⟨by simpa using hbase, by simpa using hdelta, ?_⟩
  have hle := l.base.size_le_eight
  exact Kind.size_le_four (by omega)

theorem elementsIn_le (k : Nat) : l.elementsIn k ≤ l.blockSize := by
  unfold elementsIn
  split <;> omega

/-- The place of an element in its block. -/
theorem mod_lt_elementsIn (hpos : 0 < l.blockSize) {i : Nat} (hi : i < l.length) :
    i % l.blockSize < l.elementsIn (l.blockOf i) := by
  have hmod := Nat.mod_lt i hpos
  have hdiv := Nat.div_add_mod i l.blockSize
  rw [Nat.mul_comm] at hdiv
  unfold elementsIn blockOf
  split <;> omega

theorem blockOf_eq (hpos : 0 < l.blockSize) {k j : Nat} (hj : j < l.elementsIn k) :
    l.blockOf (k * l.blockSize + j) = k := by
  have := l.elementsIn_le k
  unfold blockOf
  rw [Nat.add_comm, Nat.add_mul_div_right _ _ hpos, Nat.div_eq_of_lt (by omega), Nat.zero_add]

theorem bytesOf_packed {k : Nat} (h : l.policy.packs k = true) :
    l.bytesOf k = l.base.size + l.elementsIn k * l.delta.size := by
  simp only [bytesOf, blockBytes, h, ↓reduceIte]

theorem bytesOf_raw {k : Nat} (h : l.policy.packs k = false) :
    l.bytesOf k = l.elementsIn k * l.base.size := by
  simp only [bytesOf, blockBytes, h, Bool.false_eq_true, ↓reduceIte]

theorem length_blockAt (hsize : l.blockSize < UInt32.size) (k : Nat) :
    (l.blockAt k).length.toNat = l.elementsIn k := by
  have := l.elementsIn_le k
  exact UInt32.toNat_ofNat_of_lt' (by omega)

end Layout

namespace BlockedRegion

/-- With one block more, whose base is still to be stored. -/
def appendBlock (r : BlockedRegion) (anchor : Span) (block : Block) : BlockedRegion :=
  { r with blocks := r.blocks.push block, anchors := r.anchors.append anchor }

/-- With one element more, whose value is still to be stored. -/
def appendElement (r : BlockedRegion) (span : OffsetSpan) : BlockedRegion :=
  { r with offsets := r.offsets.append span, count := r.count + 1 }

theorem logBlock_of_none {r : BlockedRegion} {anchor : Span}
    (h : r.anchors.refusal? anchor = none) (block : Block) :
    r.logBlock anchor block = (r.appendBlock anchor block, .ok block) := by
  cases r
  simp only [logBlock, SpanLog.push_of_none h]
  rfl

theorem logBlock_of_some {r : BlockedRegion} {anchor : Span} {e : LogError}
    (h : r.anchors.refusal? anchor = some e) (block : Block) :
    r.logBlock anchor block = (r, .error (.log e)) := by
  cases r
  simp only [logBlock, SpanLog.push_of_some h]

theorem logElement_of_none {r : BlockedRegion} (h : r.offsets.refusal? = none)
    (span : OffsetSpan) : r.logElement span = (r.appendElement span, .ok ()) := by
  cases r
  simp only [logElement, OffsetLog.push_of_none h]
  rfl

theorem logElement_of_some {r : BlockedRegion} {e : LogError} (h : r.offsets.refusal? = some e)
    (span : OffsetSpan) : r.logElement span = (r, .error (.log e)) := by
  cases r
  simp only [logElement, OffsetLog.push_of_some h]

/-- The regions that the operations lead to, also those that refuse. Numbers are written into the
payload, whole or byte by byte; nothing is written outside it. -/
inductive Reachable : BlockedRegion → Prop where
  | allocate {layout : Layout} {r : BlockedRegion} (h : allocate layout = .ok r) : Reachable r
  | commitBlock {r r' : BlockedRegion} {k : Nat} {anchor : Span} {packed : Bool}
      {ended : Except RegionError Block} (hr : Reachable r)
      (h : r.commitBlock k anchor packed = (r', ended)) : Reachable r'
  | commitElement {r r' : BlockedRegion} {i : Nat} {span : OffsetSpan}
      {ended : Except RegionError Unit} (hr : Reachable r)
      (h : r.commitElement i span = (r', ended)) : Reachable r'
  | write {r : BlockedRegion} {offset : Nat} {bytes : List UInt8} {payload : Bytes}
      (hr : Reachable r) (h : r.payload.write? offset bytes = some payload) :
      Reachable { r with payload := payload }

/-- What every reachable region keeps. -/
structure Valid (r : BlockedRegion) : Prop where
  check : r.layout.check = .ok ()
  blocks : ∀ k (hk : k < r.blocks.size), r.blocks[k] = r.layout.blockAt k
  size_blocks : r.blocks.size ≤ r.layout.blockCount
  size_anchors : r.anchors.spans.size = r.blocks.size
  size_offsets : r.offsets.spans.size = r.count
  capacity_offsets : r.offsets.capacity = r.layout.length
  count_le : r.count ≤ r.layout.length
  committed : ∀ i < r.count, r.layout.blockOf i < r.blocks.size
  size_payload : r.payload.size = r.layout.payloadBytes

theorem of_allocate {layout : Layout} {r : BlockedRegion} (h : allocate layout = .ok r) :
    layout.check = .ok () ∧
      r = ⟨layout, 0, #[], .empty layout.blockCount, .empty layout.length,
        .zeroed layout.payloadBytes⟩ := by
  unfold allocate at h
  cases hcheck : layout.check with
  | error e =>
    rw [hcheck] at h
    cases h
  | ok u =>
    rw [hcheck] at h
    cases h
    exact ⟨rfl, rfl⟩

theorem valid_allocate {layout : Layout} {r : BlockedRegion} (h : allocate layout = .ok r) :
    r.Valid := by
  obtain ⟨hcheck, rfl⟩ := of_allocate h
  exact {
    check := hcheck
    blocks := fun k hk => absurd hk (Nat.not_lt_zero k)
    size_blocks := Nat.zero_le _
    size_anchors := rfl
    size_offsets := rfl
    capacity_offsets := rfl
    count_le := Nat.zero_le _
    committed := fun i hi => absurd hi (Nat.not_lt_zero i)
    size_payload := Bytes.size_zeroed _ }

namespace Valid

variable {r : BlockedRegion}

theorem blockSize_pos (h : r.Valid) : 0 < r.layout.blockSize :=
  (Layout.blockSize_of_check h.check).1

theorem getElem?_blocks (h : r.Valid) {k : Nat} (hk : k < r.blocks.size) :
    r.blocks[k]? = some (r.layout.blockAt k) := by
  rw [Array.getElem?_eq_getElem hk, h.blocks k hk]

theorem nextStart_eq (h : r.Valid) : r.nextStart = r.layout.offsetOf r.blocks.size := by
  unfold nextStart
  rw [Array.back?_eq_getElem?]
  by_cases hsize : r.blocks.size = 0
  · rw [hsize, Array.getElem?_eq_none (by omega)]
    rfl
  · rw [h.getElem?_blocks (by omega), Option.map_some, Option.getD_some]
    change r.layout.offsetOf (r.blocks.size - 1 + 1) = _
    rw [Nat.sub_add_cancel (by omega)]

/-- The next block is the one of the layout. -/
theorem nextBlock_eq (h : r.Valid) :
    r.nextBlock r.blocks.size (r.layout.policy.packs r.blocks.size) =
      r.layout.blockAt r.blocks.size := by
  unfold nextBlock
  rw [h.nextStart_eq]
  rfl

theorem appendBlock (h : r.Valid) (hroom : r.blocks.size < r.layout.blockCount) (anchor : Span) :
    (r.appendBlock anchor (r.layout.blockAt r.blocks.size)).Valid :=
  { h with
    blocks := fun k hk => by
      simp only [BlockedRegion.appendBlock, Array.size_push] at hk ⊢
      rw [Array.getElem_push]
      split
      case isTrue hlt => exact h.blocks k hlt
      case isFalse hlt => rw [show k = r.blocks.size by omega]
    size_blocks := by
      simp only [BlockedRegion.appendBlock, Array.size_push]
      exact hroom
    size_anchors := by simp [BlockedRegion.appendBlock, SpanLog.append, h.size_anchors]
    committed := fun i hi => by
      simp only [BlockedRegion.appendBlock, Array.size_push]
      exact Nat.lt_succ_of_lt (h.committed i hi) }

theorem appendElement (h : r.Valid) (hcount : r.count < r.layout.length)
    (hblock : r.layout.blockOf r.count < r.blocks.size) (span : OffsetSpan) :
    (r.appendElement span).Valid :=
  { h with
    size_offsets := by simp [BlockedRegion.appendElement, OffsetLog.append, h.size_offsets]
    count_le := hcount
    committed := fun i hi => by
      rcases Nat.lt_succ_iff_lt_or_eq.mp hi with hi | rfl
      · exact h.committed i hi
      · exact hblock }

theorem write (h : r.Valid) {payload : Bytes} (hsize : payload.size = r.payload.size) :
    { r with payload := payload }.Valid :=
  { h with size_payload := hsize.trans h.size_payload }

/-- The blocks end where the layout says, and there is room for the next one. -/
theorem next_le_size (h : r.Valid) (hroom : r.blocks.size < r.layout.blockCount) :
    (r.layout.blockAt r.blocks.size).next ≤ r.payload.size := by
  rw [h.size_payload, Layout.payloadBytes_eq]
  exact r.layout.offsetOf_mono hroom

/-- All that a commit of a block can do: it makes the block of the layout, or it is refused and
changes nothing. The payload is never too short for it. -/
theorem commitBlock_cases (h : r.Valid) (k : Nat) (anchor : Span) (packed : Bool) :
    (k = r.blocks.size ∧ k < r.layout.blockCount ∧ packed = r.layout.policy.packs k ∧
      r.anchors.refusal? anchor = none ∧ r.commitBlock k anchor packed =
        (r.appendBlock anchor (r.layout.blockAt k), .ok (r.layout.blockAt k))) ∨
    ¬ (k = r.blocks.size ∧ k < r.layout.blockCount ∧ packed = r.layout.policy.packs k ∧
      r.anchors.refusal? anchor = none) ∧
    ∃ e, r.commitBlock k anchor packed = (r, .error e) ∧
      ∀ needed available, e ≠ .payloadOverflow needed available := by
  have hle := h.size_blocks
  unfold BlockedRegion.commitBlock
  by_cases hsize : r.blocks.size = r.layout.blockCount
  · rw [if_pos hsize]
    exact .inr ⟨fun hnext => by omega, _, rfl, nofun⟩
  rw [if_neg hsize]
  by_cases hk : k ≠ r.blocks.size
  · rw [if_pos hk]
    exact .inr ⟨fun hnext => hk hnext.1, _, rfl, nofun⟩
  rw [if_neg hk]
  by_cases hpacked : packed ≠ r.layout.policy.packs k
  · rw [if_pos hpacked]
    exact .inr ⟨fun hnext => hpacked hnext.2.2.1, _, rfl, nofun⟩
  rw [if_neg hpacked]
  rw [Decidable.not_not] at hk hpacked
  subst hk hpacked
  have hnext := h.next_le_size (by omega)
  rw [h.nextBlock_eq, if_neg (by omega)]
  cases hrefusal : r.anchors.refusal? anchor with
  | some cause =>
    exact .inr ⟨fun hnext => (nomatch hnext.2.2.2), _, logBlock_of_some hrefusal _, nofun⟩
  | none => exact .inl ⟨rfl, by omega, rfl, rfl, logBlock_of_none hrefusal _⟩

/-- All that a commit of an element can do: it makes the next one, or it is refused and changes
nothing. -/
theorem commitElement_cases (h : r.Valid) (i : Nat) (span : OffsetSpan) :
    (i = r.count ∧ i < r.layout.length ∧ r.layout.blockOf i < r.blocks.size ∧
      r.commitElement i span = (r.appendElement span, .ok ())) ∨
    ¬ (i = r.count ∧ i < r.layout.length ∧ r.layout.blockOf i < r.blocks.size) ∧
    ∃ e, r.commitElement i span = (r, .error e) ∧
      ∀ needed available, e ≠ .payloadOverflow needed available := by
  have hle := h.count_le
  unfold BlockedRegion.commitElement
  by_cases hi : i ≠ r.count
  · rw [if_pos hi]
    exact .inr ⟨fun hnext => hi hnext.1, _, rfl, nofun⟩
  rw [if_neg hi]
  rw [Decidable.not_not] at hi
  by_cases hblock : r.blocks.size ≤ r.layout.blockOf i
  · rw [if_pos hblock]
    exact .inr ⟨by omega, _, rfl, nofun⟩
  rw [if_neg hblock]
  have hrefusal : r.offsets.refusal? =
      if r.count = r.layout.length then some (.full r.layout.length) else none := by
    rw [OffsetLog.refusal?, h.size_offsets, h.capacity_offsets]
  by_cases hfull : r.count = r.layout.length
  · rw [if_pos hfull] at hrefusal
    exact .inr ⟨by omega, _, logElement_of_some hrefusal span, nofun⟩
  · rw [if_neg hfull] at hrefusal
    exact .inl ⟨hi, by omega, by omega, logElement_of_none hrefusal span⟩

/-- Whether it is taken or not, a commit keeps a region valid. -/
theorem of_commitBlock (h : r.Valid) {k : Nat} {anchor : Span} {packed : Bool}
    {ended : Except RegionError Block} {r' : BlockedRegion}
    (hcommit : r.commitBlock k anchor packed = (r', ended)) : r'.Valid := by
  rcases h.commitBlock_cases k anchor packed with ⟨rfl, hroom, -, -, heq⟩ | ⟨-, e, heq, -⟩
  · cases heq.symm.trans hcommit
    exact h.appendBlock hroom anchor
  · cases heq.symm.trans hcommit
    exact h

theorem of_commitElement (h : r.Valid) {i : Nat} {span : OffsetSpan}
    {ended : Except RegionError Unit} {r' : BlockedRegion}
    (hcommit : r.commitElement i span = (r', ended)) : r'.Valid := by
  rcases h.commitElement_cases i span with ⟨rfl, hcount, hblock, heq⟩ | ⟨-, e, heq, -⟩
  · cases heq.symm.trans hcommit
    exact h.appendElement hcount hblock span
  · cases heq.symm.trans hcommit
    exact h

end Valid

theorem Reachable.valid {r : BlockedRegion} (h : r.Reachable) : r.Valid := by
  induction h with
  | allocate h => exact valid_allocate h
  | commitBlock _ h ih => exact ih.of_commitBlock h
  | commitElement _ h ih => exact ih.of_commitElement h
  | write _ h ih =>
    unfold Bytes.write? at h
    split at h
    · cases h
      exact ih.write (Bytes.size_put ..)
    · cases h

/-! ## Reading -/

theorem readInt?_eq_some (r : BlockedRegion) (kind : Kind) (offset : Nat)
    (h : offset + kind.size ≤ r.payload.size) : ∃ v, r.readInt? kind offset = some v := by
  obtain ⟨v, hv⟩ := Bytes.isSome_readValue? r.payload h
  exact ⟨v.toInt64, by rw [readInt?, hv]; rfl⟩

namespace Valid

variable {r : BlockedRegion}

/-- A committed block ends inside the payload. -/
theorem offsetOf_succ_le (h : r.Valid) {k : Nat} (hk : k < r.blocks.size) :
    r.layout.offsetOf k + r.layout.bytesOf k ≤ r.payload.size := by
  rw [h.size_payload, Layout.payloadBytes_eq]
  exact r.layout.offsetOf_mono (Nat.le_trans hk h.size_blocks)

theorem place?_eq (h : r.Valid) {i : Nat} (hi : r.layout.blockOf i < r.blocks.size) :
    r.place? i = some (r.layout.blockAt (r.layout.blockOf i),
      if r.layout.policy.packs (r.layout.blockOf i) then
        r.layout.offsetOf (r.layout.blockOf i) + r.layout.base.size +
          i % r.layout.blockSize * r.layout.delta.size
      else
        r.layout.offsetOf (r.layout.blockOf i) + i % r.layout.blockSize * r.layout.base.size) := by
  unfold place?
  rw [h.getElem?_blocks hi, Option.map_some]
  by_cases hpacked : r.layout.policy.packs (r.layout.blockOf i) <;>
    simp [Layout.blockAt, hpacked]

theorem base?_eq (h : r.Valid) {k : Nat} (hk : k < r.blocks.size) :
    r.base? k = r.readInt? r.layout.base (r.layout.offsetOf k) := by
  rw [base?, h.getElem?_blocks hk]
  rfl

theorem base?_eq_some (h : r.Valid) {k : Nat} (hk : k < r.blocks.size)
    (hpacked : r.layout.policy.packs k = true) : ∃ b, r.base? k = some b := by
  have hend := h.offsetOf_succ_le hk
  have hbytes := Layout.bytesOf_packed hpacked
  rw [h.base?_eq hk]
  exact readInt?_eq_some r _ _ (by omega)

/-- In a packed block, the value is the sum of the base and the delta, as far as it has one. -/
theorem value?_packed (h : r.Valid) {i : Nat} (hi : i < r.layout.length)
    (hblock : r.layout.blockOf i < r.blocks.size)
    (hpacked : r.layout.policy.packs (r.layout.blockOf i) = true) :
    ∃ b d, r.base? (r.layout.blockOf i) = some b ∧ r.delta? i = some d ∧
      r.value? i = addWithin b d := by
  have hend := h.offsetOf_succ_le hblock
  have hj := Layout.mod_lt_elementsIn h.blockSize_pos hi
  have hbytes := Layout.bytesOf_packed hpacked
  have hdelta := Bytes.stride_le hj r.layout.delta.size
  obtain ⟨b, hb⟩ := readInt?_eq_some r r.layout.base (r.layout.offsetOf (r.layout.blockOf i))
    (by omega)
  obtain ⟨d, hd⟩ := readInt?_eq_some r r.layout.delta
    (r.layout.offsetOf (r.layout.blockOf i) + r.layout.base.size +
      i % r.layout.blockSize * r.layout.delta.size) (by omega)
  have hplace := h.place?_eq hblock
  rw [if_pos hpacked] at hplace
  refine ⟨b, d, ?_, ?_, ?_⟩
  · rw [h.base?_eq hblock, hb]
  · rw [delta?, hplace]
    exact hd
  · unfold value?
    rw [hplace]
    simp only [Layout.blockAt, hpacked, bind, Option.bind, hb, hd, ↓reduceIte]

theorem value?_raw (h : r.Valid) {i : Nat} (hi : i < r.layout.length)
    (hblock : r.layout.blockOf i < r.blocks.size)
    (hraw : r.layout.policy.packs (r.layout.blockOf i) = false) : ∃ v, r.value? i = some v := by
  have hend := h.offsetOf_succ_le hblock
  have hj := Layout.mod_lt_elementsIn h.blockSize_pos hi
  have hbytes := Layout.bytesOf_raw hraw
  have hvalue := Bytes.stride_le hj r.layout.base.size
  obtain ⟨v, hv⟩ := readInt?_eq_some r r.layout.base
    (r.layout.offsetOf (r.layout.blockOf i) +
      i % r.layout.blockSize * r.layout.base.size) (by omega)
  have hplace := h.place?_eq hblock
  rw [if_neg (by simp [hraw])] at hplace
  refine ⟨v, ?_⟩
  unfold value?
  rw [hplace]
  simp only [Layout.blockAt, hraw, bind, Option.bind, hv, Bool.false_eq_true, ↓reduceIte]

theorem span?_eq_some (h : r.Valid) {i : Nat} (hi : i < r.count) : ∃ s, r.span? i = some s := by
  have hoffset : i < r.offsets.spans.size := by rw [h.size_offsets]; exact hi
  have hanchor : r.layout.blockOf i < r.anchors.spans.size := by
    rw [h.size_anchors]
    exact h.committed i hi
  refine ⟨r.offsets.spans[i].resolve r.anchors.spans[r.layout.blockOf i], ?_⟩
  unfold span?
  rw [Array.getElem?_eq_getElem hoffset, Array.getElem?_eq_getElem hanchor]
  rfl

end Valid

end BlockedRegion

end StreamGauge
