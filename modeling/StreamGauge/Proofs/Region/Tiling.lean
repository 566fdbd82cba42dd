import Mathlib.Algebra.Ring.Nat
import StreamGauge.Proofs.Region.Blocked

/-!
# Committed blocks tile the payload

A writer sends a region one `Commit` after the other, also after one that was refused
(`Commit.after`). Whatever was sent, the blocks are those of the layout and the starts of their
anchors increase (`tiled_commits`), and `commits_tile` says what that means: the blocks lie one
after the other from the first byte of the payload on, all of them together fill it, and a region
that refuses a commit is left as it is, its logs included (`Tiled.answer_cases`).

`Layout.blockCount_le_iff` is the arithmetic behind it. There are as many blocks as it takes to
hold the elements, so each of them has an element, and only the last can be short.
-/

namespace StreamGauge

/-- The starts of the spans increase. -/
def SpanLog.Increasing (log : SpanLog) : Prop := log.spans.toList.Pairwise (·.start < ·.start)

theorem SpanLog.refusal?_eq_none_iff {log : SpanLog} {span : Span} :
    log.refusal? span = none ↔ log.spans.size ≠ log.capacity ∧
      ∀ last, log.spans.back? = some last → last.start < span.start := by
  unfold refusal?
  by_cases hfull : log.spans.size = log.capacity
  · simp [hfull]
  · rw [if_neg hfull]
    cases log.spans.back? with
    | none => simp [hfull]
    | some last =>
      simp only [ite_eq_right_iff, Option.some.injEq, forall_eq', reduceCtorEq, imp_false,
        Int.not_le]
      exact ⟨fun h => ⟨hfull, h⟩, fun h => h.2⟩

theorem SpanLog.Increasing.append {log : SpanLog} {span : Span} (h : log.Increasing)
    (hspan : ∀ last, log.spans.back? = some last → last.start < span.start) :
    (log.append span).Increasing := by
  unfold SpanLog.Increasing at h ⊢
  simp only [SpanLog.append, Array.toList_push, List.pairwise_append, List.pairwise_singleton,
    List.mem_singleton, true_and, h]
  rintro s hs _ rfl
  cases hlast : log.spans.back? with
  | none =>
    rw [Array.back?_eq_none_iff.mp hlast] at hs
    cases hs
  | some last =>
    have hlt := hspan last hlast
    obtain ⟨before, hbefore⟩ := Array.back?_eq_some_iff.mp hlast
    rw [hbefore, Array.toList_push] at h hs
    -- The span starts after the last one, which starts after those before it.
    rcases List.mem_append.mp hs with hs | hs
    · have := (List.pairwise_append.mp h).2.2 s hs last (List.mem_singleton_self last)
      omega
    · rwa [List.mem_singleton.mp hs]

namespace Layout

variable {l : Layout}

/-- There are as many blocks as it takes to hold the elements. -/
theorem blockCount_le_iff (hpos : 0 < l.blockSize) {n : Nat} :
    l.blockCount ≤ n ↔ l.length ≤ n * l.blockSize := by
  unfold blockCount
  rw [Nat.div_le_iff_le_mul_add_pred hpos, Nat.mul_comm]
  omega

theorem elementsIn_eq_min (k : Nat) :
    l.elementsIn k = min l.blockSize (l.length - k * l.blockSize) := by
  unfold elementsIn
  split <;> omega

theorem elementsIn_pos (hpos : 0 < l.blockSize) {k : Nat} (hk : k < l.blockCount) :
    0 < l.elementsIn k := by
  have := mt (blockCount_le_iff hpos).mpr (Nat.not_le.mpr hk)
  rw [elementsIn_eq_min]
  omega

/-- Only the last block can be short. -/
theorem succ_eq_of_short (hpos : 0 < l.blockSize) {k : Nat} (hk : k < l.blockCount)
    (hshort : l.elementsIn k < l.blockSize) : k + 1 = l.blockCount := by
  have : l.blockCount ≤ k + 1 := by
    rw [elementsIn_eq_min] at hshort
    rw [blockCount_le_iff hpos, Nat.succ_mul]
    omega
  omega

/-- How many elements the first blocks have. -/
theorem sum_elementsIn (n : Nat) :
    ((List.range n).map l.elementsIn).sum = min (n * l.blockSize) l.length := by
  induction n with
  | zero => simp
  | succ n ih =>
    rw [List.range_succ, List.map_append, List.sum_append, ih, Nat.succ_mul]
    simp only [List.map_cons, List.map_nil, List.sum_singleton, elementsIn_eq_min]
    omega

theorem next_blockAt (k : Nat) : (l.blockAt k).next = (l.blockAt k).start + l.bytesOf k := rfl

end Layout

namespace BlockedRegion

/-- What a writer asks of a region. -/
inductive Commit where
  | block (k : Nat) (anchor : Span) (packed : Bool)
  | element (i : Nat) (span : OffsetSpan)

namespace Commit

/-- What a region becomes, and whether it takes the commit. -/
def answer (c : Commit) (r : BlockedRegion) : BlockedRegion × Except RegionError Unit :=
  match c with
  | block k anchor packed => (r.commitBlock k anchor packed).map id (·.map fun _ => ())
  | element i span => r.commitElement i span

/-- The region that the writer goes on with. -/
def after (r : BlockedRegion) (c : Commit) : BlockedRegion := (c.answer r).1

end Commit

/-- What commits keep of a new region of a layout. -/
structure Tiled (layout : Layout) (r : BlockedRegion) : Prop where
  valid : r.Valid
  layout_eq : r.layout = layout
  capacity_anchors : r.anchors.capacity = layout.blockCount
  anchors : r.anchors.Increasing

theorem tiled_allocate {layout : Layout} {r : BlockedRegion} (h : allocate layout = .ok r) :
    r.Tiled layout := by
  have hvalid := valid_allocate h
  obtain ⟨-, rfl⟩ := of_allocate h
  exact { valid := hvalid, layout_eq := rfl, capacity_anchors := rfl, anchors := .nil }

variable {layout : Layout} {r : BlockedRegion}

namespace Tiled

/-- All that a commit can do: one that is taken leaves the payload alone; one that is refused
changes nothing, and the payload is not why. -/
theorem answer_cases (h : r.Tiled layout) (c : Commit) :
    (∃ r', c.answer r = (r', .ok ()) ∧ r'.Tiled layout ∧ r'.payload = r.payload) ∨
    ∃ e, c.answer r = (r, .error e) ∧
      ∀ needed available, e ≠ .payloadOverflow needed available := by
  cases c with
  | block k anchor packed =>
    rcases h.valid.commitBlock_cases k anchor packed with
      ⟨rfl, hroom, -, hanchor, heq⟩ | ⟨-, e, heq, hne⟩
    · exact .inl ⟨_, by rw [Commit.answer, heq]; rfl, {
        valid := h.valid.appendBlock hroom anchor
        layout_eq := h.layout_eq
        capacity_anchors := h.capacity_anchors
        anchors := h.anchors.append (SpanLog.refusal?_eq_none_iff.mp hanchor).2 }, rfl⟩
    · exact .inr ⟨e, by rw [Commit.answer, heq]; rfl, hne⟩
  | element i span =>
    rcases h.valid.commitElement_cases i span with ⟨rfl, hcount, hblock, heq⟩ | ⟨-, e, heq, hne⟩
    · exact .inl ⟨_, heq, { h with valid := h.valid.appendElement hcount hblock span }, rfl⟩
    · exact .inr ⟨e, heq, hne⟩

theorem after (h : r.Tiled layout) (c : Commit) : (c.after r).Tiled layout := by
  unfold Commit.after
  rcases h.answer_cases c with ⟨r', heq, htiled, -⟩ | ⟨e, heq, -⟩
  · rw [heq]
    exact htiled
  · rw [heq]
    exact h

theorem payload_after (h : r.Tiled layout) (c : Commit) : (c.after r).payload = r.payload := by
  unfold Commit.after
  rcases h.answer_cases c with ⟨r', heq, -, hpayload⟩ | ⟨e, heq, -⟩
  · rw [heq]
    exact hpayload
  · rw [heq]

/-- A commit that is refused changes nothing, and the payload is not too short for it. -/
theorem eq_of_answer_error (h : r.Tiled layout) {c : Commit} {e : RegionError}
    {r' : BlockedRegion} (herror : c.answer r = (r', .error e)) :
    r' = r ∧ ∀ needed available, e ≠ .payloadOverflow needed available := by
  rcases h.answer_cases c with ⟨_, heq, -⟩ | ⟨_, heq, hne⟩
  · cases heq.symm.trans herror
  · cases heq.symm.trans herror
    exact ⟨rfl, hne⟩

theorem anchor_fits_iff (h : r.Tiled layout) {anchor : Span}
    (hroom : r.blocks.size < layout.blockCount) : r.anchors.refusal? anchor = none ↔
      ∀ last, r.anchors.spans.back? = some last → last.start < anchor.start := by
  rw [SpanLog.refusal?_eq_none_iff, h.capacity_anchors, h.valid.size_anchors]
  exact and_iff_right (Nat.ne_of_lt hroom)

/-- The next block is taken if it is packed as the policy asks and its anchor advances. -/
theorem commitBlock_eq_ok_iff (h : r.Tiled layout) {k : Nat} {anchor : Span} {packed : Bool}
    {b : Block} {r' : BlockedRegion} :
    r.commitBlock k anchor packed = (r', .ok b) ↔
      k = r.blocks.size ∧ k < layout.blockCount ∧ packed = layout.policy.packs k ∧
      (∀ last, r.anchors.spans.back? = some last → last.start < anchor.start) ∧
      b = layout.blockAt k ∧ r' = r.appendBlock anchor b := by
  -- The guards are what the accepting case has and every refusing case lacks.
  obtain rfl := h.layout_eq
  rcases h.valid.commitBlock_cases k anchor packed with
    ⟨rfl, hroom, hpacked, hanchor, heq⟩ | ⟨hnot, e, heq, -⟩
  · rw [h.anchor_fits_iff hroom] at hanchor
    rw [heq]
    constructor
    · intro hok
      cases hok
      exact ⟨rfl, hroom, hpacked, hanchor, rfl, rfl⟩
    · rintro ⟨-, -, -, -, rfl, rfl⟩
      rfl
  · rw [heq]
    constructor
    · nofun
    · rintro ⟨rfl, hroom, hpacked, hanchor, -, -⟩
      exact absurd ⟨rfl, hroom, hpacked, (h.anchor_fits_iff hroom).mpr hanchor⟩ hnot

/-- The next element is taken if its block is committed. -/
theorem commitElement_eq_ok_iff (h : r.Tiled layout) {i : Nat} {span : OffsetSpan}
    {r' : BlockedRegion} :
    r.commitElement i span = (r', .ok ()) ↔
      i = r.count ∧ i < layout.length ∧ layout.blockOf i < r.blocks.size ∧
      r' = r.appendElement span := by
  obtain rfl := h.layout_eq
  rcases h.valid.commitElement_cases i span with ⟨hi, hlt, hblock, heq⟩ | ⟨hnot, e, heq, -⟩
  · rw [heq]
    constructor
    · intro hok
      cases hok
      exact ⟨hi, hlt, hblock, rfl⟩
    · rintro ⟨-, -, -, rfl⟩
      rfl
  · rw [heq]
    constructor
    · nofun
    · rintro ⟨hi, hlt, hblock, -⟩
      exact absurd ⟨hi, hlt, hblock⟩ hnot

end Tiled

theorem tiled_commits (h : r.Tiled layout) (commits : List Commit) :
    (commits.foldl Commit.after r).Tiled layout := by
  induction commits generalizing r with
  | nil => exact h
  | cons c commits ih => exact ih (h.after c)

/-- Whatever was written into the payload. -/
theorem Reachable.tiled (hr : r.Reachable) : r.Tiled r.layout := by
  -- The induction has no layout to speak of before the region is allocated, so it finds one.
  suffices h : ∃ layout, r.Tiled layout by
    obtain ⟨layout, h⟩ := h
    rwa [h.layout_eq]
  induction hr with
  | allocate h => exact ⟨_, tiled_allocate h⟩
  | @commitBlock r r' k anchor packed _ _ h ih =>
    obtain ⟨layout, htiled⟩ := ih
    have hafter := htiled.after (.block k anchor packed)
    simp only [Commit.after, Commit.answer, h] at hafter
    exact ⟨layout, hafter⟩
  | @commitElement r r' i span _ _ h ih =>
    obtain ⟨layout, htiled⟩ := ih
    have hafter := htiled.after (.element i span)
    simp only [Commit.after, Commit.answer, h] at hafter
    exact ⟨layout, hafter⟩
  | write _ h ih =>
    obtain ⟨layout, htiled⟩ := ih
    -- A write goes into the payload, of which `Tiled` knows the size alone.
    unfold Bytes.write? at h
    split at h
    · cases h
      exact ⟨layout, { htiled with valid := htiled.valid.write (Bytes.size_put ..) }⟩
    · cases h

namespace Valid

theorem eq_blockAt (h : r.Valid) {k : Nat} {b : Block} (hb : r.blocks[k]? = some b) :
    k < r.blocks.size ∧ b = r.layout.blockAt k := by
  obtain ⟨hk, rfl⟩ := Array.getElem?_eq_some_iff.mp hb
  exact ⟨hk, h.blocks k hk⟩

/-- The committed blocks have as many elements as fit in them. -/
theorem sum_lengths (h : r.Valid) : (r.blocks.toList.map (·.length.toNat)).sum =
    min (r.blocks.size * r.layout.blockSize) r.layout.length := by
  rw [← Layout.sum_elementsIn]
  congr 1
  refine List.ext_getElem (by simp) fun k hk _ => ?_
  simp only [List.length_map, Array.length_toList] at hk
  simp only [List.getElem_map, Array.getElem_toList, List.getElem_range, h.blocks k hk]
  exact Layout.length_blockAt (Layout.blockSize_of_check h.check).2 k

theorem count_le_mul (h : r.Valid) : r.count ≤ r.blocks.size * r.layout.blockSize := by
  by_cases hcount : r.count = 0
  · omega
  -- The block of the last element is committed.
  · have hlast := h.committed (r.count - 1) (by omega)
    rw [Layout.blockOf, Nat.div_lt_iff_lt_mul h.blockSize_pos] at hlast
    omega

theorem count_le_sum (h : r.Valid) : r.count ≤ (r.blocks.toList.map (·.length.toNat)).sum := by
  rw [h.sum_lengths]
  exact Nat.le_min.mpr ⟨h.count_le_mul, h.count_le⟩

end Valid

/-- After any commits to a new region of a layout:

* the blocks lie one after the other from the first byte on, and inside the payload; when all of
  them are committed, they fill it;
* block `k` takes the bytes of `elementsIn k` elements, packed as the policy asks; it has at least
  one element, and fewer than a full block only if it is the last one;
* every block has an anchor, the starts of the anchors increase, and there are at most as many
  blocks as it takes to hold the elements of the layout;
* every element has a span, and there are at most as many as the layout and the blocks have room
  for;
* a block is taken exactly if it is the next one, packed as the policy asks, and its anchor
  advances; an element exactly if it is the next one of the layout and its block is committed;
* no commit is refused because the payload is too short, and a region that refuses one is left as
  it is. -/
theorem commits_tile {layout : Layout} {r₀ : BlockedRegion} (h : allocate layout = .ok r₀)
    (commits : List Commit) :
    let r := commits.foldl Commit.after r₀
    (∀ b, r.blocks[0]? = some b → b.start = 0) ∧
    (∀ k b c, r.blocks[k]? = some b → r.blocks[k + 1]? = some c → b.next = c.start) ∧
    (∀ k b, r.blocks[k]? = some b →
      b.next = b.start +
        blockBytes layout.base layout.delta (layout.elementsIn k) (layout.policy.packs k) ∧
      b.next ≤ r.payload.size ∧
      b.packed = layout.policy.packs k ∧
      b.length.toNat = layout.elementsIn k ∧
      0 < layout.elementsIn k ∧ layout.elementsIn k ≤ layout.blockSize ∧
      (layout.elementsIn k < layout.blockSize → k + 1 = layout.blockCount)) ∧
    (r.blocks.size = layout.blockCount → r.nextStart = r.payload.size) ∧
    (r.anchors.size = r.blocks.size ∧ r.anchors.Increasing ∧
      r.blocks.size ≤ layout.blockCount ∧
      ∀ n, layout.blockCount ≤ n ↔ layout.length ≤ n * layout.blockSize) ∧
    (r.offsets.size = r.count ∧ r.count ≤ layout.length ∧
      r.count ≤ (r.blocks.toList.map (·.length.toNat)).sum) ∧
    (∀ k anchor packed b r', r.commitBlock k anchor packed = (r', .ok b) ↔
      k = r.blocks.size ∧ k < layout.blockCount ∧ packed = layout.policy.packs k ∧
      (∀ last, r.anchors.spans.back? = some last → last.start < anchor.start) ∧
      b = layout.blockAt k ∧ r' = r.appendBlock anchor b) ∧
    (∀ i span r', r.commitElement i span = (r', .ok ()) ↔
      i = r.count ∧ i < layout.length ∧ layout.blockOf i < r.blocks.size ∧
      r' = r.appendElement span) ∧
    (∀ c r' needed available,
      Commit.answer c r ≠ (r', .error (.payloadOverflow needed available))) ∧
    ∀ c r' e, Commit.answer c r = (r', .error e) → r' = r := by
  intro r
  have htiled : r.Tiled layout := tiled_commits (tiled_allocate h) commits
  obtain rfl := htiled.layout_eq
  have hvalid := htiled.valid
  have hpos := hvalid.blockSize_pos
  have hsize := (Layout.blockSize_of_check hvalid.check).2
  refine ⟨fun b hb => ?first, fun k b c hb hc => ?adjacent, fun k b hb => ?block, fun hall => ?full,
    ⟨hvalid.size_anchors, htiled.anchors, hvalid.size_blocks, fun n =>
      Layout.blockCount_le_iff hpos⟩,
    ⟨hvalid.size_offsets, hvalid.count_le, hvalid.count_le_sum⟩,
    fun _ _ _ _ _ => htiled.commitBlock_eq_ok_iff, fun _ _ _ => htiled.commitElement_eq_ok_iff,
    fun _ _ needed available herror => (htiled.eq_of_answer_error herror).2 needed available rfl,
    fun _ _ _ herror => (htiled.eq_of_answer_error herror).1⟩
  case first =>
    obtain ⟨-, rfl⟩ := hvalid.eq_blockAt hb
    rfl
  case adjacent =>
    obtain ⟨-, rfl⟩ := hvalid.eq_blockAt hb
    obtain ⟨-, rfl⟩ := hvalid.eq_blockAt hc
    rfl
  case block =>
    obtain ⟨hk, rfl⟩ := hvalid.eq_blockAt hb
    have hcount := Nat.lt_of_lt_of_le hk hvalid.size_blocks
    exact ⟨Layout.next_blockAt k, hvalid.offsetOf_succ_le hk, rfl, Layout.length_blockAt hsize k,
      Layout.elementsIn_pos hpos hcount, Layout.elementsIn_le k,
      Layout.succ_eq_of_short hpos hcount⟩
  case full => rw [hvalid.nextStart_eq, hall, hvalid.size_payload, Layout.payloadBytes_eq]

/-- Three elements in a packed block and a short raw one. A commit of an element comes before its
block, and the anchor of the raw block does not advance at first. -/
theorem commits_tile_of_two_blocks :
    let layout : Layout := ⟨.i64, .i8, 3, 2, .everyNth 2⟩
    ∃ r₀, allocate layout = .ok r₀ ∧
      let r := [.element 0 ⟨0, 1⟩, .block 0 ⟨0, 2⟩ true, .block 1 ⟨0, 1⟩ false,
        .block 1 ⟨2, 1⟩ false].foldl Commit.after r₀
      r.blocks = #[⟨0, 10, 2, true⟩, ⟨10, 18, 1, false⟩] ∧ r.nextStart = r.payload.size :=
  have h : allocate ⟨.i64, .i8, 3, 2, .everyNth 2⟩ = .ok _ := rfl
  ⟨_, h, by decide, (commits_tile h _).2.2.2.1 (by decide)⟩

end BlockedRegion

end StreamGauge
