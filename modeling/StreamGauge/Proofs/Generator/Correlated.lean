import StreamGauge.Generator.Correlated
import StreamGauge.Proofs.Region.Storage
import StreamGauge.Random.Draw

/-!
# What a block-correlated stream writes

A fill either changes nothing or writes the whole region, and what it writes are the numbers drawn,
whatever the policy and the kinds of the region (`CorrelatedStream.fill_values`).

* `Ranged` says what the ranges of a generator have in common (`Configured.ranged`): every base,
  every delta and their sum stay within 64 bits.
* `baseAt` and `deltaAt` are the draws of a fill: a base for each block, followed by a delta for
  each of its elements. They depend on nothing but the generator and the sizes of the region.
* `Filled` says what the region holds after some blocks and elements. Every step of the fill keeps
  it (`Filled.element`, `Filled.block`), so a fill that begins ends with all of it (`fill_cases`).
-/

namespace StreamGauge

/-! ## Regions -/

namespace Layout

variable (l : Layout)

/-- The cell that holds the number of element `i`. -/
def elementCell (i : Nat) : Cell := if l.policy.packs (l.blockOf i) then .delta i else .raw i

variable {l}

theorem hasCell_elementCell {i : Nat} (hi : i < l.length) : l.HasCell (l.elementCell i) := by
  unfold elementCell
  by_cases hpacks : l.policy.packs (l.blockOf i) = true
  · rw [if_pos hpacks]
    exact ⟨hi, hpacks⟩
  · rw [if_neg hpacks]
    exact ⟨hi, by simpa [blockOfCell, Cell.packed] using hpacks⟩

theorem blockOfCell_elementCell (i : Nat) : l.blockOfCell (l.elementCell i) = l.blockOf i := by
  unfold elementCell
  split <;> rfl

/-- Where a block that has elements begins, and where it ends. -/
theorem min_mul_of_lt (hpos : 0 < l.blockSize) {k : Nat} (hk : k < l.blockCount) :
    min (k * l.blockSize) l.length = k * l.blockSize ∧
      k * l.blockSize + l.elementsIn k = min ((k + 1) * l.blockSize) l.length := by
  have hlt := mt (blockCount_le_iff hpos).mpr (Nat.not_le.mpr hk)
  rw [elementsIn_eq_min, Nat.succ_mul]
  omega

end Layout

namespace BlockedRegion

variable {l : Layout} {r : BlockedRegion}

theorem exists_payload_putInt (r : BlockedRegion) (kind : Kind) (place? : Option Nat) (v : Int64) :
    ∃ payload, r.putInt kind place? v = { r with payload := payload } := by
  unfold putInt
  split
  · exact ⟨_, rfl⟩
  · exact ⟨r.payload, rfl⟩

theorem exists_payload_putElement (r : BlockedRegion) (i : Nat) (delta value : Int64) :
    ∃ payload, r.putElement i delta value = { r with payload := payload } := by
  unfold putElement
  split
  · exact ⟨r.payload, rfl⟩
  · split <;> exact exists_payload_putInt ..

namespace Keeps

variable {contents : Cell → Int64}

/-- Storing an element is a write to its cell. -/
theorem putElement (h : r.Keeps l contents) {i : Nat} (hi : i < l.length)
    (hblock : l.blockOf i < r.blocks.size) (delta value : Int64) :
    (r.putElement i delta value).Keeps l (Call.record contents
      (.write (l.elementCell i) (if l.policy.packs (l.blockOf i) then delta else value))) := by
  obtain rfl := h.tiled.layout_eq
  have hholds : r.Holds (r.layout.elementCell i) :=
    ⟨Layout.hasCell_elementCell hi, by rwa [Layout.blockOfCell_elementCell]⟩
  obtain ⟨r', hwrite, hkeeps⟩ := h.write hholds
    (if r.layout.policy.packs (r.layout.blockOf i) then delta else value)
  have hput : r' = r.putElement i delta value := by
    rw [h.tiled.valid.write?_of_holds hholds, Option.some.injEq] at hwrite
    rw [← hwrite, BlockedRegion.putElement, h.tiled.valid.place?_eq hblock]
    by_cases hpacks : r.layout.policy.packs (r.layout.blockOf i) = true <;>
      simp [hpacks, Layout.elementCell, Layout.blockAt, Layout.placeOf, Layout.kindOf, putInt]
  rwa [hput] at hkeeps

/-- Storing the base of a packed block is a write to its cell. -/
theorem putBase_packed (h : r.Keeps l contents) {k : Nat} (hk : k < r.blocks.size)
    (hpacks : l.policy.packs k = true) (v : Int64) :
    (r.putBase k v).Keeps l (Call.record contents (.write (.base k) v)) := by
  obtain rfl := h.tiled.layout_eq
  have hholds : r.Holds (.base k) :=
    ⟨⟨Nat.lt_of_lt_of_le hk h.tiled.valid.size_blocks, hpacks⟩, hk⟩
  obtain ⟨r', hwrite, hkeeps⟩ := h.write hholds v
  have hput : r' = r.putBase k v := by
    have hplace := h.tiled.valid.placeOf?_of_holds hholds
    simp only [placeOf?] at hplace
    rw [h.tiled.valid.write?_of_holds hholds, Option.some.injEq] at hwrite
    rw [← hwrite, BlockedRegion.putBase, hplace]
    rfl
  rwa [hput] at hkeeps

/-- A raw block has no base to store. -/
theorem putBase_raw (h : r.Keeps l contents) {k : Nat} (hraw : l.policy.packs k = false)
    (v : Int64) : r.putBase k v = r := by
  obtain rfl := h.tiled.layout_eq
  have hplace := h.tiled.valid.placeOf?_eq (.base k)
  rw [if_neg (by simp [Layout.blockOfCell, Cell.packed, hraw])] at hplace
  simp only [placeOf?] at hplace
  rw [BlockedRegion.putBase, hplace]
  rfl

end Keeps

end BlockedRegion

/-! ## Generators -/

namespace CorrelatedStream

section Cells

variable {l : Layout} {k n : Nat}

/-- The cells of the first `k` blocks and `n` elements. -/
def Reached (k n : Nat) : Cell → Prop
  | .base j => j < k
  | .delta i | .raw i => i < n

/-- With one element more, one cell more is reached. -/
theorem Reached.of_succ {c : Cell} (hc : l.HasCell c) (h : Reached k (n + 1) c)
    (hne : c ≠ l.elementCell n) : Reached k n c := by
  cases c with
  | base j => exact h
  | delta i =>
    refine Nat.lt_of_le_of_ne (Nat.le_of_lt_succ h) ?_
    rintro rfl
    exact hne (if_pos hc.packs).symm
  | raw i =>
    refine Nat.lt_of_le_of_ne (Nat.le_of_lt_succ h) ?_
    rintro rfl
    exact hne (if_neg (Bool.eq_false_iff.mp hc.packs)).symm

/-- With one block more, its base is all that is reached. -/
theorem Reached.of_succ_block {c : Cell} (h : Reached (k + 1) n c) (hne : c ≠ .base k) :
    Reached k n c := by
  cases c with
  | base j =>
    refine Nat.lt_of_le_of_ne (Nat.le_of_lt_succ h) ?_
    rintro rfl
    exact hne rfl
  | delta i => exact h
  | raw i => exact h

end Cells

theorem of_checkRanges {minBase baseRange deltaRange : Int}
    (h : checkRanges minBase baseRange deltaRange = .ok ()) :
    minBase + (baseRange - 1) + (deltaRange - 1) ≤ maxInt64 := by
  unfold checkRanges at h
  split at h
  · cases h
  · omega

theorem of_checkFits {role : RangeRole} {kind : Kind} (hk : kind.isInteger = true) {lo hi : Int}
    (h : checkFits role kind lo hi = .ok ()) (n : Int) (hlo : lo ≤ n) (hhi : n ≤ hi) :
    kind.Contains n := by
  obtain ⟨first, last, hrange⟩ := Kind.exists_intRange? hk
  rcases checkFits_cases role kind lo hi with ⟨hfits, -⟩ | ⟨-, herror⟩
  · obtain ⟨hfirst, hlast⟩ := hfits first last hrange
    exact ⟨first, last, hrange, by omega, by omega⟩
  · rw [herror] at h
    cases h

theorem toNat_ofInt_uInt32 {n : Int} (hnonneg : 0 ≤ n) (hlt : n < UInt32.size) :
    ((UInt32.ofInt n).toNat : Int) = n := by
  have hsize : UInt32.size = 4294967296 := rfl
  unfold UInt32.ofInt
  rw [UInt32.toNat_ofNat']
  omega

section Fills

variable [RandomSource]

/-- The generators that there are: new ones, with other ranges if these are accepted, and after
fills. -/
inductive Configured : CorrelatedStream → Prop where
  | make {period : Int64} {length : Nat} {seed : UInt64} {g : CorrelatedStream}
      (h : make period.toInt length seed = .ok g) : Configured g
  | withBase {g g' : CorrelatedStream} {minBase baseRange : Int64} (hg : Configured g)
      (h : g.withBase minBase.toInt baseRange.toInt = .ok g') : Configured g'
  | withDeltaRange {g g' : CorrelatedStream} {deltaRange : Int64} (hg : Configured g)
      (h : g.withDeltaRange deltaRange.toInt = .ok g') : Configured g'
  | fill {g : CorrelatedStream} (hg : Configured g) (r : BlockedRegion) :
      Configured (g.fill r).1.1

/-- The ranges are not empty, and no value leaves 64 bits. -/
structure Ranged (g : CorrelatedStream) : Prop where
  period_pos : 0 < g.period
  baseRange_pos : 0 < g.baseRange
  deltaRange_pos : 0 < g.deltaRange
  le_minBase : minInt64 ≤ g.minBase
  maxValue_le : g.maxValue ≤ maxInt64

variable {g : CorrelatedStream}

/-- A fill moves the draws on and nothing else. -/
theorem exists_draws_fill (g : CorrelatedStream) (r : BlockedRegion) :
    ∃ draws, (g.fill r).1.1 = { g with draws := draws } := by
  unfold fill
  split
  · exact ⟨g.draws, rfl⟩
  · exact ⟨_, rfl⟩

theorem Configured.ranged (h : g.Configured) : g.Ranged := by
  induction h with
  | make h =>
    unfold CorrelatedStream.make at h
    split at h
    · cases h
    case isFalse hperiod =>
      cases h
      exact {
        period_pos := Int.not_le.mp hperiod
        baseRange_pos := show (0 : Int) < 100 by decide
        deltaRange_pos := show (0 : Int) < 100 by decide
        le_minBase := show minInt64 ≤ -100 by decide
        maxValue_le := show (-100 : Int) + (100 - 1) + (100 - 1) ≤ maxInt64 by decide }
  | @withBase g g' minBase baseRange _ h ih =>
    unfold CorrelatedStream.withBase at h
    split at h
    · cases h
    case isFalse hpos =>
      cases hcheck : checkRanges minBase.toInt baseRange.toInt g.deltaRange with
      | error e =>
        rw [hcheck] at h
        cases h
      | ok u =>
        rw [hcheck] at h
        cases h
        exact { ih with
          baseRange_pos := Int.not_le.mp hpos
          le_minBase := minBase.le_toInt
          maxValue_le := of_checkRanges hcheck }
  | @withDeltaRange g g' deltaRange _ h ih =>
    unfold CorrelatedStream.withDeltaRange at h
    split at h
    · cases h
    case isFalse hpos =>
      cases hcheck : checkRanges g.minBase g.baseRange deltaRange.toInt with
      | error e =>
        rw [hcheck] at h
        cases h
      | ok u =>
        rw [hcheck] at h
        cases h
        exact { ih with
          deltaRange_pos := Int.not_le.mp hpos
          maxValue_le := of_checkRanges hcheck }
  | @fill g _ r ih =>
    obtain ⟨draws, heq⟩ := exists_draws_fill g r
    rw [heq]
    exact { ih with }

/-! ## Draws -/

/-- The draws after `n` deltas. -/
def skipDeltas (g : CorrelatedStream) (draws : Draws) : Nat → Draws
  | 0 => draws
  | n + 1 => ((g.skipDeltas draws n).int 0 (g.deltaRange - 1)).2

/-- The draws after the base that comes next. -/
def skipBase (g : CorrelatedStream) (draws : Draws) : Draws := (draws.int g.minBase g.maxBase).2

/-- The draws of a fill where block `k` begins. -/
def drawsAt (g : CorrelatedStream) (l : Layout) : Nat → Draws
  | 0 => g.draws
  | k + 1 => g.skipDeltas (g.skipBase (g.drawsAt l k)) (l.elementsIn k)

/-- The base that a fill draws for block `k`. -/
def baseAt (g : CorrelatedStream) (l : Layout) (k : Nat) : Int :=
  ((g.drawsAt l k).int g.minBase g.maxBase).1

/-- The delta that a fill draws for the element at place `j` of block `k`. -/
def deltaIn (g : CorrelatedStream) (l : Layout) (k j : Nat) : Int :=
  ((g.skipDeltas (g.skipBase (g.drawsAt l k)) j).int 0 (g.deltaRange - 1)).1

/-- The delta that a fill draws for element `i`. -/
def deltaAt (g : CorrelatedStream) (l : Layout) (i : Nat) : Int :=
  g.deltaIn l (l.blockOf i) (i % l.blockSize)

variable {l l' : Layout}

theorem drawsAt_congr (hlength : l.length = l'.length) (hsize : l.blockSize = l'.blockSize)
    (k : Nat) : g.drawsAt l k = g.drawsAt l' k := by
  induction k with
  | zero => rfl
  | succ k ih => simp only [drawsAt, ih, Layout.elementsIn, hlength, hsize]

/-- The draws do not depend on the kinds and the policy. -/
theorem baseAt_congr (hlength : l.length = l'.length) (hsize : l.blockSize = l'.blockSize)
    (k : Nat) : g.baseAt l k = g.baseAt l' k := by
  simp only [baseAt, drawsAt_congr hlength hsize]

theorem deltaAt_congr (hlength : l.length = l'.length) (hsize : l.blockSize = l'.blockSize)
    (i : Nat) : g.deltaAt l i = g.deltaAt l' i := by
  simp only [deltaAt, deltaIn, Layout.blockOf, hsize, drawsAt_congr hlength hsize]

namespace Ranged

theorem baseAt_mem (h : g.Ranged) (l : Layout) (k : Nat) :
    g.minBase ≤ g.baseAt l k ∧ g.baseAt l k ≤ g.maxBase := by
  have := h.baseRange_pos
  exact Draws.int_mem (by unfold maxBase; omega) _

theorem deltaAt_mem (h : g.Ranged) (l : Layout) (i : Nat) :
    0 ≤ g.deltaAt l i ∧ g.deltaAt l i ≤ g.deltaRange - 1 := by
  have := h.deltaRange_pos
  exact Draws.int_mem (by omega) _

/-- A base and a delta sum up to a value of the generator. -/
theorem sum_mem (h : g.Ranged) (l : Layout) (k i : Nat) :
    g.minValue ≤ g.baseAt l k + g.deltaAt l i ∧ g.baseAt l k + g.deltaAt l i ≤ g.maxValue := by
  have hbase := h.baseAt_mem l k
  have hdelta := h.deltaAt_mem l i
  unfold minValue maxValue
  omega

end Ranged

/-! ## What a fill leaves -/

/-- The number that a fill stores in a cell. -/
def numberOf (g : CorrelatedStream) (l : Layout) : Cell → Int
  | .base k => g.baseAt l k
  | .delta i => g.deltaAt l i
  | .raw i => g.baseAt l (l.blockOf i) + g.deltaAt l i

/-- The span that a fill gives to element `i`. -/
def spanOf (g : CorrelatedStream) (l : Layout) (i : Nat) : OffsetSpan :=
  ⟨UInt32.ofInt ((i % l.blockSize : Nat) * g.period), UInt32.ofInt g.period⟩

/-- The anchor that a fill gives to block `k`. -/
def anchorOf (g : CorrelatedStream) (l : Layout) (k : Nat) : Span :=
  ⟨(k * l.blockSize : Nat) * g.period, g.period⟩

/-- What the region holds when `k` blocks and `n` elements are written. -/
structure Filled (g : CorrelatedStream) (l : Layout) (k n : Nat) (r : BlockedRegion) : Prop where
  blocks : r.blocks.size = k
  count : r.count = n
  anchors : ∀ j < k, r.anchors.spans[j]? = some (g.anchorOf l j)
  offsets : ∀ i < n, r.offsets.spans[i]? = some (g.spanOf l i)
  stored : ∃ contents, r.Keeps l contents ∧
    ∀ c, l.HasCell c → Reached k n c → contents c = Int64.ofInt (g.numberOf l c)

variable {r : BlockedRegion} {k n j : Nat}

namespace Filled

theorem tiled (h : g.Filled l k n r) : r.Tiled l := by
  obtain ⟨contents, hkeeps, -⟩ := h.stored
  exact hkeeps.tiled

theorem commitElement_eq (h : g.Filled l k n r) (hn : n < l.length) (hblock : l.blockOf n < k)
    (span : OffsetSpan) : r.commitElement n span = (r.appendElement span, .ok ()) :=
  h.tiled.commitElement_eq_ok_iff.mpr ⟨h.count.symm, hn, h.blocks.symm ▸ hblock, rfl⟩

/-- With the next element, which belongs to one of the blocks. -/
theorem putElement (h : g.Filled l k n r) (hn : n < l.length) (hblock : l.blockOf n < k) :
    g.Filled l k (n + 1) ((r.appendElement (g.spanOf l n)).putElement n
      (Int64.ofInt (g.deltaAt l n)) (Int64.ofInt (g.baseAt l (l.blockOf n) + g.deltaAt l n))) := by
  obtain ⟨contents, hkeeps, hstored⟩ := h.stored
  have hafter := hkeeps.commit (.element n (g.spanOf l n))
  simp only [BlockedRegion.Commit.after, BlockedRegion.Commit.answer,
    h.commitElement_eq hn hblock] at hafter
  have hput := hafter.putElement hn (Nat.lt_of_lt_of_eq hblock h.blocks.symm)
    (Int64.ofInt (g.deltaAt l n)) (Int64.ofInt (g.baseAt l (l.blockOf n) + g.deltaAt l n))
  -- Whichever cell the element has, the number that goes into it is that of `numberOf`.
  have hnumber : (if l.policy.packs (l.blockOf n) then Int64.ofInt (g.deltaAt l n)
      else Int64.ofInt (g.baseAt l (l.blockOf n) + g.deltaAt l n)) =
        Int64.ofInt (g.numberOf l (l.elementCell n)) := by
    unfold Layout.elementCell
    split <;> rfl
  rw [hnumber] at hput
  obtain ⟨payload, hpayload⟩ := (r.appendElement (g.spanOf l n)).exists_payload_putElement n
    (Int64.ofInt (g.deltaAt l n)) (Int64.ofInt (g.baseAt l (l.blockOf n) + g.deltaAt l n))
  rw [hpayload] at hput ⊢
  refine {
    blocks := h.blocks
    count := congrArg (· + 1) h.count
    anchors := h.anchors
    offsets := fun i hi => ?offsets
    stored := ⟨_, hput, fun c hc hreached => ?stored⟩ }
  case offsets =>
    have hsize : r.offsets.spans.size = n := h.tiled.valid.size_offsets.trans h.count
    change (r.offsets.spans.push (g.spanOf l n))[i]? = _
    rw [Array.getElem?_push, hsize]
    split
    case isTrue hlast => rw [hlast]
    case isFalse hother => exact h.offsets i (by omega)
  case stored =>
    simp only [BlockedRegion.Call.record]
    split
    case isTrue heq => rw [heq]
    case isFalse hne => exact hstored c hc (hreached.of_succ hc hne)

/-- Each anchor starts after the one before it. -/
theorem anchorOf_advances (h : g.Filled l k n r) (hperiod : 0 < g.period) (last : Span)
    (hlast : r.anchors.spans.back? = some last) : last.start < (g.anchorOf l k).start := by
  have hpos : 0 < l.blockSize := by
    rw [← h.tiled.layout_eq]
    exact h.tiled.valid.blockSize_pos
  rw [Array.back?_eq_getElem?, h.tiled.valid.size_anchors, h.blocks] at hlast
  by_cases hk : k = 0
  · subst hk
    rw [Array.getElem?_eq_none (by rw [h.tiled.valid.size_anchors, h.blocks])] at hlast
    cases hlast
  · rw [h.anchors (k - 1) (by omega)] at hlast
    cases hlast
    have hless : (k - 1) * l.blockSize < k * l.blockSize :=
      Nat.mul_lt_mul_of_pos_right (by omega) hpos
    exact Int.mul_lt_mul_of_pos_right (Int.ofNat_lt.mpr hless) hperiod

theorem commitBlock_eq (h : g.Filled l k n r) (hk : k < l.blockCount) (hperiod : 0 < g.period) :
    r.commitBlock k (g.anchorOf l k) (l.policy.packs k) =
      (r.appendBlock (g.anchorOf l k) (l.blockAt k), .ok (l.blockAt k)) :=
  h.tiled.commitBlock_eq_ok_iff.mpr
    ⟨h.blocks.symm, hk, rfl, h.anchorOf_advances hperiod, rfl, rfl⟩

/-- With the next block, before its first element. -/
theorem putBase (h : g.Filled l k n r) (hk : k < l.blockCount) (hperiod : 0 < g.period) :
    g.Filled l (k + 1) n ((r.appendBlock (g.anchorOf l k) (l.blockAt k)).putBase k
      (Int64.ofInt (g.baseAt l k))) := by
  obtain ⟨contents, hkeeps, hstored⟩ := h.stored
  have hafter := hkeeps.commit (.block k (g.anchorOf l k) (l.policy.packs k))
  simp only [BlockedRegion.Commit.after, BlockedRegion.Commit.answer,
    h.commitBlock_eq hk hperiod, Prod.map, id] at hafter
  have hsize : (r.appendBlock (g.anchorOf l k) (l.blockAt k)).blocks.size = k + 1 := by
    simp [BlockedRegion.appendBlock, h.blocks]
  -- The base goes into its cell, if there is one.
  have hput : ∃ contents,
      ((r.appendBlock (g.anchorOf l k) (l.blockAt k)).putBase k
        (Int64.ofInt (g.baseAt l k))).Keeps l contents ∧
      ∀ c, l.HasCell c → Reached (k + 1) n c → contents c = Int64.ofInt (g.numberOf l c) := by
    by_cases hpacks : l.policy.packs k = true
    · refine ⟨_, hafter.putBase_packed (by omega) hpacks _, fun c hc hreached => ?_⟩
      simp only [BlockedRegion.Call.record]
      split
      case isTrue heq =>
        rw [heq]
        rfl
      case isFalse hne =>
        exact hstored c hc (hreached.of_succ_block hne)
    · refine ⟨contents, ?_, fun c hc hreached => hstored c hc (hreached.of_succ_block ?_)⟩
      · rwa [hafter.putBase_raw (by simpa using hpacks)]
      · rintro rfl
        exact hpacks hc.packs
  obtain ⟨payload, hpayload⟩ := (r.appendBlock (g.anchorOf l k) (l.blockAt k)).exists_payload_putInt
    (r.appendBlock (g.anchorOf l k) (l.blockAt k)).layout.base
    ((r.appendBlock (g.anchorOf l k) (l.blockAt k)).basePlace? k) (Int64.ofInt (g.baseAt l k))
  rw [BlockedRegion.putBase, hpayload] at hput ⊢
  refine {
    blocks := hsize
    count := h.count
    anchors := fun j hj => ?anchors
    offsets := h.offsets
    stored := hput }
  case anchors =>
    have hlog : r.anchors.spans.size = k := h.tiled.valid.size_anchors.trans h.blocks
    change (r.anchors.spans.push (g.anchorOf l k))[j]? = _
    rw [Array.getElem?_push, hlog]
    split
    case isTrue hlast => rw [hlast]
    case isFalse hother => exact h.anchors j (by omega)

end Filled

/-! ## The fill -/

/-- Steps that keep an invariant are all done. -/
theorem sequence_range (step : Nat → Progress → Progress × Except GeneratorError Unit)
    (P : Nat → Progress → Prop) {n : Nat} {p : Progress} (h₀ : P 0 p)
    (hstep : ∀ i < n, ∀ p, P i p → ∃ p', step i p = (p', .ok ()) ∧ P (i + 1) p') :
    ∃ p', sequence step (List.range n) p = (p', .ok ()) ∧ P n p' := by
  -- The list is walked from its front, so the start has to move with it.
  suffices h : ∀ m start p, P start p → start + m = n →
      ∃ p', sequence step (List.range' start m) p = (p', .ok ()) ∧ P n p' by
    rw [List.range_eq_range']
    exact h n 0 p h₀ (Nat.zero_add n)
  intro m
  induction m with
  | zero =>
    rintro start p hp rfl
    exact ⟨p, rfl, hp⟩
  | succ m ih =>
    intro start p hp hend
    obtain ⟨p₁, hfirst, hp₁⟩ := hstep start (by omega) p hp
    obtain ⟨p', hrest, hp'⟩ := ih (start + 1) p₁ hp₁ (by omega)
    refine ⟨p', ?_, hp'⟩
    rw [List.range'_succ, sequence, hfirst]
    exact hrest

/-- One element of a block: the draws move on by its delta. -/
theorem fillElement_step (h : g.Filled l (k + 1) (k * l.blockSize + j) r)
    (hj : j < l.elementsIn k) :
    ∃ r', g.fillElement (g.baseAt l k) (k * l.blockSize) j
        ⟨r, g.skipDeltas (g.skipBase (g.drawsAt l k)) j⟩ =
          (⟨r', g.skipDeltas (g.skipBase (g.drawsAt l k)) (j + 1)⟩, .ok ()) ∧
      g.Filled l (k + 1) (k * l.blockSize + (j + 1)) r' := by
  have hpos : 0 < l.blockSize := by
    rw [← h.tiled.layout_eq]
    exact h.tiled.valid.blockSize_pos
  have hle := l.elementsIn_le k
  have hlt : k * l.blockSize + j < l.length := by
    rw [Layout.elementsIn_eq_min] at hj
    omega
  have hblock : l.blockOf (k * l.blockSize + j) = k := Layout.blockOf_eq hpos hj
  have hmod : (k * l.blockSize + j) % l.blockSize = j := by
    rw [Nat.add_comm, Nat.add_mul_mod_self_right, Nat.mod_eq_of_lt (by omega)]
  have hcommit := h.commitElement_eq hlt (by omega)
    ⟨UInt32.ofInt (j * g.period), UInt32.ofInt g.period⟩
  have hput := h.putElement hlt (by omega)
  simp only [spanOf, deltaAt, hblock, hmod] at hput
  refine ⟨_, ?_, hput⟩
  simp only [fillElement, hcommit]
  rfl

/-- One block: the draws move on by its base and its deltas. -/
theorem fillBlock_step (hg : g.Ranged) (h : g.Filled l k (k * l.blockSize) r)
    (hk : k < l.blockCount) (htime : isInt64 ((k * l.blockSize : Nat) * g.period) = true) :
    ∃ r', g.fillBlock k ⟨r, g.drawsAt l k⟩ = (⟨r', g.drawsAt l (k + 1)⟩, .ok ()) ∧
      g.Filled l (k + 1) (k * l.blockSize + l.elementsIn k) r' := by
  obtain rfl := h.tiled.layout_eq
  have hfirst := h.putBase hk hg.period_pos
  -- The invariant has the draws in it, so that each delta is the one of its element.
  obtain ⟨p', hrun, r', rfl, hfilled⟩ := sequence_range
    (g.fillElement (g.baseAt r.layout k) (k * r.layout.blockSize))
    (fun j p => ∃ r', p = ⟨r', g.skipDeltas (g.skipBase (g.drawsAt r.layout k)) j⟩ ∧
      g.Filled r.layout (k + 1) (k * r.layout.blockSize + j) r')
    (n := r.layout.elementsIn k) ⟨_, rfl, hfirst⟩ (by
      rintro j hj p ⟨r', rfl, hfilled⟩
      obtain ⟨r'', hstep, hfilled'⟩ := fillElement_step hfilled hj
      exact ⟨_, hstep, r'', rfl, hfilled'⟩)
  refine ⟨r', ?_, hfilled⟩
  unfold fillBlock
  simp only [htime, Bool.not_true, Bool.false_eq_true, ↓reduceIte]
  rw [show (⟨(k * r.layout.blockSize : Nat) * g.period, g.period⟩ : Span) =
    g.anchorOf r.layout k from rfl, h.commitBlock_eq hk hg.period_pos]
  have hlayout := hfirst.tiled.layout_eq
  unfold baseAt at hlayout
  simp only [hlayout]
  exact hrun

/-- What the check asks of the kinds and of the time of a block. -/
structure Fits (g : CorrelatedStream) (l : Layout) : Prop where
  length : l.length = g.length
  delta : ∀ n, 0 ≤ n → n ≤ g.deltaRange - 1 → l.delta.Contains n
  base : ∀ n, g.minValue ≤ n → n ≤ g.maxValue → l.base.Contains n
  blockSpan : l.blockSize * g.period < UInt32.size

theorem of_check (hr : r.Valid) (h : g.check r = .ok ()) : g.Fits r.layout ∧ r.count = 0 := by
  obtain ⟨hbase, hdelta, -⟩ := Layout.kinds_of_check hr.check
  unfold check at h
  simp only [bind, Except.bind, pure, Except.pure] at h
  split at h
  · cases h
  case isFalse hlength =>
  split at h
  · cases h
  case isFalse hcount =>
  cases hd : checkFits .delta r.layout.delta 0 (g.deltaRange - 1) with
  | error e =>
    rw [hd] at h
    cases h
  | ok u =>
    cases hv : checkFits .value r.layout.base g.minValue g.maxValue with
    | error e =>
      rw [hd, hv] at h
      cases h
    | ok u' =>
      simp only [hd, hv] at h
      split at h
      · cases h
      case isFalse hspan =>
        have hmax : (UInt32.size : Int) ≤ maxInt64 := by decide
        exact ⟨⟨Decidable.not_not.mp hlength, of_checkFits hdelta hd, of_checkFits hbase hv,
          by omega⟩, Decidable.not_not.mp hcount⟩

/-- A fill that is checked, in time, and of a region without blocks writes all of it. -/
theorem fill_of_check (hg : g.Ranged) (hr : r.Reachable) (hcheck : g.check r = .ok ())
    (hblocks : r.blocks.size = 0) (htime : g.length * g.period ≤ maxInt64) :
    (g.fill r).2 = .ok () ∧
      g.Filled r.layout r.layout.blockCount r.layout.length (g.fill r).1.2 := by
  have htiled := hr.tiled
  have hpos := htiled.valid.blockSize_pos
  obtain ⟨hfits, hcount⟩ := of_check htiled.valid hcheck
  obtain ⟨contents, hkeeps⟩ := hr.exists_keeps
  have hempty : g.Filled r.layout 0 0 r := {
    blocks := hblocks
    count := hcount
    anchors := fun j hj => absurd hj (Nat.not_lt_zero j)
    offsets := fun i hi => absurd hi (Nat.not_lt_zero i)
    stored := ⟨contents, hkeeps, fun c hc hreached => by cases c <;> cases hreached⟩ }
  -- Only full blocks come before block `k`, so it begins within the times of the generator.
  have htimes : ∀ k, min (k * r.layout.blockSize) r.layout.length = k * r.layout.blockSize →
      isInt64 ((k * r.layout.blockSize : Nat) * g.period) = true := by
    intro k hk
    have hle : (k * r.layout.blockSize : Nat) * g.period ≤ g.length * g.period :=
      Int.mul_le_mul_of_nonneg_right
        (Int.ofNat_le.mpr (by rw [← hfits.length]; omega)) (Int.le_of_lt hg.period_pos)
    have hnonneg := Int.mul_nonneg (Int.natCast_nonneg (k * r.layout.blockSize))
      (Int.le_of_lt hg.period_pos)
    exact isInt64_iff.mpr ⟨by unfold minInt64; omega, by omega⟩
  -- The last block can be short, hence the `min`; no block begins past the end.
  obtain ⟨p', hrun, r', rfl, hfilled⟩ := sequence_range g.fillBlock
    (fun k p => ∃ r', p = ⟨r', g.drawsAt r.layout k⟩ ∧
      g.Filled r.layout k (min (k * r.layout.blockSize) r.layout.length) r')
    (n := r.layout.blockCount) (p := ⟨r, g.draws⟩) ⟨r, rfl, by simpa using hempty⟩ (by
      rintro k hk p ⟨r', rfl, hfilled⟩
      obtain ⟨hbegin, hend⟩ := Layout.min_mul_of_lt hpos hk
      rw [hbegin] at hfilled
      obtain ⟨r'', hstep, hfilled'⟩ := fillBlock_step hg hfilled hk (htimes k hbegin)
      rw [hend] at hfilled'
      exact ⟨_, hstep, r'', rfl, hfilled'⟩)
  have hall : min (r.layout.blockCount * r.layout.blockSize) r.layout.length = r.layout.length :=
    Nat.min_eq_right ((Layout.blockCount_le_iff hpos).mp (Nat.le_refl _))
  rw [hall] at hfilled
  unfold fill
  rw [hcheck]
  simp only [hrun]
  exact ⟨trivial, hfilled⟩

/-- Blocks that are there already are in the way of the first one. -/
theorem fill_of_blocks (hr : r.Reachable) (hcheck : g.check r = .ok ())
    (hblocks : r.blocks.size ≠ 0) :
    ∃ e, (g.fill r).2 = .error (.region e) ∧ (g.fill r).1.2 = r := by
  have hvalid := hr.valid
  have hle := hvalid.size_blocks
  obtain ⟨e, he⟩ : ∃ e, r.commitBlock 0 ⟨(0 * r.layout.blockSize : Nat) * g.period, g.period⟩
      (r.layout.policy.packs 0) = (r, .error e) := by
    rcases hvalid.commitBlock_cases 0 _ _ with ⟨hnext, -⟩ | ⟨-, e, heq, -⟩
    · exact absurd hnext.symm hblocks
    · exact ⟨e, heq⟩
  have hfirst : g.fillBlock 0 ⟨r, g.draws⟩ = (⟨r, g.draws⟩, .error (.region e)) := by
    have htime : isInt64 ((0 * r.layout.blockSize : Nat) * g.period) = true := by
      rw [Nat.zero_mul, Int.natCast_zero, Int.zero_mul]
      decide
    unfold fillBlock
    simp only [htime, he, Bool.not_true, Bool.false_eq_true, ↓reduceIte]
  obtain ⟨count, hcount⟩ := Nat.exists_eq_add_one_of_ne_zero
    (show r.layout.blockCount ≠ 0 by omega)
  refine ⟨e, ?_⟩
  unfold fill
  rw [hcheck, hcount, List.range_succ_eq_map]
  simp only [sequence, hfirst, and_self]

namespace Filled

/-- The elements follow each other from time zero on. -/
theorem span?_eq (hg : g.Ranged) (hfits : g.Fits l) (h : g.Filled l k n r) {i : Nat} (hi : i < n) :
    r.span? i = some ⟨i * g.period, g.period⟩ := by
  obtain rfl := h.tiled.layout_eq
  have hpos := h.tiled.valid.blockSize_pos
  have hperiod := hg.period_pos
  have hblock : r.layout.blockOf i < k := by
    rw [← h.blocks]
    exact h.tiled.valid.committed i (h.count.symm ▸ hi)
  have hmod := Nat.mod_lt i hpos
  -- Both offsets are shorter than a block, so 32 bits hold them.
  have hspan := hfits.blockSpan
  have hoffset :
      ((i % r.layout.blockSize : Nat) : Int) * g.period ≤ r.layout.blockSize * g.period :=
    Int.mul_le_mul_of_nonneg_right (by omega) (Int.le_of_lt hperiod)
  have hone : 1 * g.period ≤ r.layout.blockSize * g.period :=
    Int.mul_le_mul_of_nonneg_right (by omega) (Int.le_of_lt hperiod)
  have hnonneg := Int.mul_nonneg (Int.natCast_nonneg (i % r.layout.blockSize))
    (Int.le_of_lt hperiod)
  have hstart : ((r.layout.blockOf i * r.layout.blockSize : Nat) : Int) * g.period +
      ((i % r.layout.blockSize : Nat) : Int) * g.period = i * g.period := by
    rw [← Int.add_mul, ← Int.natCast_add, Layout.blockOf, Nat.mul_comm, Nat.div_add_mod]
  simp only [BlockedRegion.span?, h.offsets i hi, h.anchors _ hblock, spanOf, anchorOf, bind,
    Option.bind, pure, OffsetSpan.resolve]
  rw [toNat_ofInt_uInt32 hnonneg (by omega), toNat_ofInt_uInt32 (by omega) (by omega), hstart]

/-- The value of an element is the sum of its draws. -/
theorem value?_eq (hg : g.Ranged) (hfits : g.Fits l) (h : g.Filled l k n r) {i : Nat} (hi : i < n) :
    (r.value? i).map (·.toInt) = some (g.baseAt l (l.blockOf i) + g.deltaAt l i) := by
  obtain ⟨contents, hkeeps, hstored⟩ := h.stored
  obtain rfl := h.tiled.layout_eq
  have hcount : i < r.count := h.count.symm ▸ hi
  have hlength := Nat.lt_of_lt_of_le hcount h.tiled.valid.count_le
  have hblock := h.tiled.valid.committed i hcount
  have hbase := hg.baseAt_mem r.layout (r.layout.blockOf i)
  have hdelta := hg.deltaAt_mem r.layout i
  have hsum := hg.sum_mem r.layout (r.layout.blockOf i) i
  have hlo := hg.le_minBase
  have hhi := hg.maxValue_le
  have hvalue := hfits.base _ hsum.1 hsum.2
  have hbase' := hfits.base (g.baseAt r.layout (r.layout.blockOf i)) hbase.1 (by
    have := hg.deltaRange_pos
    unfold maxValue
    omega)
  have hdelta' := hfits.delta _ hdelta.1 hdelta.2
  -- A packed block adds a base and a delta that fit their kinds, a raw one has the sum already.
  by_cases hpacks : r.layout.policy.packs (r.layout.blockOf i) = true
  · have hcell : r.layout.HasCell (.base (r.layout.blockOf i)) :=
      ⟨Nat.lt_of_lt_of_le hblock h.tiled.valid.size_blocks, hpacks⟩
    refine hkeeps.toInt_value?_packed hlength hblock hpacks ?_ hvalue.within.1 hvalue.within.2
    rw [hstored _ hcell (h.blocks ▸ hblock), hstored (.delta i) ⟨hlength, hpacks⟩ hi]
    simp only [numberOf, Kind.wrap_ofInt hbase', Kind.wrap_ofInt hdelta']
  · rw [Bool.not_eq_true] at hpacks
    rw [hkeeps.toInt_value?_raw hlength hblock hpacks, hstored (.raw i) ⟨hlength, hpacks⟩ hi]
    simp only [numberOf, Kind.wrap_ofInt hvalue]

/-- A cell reads as the number that the fill stores in it. -/
theorem readInt?_eq (hg : g.Ranged) (hfits : g.Fits l) (h : g.Filled l k n r) {c : Cell}
    (hc : l.HasCell c) (hreached : Reached k n c) :
    r.readInt? (l.kindOf c) (l.placeOf c) = some (Int64.ofInt (g.numberOf l c)) := by
  obtain ⟨contents, hkeeps, hstored⟩ := h.stored
  have hdeltas := hg.deltaRange_pos
  have hcontains : (l.kindOf c).Contains (g.numberOf l c) := by
    cases c with
    | base j =>
      have hmem := hg.baseAt_mem l j
      exact hfits.base _ hmem.1 (Int.le_trans hmem.2 (by unfold maxValue; omega))
    | delta i =>
      have hmem := hg.deltaAt_mem l i
      exact hfits.delta _ hmem.1 hmem.2
    | raw i =>
      have hmem := hg.sum_mem l (l.blockOf i) i
      exact hfits.base _ hmem.1 hmem.2
  rw [hkeeps.readInt?_eq hc, hstored c hc hreached, Kind.wrap_ofInt hcontains]

end Filled

theorem config_of_check {e : GeneratorError} (h : g.check r = .error e) : ∃ d, e = .config d := by
  have hfits : ∀ {role kind lo hi e}, checkFits role kind lo hi = .error e →
      ∃ d, e = .config d := by
    intro role kind lo hi e h
    rcases checkFits_cases role kind lo hi with ⟨-, hok⟩ | ⟨-, herror⟩
    · rw [hok] at h
      cases h
    · rw [herror] at h
      cases h
      exact ⟨_, rfl⟩
  unfold check at h
  simp only [bind, Except.bind, pure, Except.pure] at h
  split at h
  · cases h
    exact ⟨_, rfl⟩
  split at h
  · cases h
    exact ⟨_, rfl⟩
  split at h
  case h_1 hd =>
    cases h
    exact hfits hd
  split at h
  case h_1 hv =>
    cases h
    exact hfits hv
  split at h
  · cases h
    exact ⟨_, rfl⟩
  · cases h

/-- A fill is refused and changes nothing, or it writes everything. -/
theorem fill_cases (hg : g.Ranged) (hr : r.Reachable) (htime : g.length * g.period ≤ maxInt64) :
    (¬ (g.check r = .ok () ∧ r.blocks.size = 0) ∧ ∃ e, (g.fill r).2 = .error e ∧
      (∀ time, e ≠ .time time) ∧ (g.fill r).1.2 = r) ∨
    ((g.fill r).2 = .ok () ∧ g.Fits r.layout ∧
      g.Filled r.layout r.layout.blockCount r.layout.length (g.fill r).1.2) := by
  cases hcheck : g.check r with
  | error e =>
    obtain ⟨d, rfl⟩ := config_of_check hcheck
    refine .inl ⟨nofun, .config d, ?_⟩
    unfold fill
    rw [hcheck]
    exact ⟨rfl, nofun, rfl⟩
  | ok u =>
    by_cases hblocks : r.blocks.size = 0
    · obtain ⟨hok, hfilled⟩ := fill_of_check hg hr hcheck hblocks htime
      exact .inr ⟨hok, (of_check hr.valid hcheck).1, hfilled⟩
    · obtain ⟨e, herror, hsame⟩ := fill_of_blocks hr hcheck hblocks
      exact .inl ⟨fun h => hblocks h.2, .region e, herror, nofun, hsame⟩

/-- A fill of any region, with all its times within 64 bits, either reports an error and changes
nothing or writes every block and every element. It writes them if the generator fits the region
and no block is there yet. Then

* element `i` lasts one period from `i` periods on;
* its value is the base drawn for its block plus the delta drawn for it, lies between the least
  and the greatest value of the generator, and so stays within 64 bits.

What is drawn does not depend on the kinds and the policy: fills of two regions with the same
sizes give the same elements. -/
theorem fill_values (hg : g.Configured) (htime : g.length * g.period ≤ maxInt64) :
    (∀ r : BlockedRegion, r.Reachable →
      let ended := (g.fill r).2
      let r' := (g.fill r).1.2
      ((∃ e, ended = .error e ∧ (∀ time, e ≠ .time time) ∧ r' = r) ∨ ended = .ok ()) ∧
      (g.check r = .ok () → r.blocks.size = 0 → ended = .ok ()) ∧
      (ended = .ok () → r'.layout = r.layout ∧ r'.blocks.size = r.layout.blockCount ∧
        r'.count = r.layout.length ∧ r.layout.length = g.length ∧
        ∀ i < g.length, r'.span? i = some ⟨i * g.period, g.period⟩ ∧
          ∃ v, r'.value? i = some v ∧
            v.toInt = g.baseAt r.layout (r.layout.blockOf i) + g.deltaAt r.layout i ∧
            g.minValue ≤ v.toInt ∧ v.toInt ≤ g.maxValue)) ∧
    ∀ r₁ r₂ : BlockedRegion, r₁.Reachable → r₂.Reachable →
      r₁.layout.length = r₂.layout.length → r₁.layout.blockSize = r₂.layout.blockSize →
      (g.fill r₁).2 = .ok () → (g.fill r₂).2 = .ok () → ∀ i < g.length,
        (g.fill r₁).1.2.value? i = (g.fill r₂).1.2.value? i ∧
          (g.fill r₁).1.2.span? i = (g.fill r₂).1.2.span? i := by
  have hranged := hg.ranged
  refine ⟨fun r hr => ?each, fun r₁ r₂ hr₁ hr₂ hlength hsize hok₁ hok₂ i hi => ?both⟩
  case each =>
    intro ended r'
    rcases fill_cases hranged hr htime with ⟨hnot, e, herror, hne, hsame⟩ | ⟨hok, hfits, hfilled⟩
    · refine ⟨.inl ⟨e, herror, hne, hsame⟩, fun hcheck hblocks => absurd ⟨hcheck, hblocks⟩ hnot,
        fun hok => ?_⟩
      cases herror.symm.trans hok
    · refine ⟨.inr hok, fun _ _ => hok, fun _ => ⟨hfilled.tiled.layout_eq, hfilled.blocks,
        hfilled.count, hfits.length, fun i hi => ?_⟩⟩
      have hlt : i < r.layout.length := by rwa [hfits.length]
      obtain ⟨v, hv, hsum⟩ := Option.map_eq_some_iff.mp (hfilled.value?_eq hranged hfits hlt)
      have hmem := hranged.sum_mem r.layout (r.layout.blockOf i) i
      rw [← hsum] at hmem
      exact ⟨hfilled.span?_eq hranged hfits hlt, v, hv, hsum, hmem⟩
  case both =>
    rcases fill_cases hranged hr₁ htime with ⟨-, e, herror, -⟩ | ⟨-, hfits₁, hfilled₁⟩
    · cases herror.symm.trans hok₁
    rcases fill_cases hranged hr₂ htime with ⟨-, e, herror, -⟩ | ⟨-, hfits₂, hfilled₂⟩
    · cases herror.symm.trans hok₂
    have hlt₁ : i < r₁.layout.length := by rwa [hfits₁.length]
    have hlt₂ : i < r₂.layout.length := by rwa [hfits₂.length]
    have hvalue₁ := hfilled₁.value?_eq hranged hfits₁ hlt₁
    have hvalue₂ := hfilled₂.value?_eq hranged hfits₂ hlt₂
    -- Blocks of one size: the same element has the same place, and so the same draws.
    have hblock : r₁.layout.blockOf i = r₂.layout.blockOf i := by
      unfold Layout.blockOf
      rw [hsize]
    rw [hblock, baseAt_congr hlength hsize, deltaAt_congr hlength hsize, ← hvalue₂] at hvalue₁
    rw [hfilled₁.span?_eq hranged hfits₁ hlt₁, hfilled₂.span?_eq hranged hfits₂ hlt₂]
    exact ⟨Option.map_injective (fun v w h => Int64.toInt_inj.mp h) hvalue₁, rfl⟩

end Fills

/-- Five elements in blocks of two, in a region of packed bytes and in one of raw 16-bit numbers. -/
theorem fill_values_of_two_regions :
    let _ : RandomSource := KeyStream.source
    ∃ (g : CorrelatedStream) (r₁ r₂ : BlockedRegion),
      make 3 5 42 = .ok g ∧ BlockedRegion.allocate ⟨.i64, .i8, 5, 2, .always⟩ = .ok r₁ ∧
      BlockedRegion.allocate ⟨.i16, .u8, 5, 2, .never⟩ = .ok r₂ ∧
      (g.fill r₁).2 = .ok () ∧ (g.fill r₁).1.2.count = 5 ∧
      ∀ i < 5, (g.fill r₁).1.2.value? i = (g.fill r₂).1.2.value? i ∧
        (g.fill r₁).1.2.span? i = some ⟨i * 3, 3⟩ := by
  intro _
  have hmake : make (3 : Int64).toInt 5 42 = .ok ⟨3, 5, -100, 100, 100, .ofSeed 42⟩ := rfl
  have hr₁ : BlockedRegion.allocate ⟨.i64, .i8, 5, 2, .always⟩ = .ok _ := rfl
  have hr₂ : BlockedRegion.allocate ⟨.i16, .u8, 5, 2, .never⟩ = .ok _ := rfl
  obtain ⟨heach, hboth⟩ := fill_values (.make hmake) (show (5 : Int) * 3 ≤ maxInt64 by decide)
  have hok₁ := (heach _ (.allocate hr₁)).2.1 rfl rfl
  have hok₂ := (heach _ (.allocate hr₂)).2.1 rfl rfl
  obtain ⟨-, -, hcount, -, helements⟩ := (heach _ (.allocate hr₁)).2.2 hok₁
  exact ⟨_, _, _, hmake, hr₁, hr₂, hok₁, hcount, fun i hi =>
    ⟨(hboth _ _ (.allocate hr₁) (.allocate hr₂) rfl rfl hok₁ hok₂ i hi).1, (helements i hi).1⟩⟩

end CorrelatedStream

end StreamGauge
