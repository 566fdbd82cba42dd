import StreamGauge.Proofs.Generator.Correlated
import StreamGauge.Proofs.Region.View

/-!
# The sums of filled blocks

A region that a block-correlated stream has filled gives a sum for each of its blocks, if all values
of the stream are 32-bit integers: a block has less than `2 ^ 32` elements
(`Filled.isSome_blockSum?_raw`, `Filled.isSome_blockSum?_packed`). So nothing that is read of it
leaves 64 bits (`Filled.noOverflow`).
-/

namespace StreamGauge

namespace BlockedRegion.Valid

variable {r : BlockedRegion}

/-- The delta of an element of a packed block is what its cell holds. -/
theorem delta?_eq (h : r.Valid) {i : Nat} (hblock : r.layout.blockOf i < r.blocks.size)
    (hpacks : r.layout.policy.packs (r.layout.blockOf i) = true) :
    r.delta? i = r.readInt? r.layout.delta (r.layout.placeOf (.delta i)) := by
  simp [delta?, h.place?_eq hblock, hpacks, Layout.placeOf]

theorem elementsIn_lt (h : r.Valid) (k : Nat) : r.layout.elementsIn k < 4294967296 :=
  Nat.lt_of_le_of_lt (r.layout.elementsIn_le k) (Layout.blockSize_of_check h.check).2

end BlockedRegion.Valid

namespace CorrelatedStream

/-- A 32-bit integer times the number of elements of a block is within 64 bits. -/
theorem isInt64_mul {b : Int} {n : Nat} (hlo : -2147483648 ≤ b) (hhi : b ≤ 2147483647)
    (hn : n < 4294967296) : isInt64 (b * n) = true := by
  have hleast : -2147483648 * (n : Int) ≤ b * n :=
    Int.mul_le_mul_of_nonneg_right hlo (Int.natCast_nonneg n)
  have hgreatest : b * n ≤ 2147483647 * (n : Int) :=
    Int.mul_le_mul_of_nonneg_right hhi (Int.natCast_nonneg n)
  rw [isInt64_iff]
  unfold minInt64 maxInt64
  omega

/-- A base as often as there are elements and the sum of their deltas have a sum. -/
theorem exists_total {b top : Int} {n : Nat} {deltas : Int64} (hlo : -2147483648 ≤ b)
    (htop : 0 ≤ top) (hhi : b + top ≤ 2147483647) (hn : n < 4294967296) (hnonneg : 0 ≤ deltas.toInt)
    (hle : deltas.toInt ≤ top * n) :
    ∃ total,
      (mulWithin (Int64.ofInt b) (Int64.ofNat n)).bind (addWithin · deltas) = some total := by
  have hproductFits := isInt64_mul hlo (by omega) hn
  have htotalFits := isInt64_mul (b := b + top) (by omega) hhi hn
  have hbase : (Int64.ofInt b).toInt = b :=
    toInt_ofInt_of_isInt64 (isInt64_iff.mpr ⟨by unfold minInt64; omega, by unfold maxInt64; omega⟩)
  have hcount : (Int64.ofNat n).toInt = n := by
    rw [← Int64.ofInt_eq_ofNat]
    exact toInt_ofInt_of_isInt64
      (isInt64_iff.mpr ⟨by unfold minInt64; omega, by unfold maxInt64; omega⟩)
  obtain ⟨product, hproduct, hproductEq⟩ :=
    @mulWithin_of_isInt64 (.ofInt b) (.ofNat n) (by rw [hbase, hcount]; exact hproductFits)
  rw [hbase, hcount] at hproductEq
  rw [isInt64_iff] at hproductFits htotalFits
  rw [Int.add_mul] at htotalFits
  obtain ⟨total, htotal, -⟩ := @addWithin_of_isInt64 product deltas
    (isInt64_iff.mpr ⟨by omega, by omega⟩)
  exact ⟨total, by rw [hproduct, Option.bind_some, htotal]⟩

namespace Filled

variable [RandomSource] {g : CorrelatedStream} {l : Layout} {k n j : Nat} {r : BlockedRegion}

/-- The base of a packed block is the one drawn for it. -/
theorem base?_eq (hg : g.Ranged) (hfits : g.Fits l) (h : g.Filled l k n r) (hj : j < k)
    (hpacks : l.policy.packs j = true) : r.base? j = some (Int64.ofInt (g.baseAt l j)) := by
  obtain rfl := h.tiled.layout_eq
  have hvalid := h.tiled.valid
  have hblock : j < r.blocks.size := h.blocks.symm ▸ hj
  rw [hvalid.base?_eq hblock]
  exact h.readInt?_eq hg hfits (c := .base j)
    ⟨Nat.lt_of_lt_of_le hblock hvalid.size_blocks, hpacks⟩ hj

/-- The delta of an element of a packed block is the one drawn for it. -/
theorem delta?_eq (hg : g.Ranged) (hfits : g.Fits l) (h : g.Filled l k n r) {i : Nat} (hi : i < n)
    (hpacks : l.policy.packs (l.blockOf i) = true) :
    r.delta? i = some (Int64.ofInt (g.deltaAt l i)) := by
  obtain rfl := h.tiled.layout_eq
  have hvalid := h.tiled.valid
  have hcount : i < r.count := h.count.symm ▸ hi
  rw [hvalid.delta?_eq (hvalid.committed i hcount) hpacks]
  exact h.readInt?_eq hg hfits (c := .delta i)
    ⟨Nat.lt_of_lt_of_le hcount hvalid.count_le, hpacks⟩ hi

section BlockSum

variable (hg : g.Ranged) (hfits : g.Fits l) (h : g.Filled l k n r)
  (hlo : -2147483648 ≤ g.minValue) (hhi : g.maxValue ≤ 2147483647) (hj : 0 < l.elementsIn j)
  (hend : j * l.blockSize + l.elementsIn j ≤ n)

include hg hfits h hlo hhi hj hend

/-- The values of a raw block have a sum. -/
theorem isSome_blockSum?_raw (hraw : l.policy.packs j = false) : (r.blockSum? j).isSome := by
  obtain rfl := h.tiled.layout_eq
  have hvalid := h.tiled.valid
  have hcount := h.count
  have hmany := hvalid.elementsIn_lt j
  have hlength : (r.indicesOf j).length = r.layout.elementsIn j := List.length_range'
  have hzero : (0 : Int64).toInt = 0 := rfl
  have hread : ∀ i ∈ r.indicesOf j, ∃ v, r.value? i = some v ∧ -2147483648 ≤ v.toInt ∧
      v.toInt ≤ 2147483647 := by
    intro i hi
    have hlt := (hvalid.mem_indicesOf hi).2.2
    obtain ⟨v, hv, hvalue⟩ := Option.map_eq_some_iff.mp (h.value?_eq hg hfits (i := i) (by omega))
    have hmem := hg.sum_mem r.layout (r.layout.blockOf i) i
    exact ⟨v, hv, by omega, by omega⟩
  obtain ⟨sum, hsum, -⟩ := BlockedRegion.sumWithin_of_bounds hread (by decide) (by decide)
    0 (by unfold minInt64; omega) (by unfold maxInt64; omega)
  rw [hvalid.blockSum?_raw (hvalid.lt_size_blocks hj (by omega)) hraw, hsum]
  rfl

/-- The base of a packed block, taken as often as it has elements, and the deltas have a sum. -/
theorem isSome_blockSum?_packed (hpacks : l.policy.packs j = true) : (r.blockSum? j).isSome := by
  obtain rfl := h.tiled.layout_eq
  have hvalid := h.tiled.valid
  have hcount := h.count
  have hblock : j < r.blocks.size := hvalid.lt_size_blocks hj (by omega)
  have hmany := hvalid.elementsIn_lt j
  have hlength : (r.indicesOf j).length = r.layout.elementsIn j := List.length_range'
  have hzero : (0 : Int64).toInt = 0 := rfl
  have hdeltas := hg.deltaRange_pos
  have hbase := h.base?_eq hg hfits (h.blocks ▸ hblock) hpacks
  obtain ⟨hbaseLo, hbaseHi⟩ := hg.baseAt_mem r.layout j
  unfold minValue at hlo
  unfold maxValue at hhi
  -- A delta lies in its kind, too, which has 32 bits at most.
  obtain ⟨top, htop⟩ : ∃ top, top = min (g.deltaRange - 1) 2147483647 := ⟨_, rfl⟩
  have hread : ∀ i ∈ r.indicesOf j, ∃ d, r.delta? i = some d ∧ 0 ≤ d.toInt ∧ d.toInt ≤ top := by
    intro i hi
    obtain ⟨hin, -, hlt⟩ := hvalid.mem_indicesOf hi
    have hdelta := h.delta?_eq hg hfits (i := i) (by omega) (by rw [hin]; exact hpacks)
    have hmem := hg.deltaAt_mem r.layout i
    have hrange := hvalid.delta?_range hdelta
    have hkept := (hfits.delta _ hmem.1 hmem.2).toInt_ofInt
    rw [hkept] at hrange
    refine ⟨_, hdelta, ?_⟩
    rw [hkept]
    omega
  have htopFits : isInt64 (top * r.layout.elementsIn j) = true :=
    isInt64_mul (by omega) (by omega) hmany
  rw [isInt64_iff] at htopFits
  obtain ⟨deltas, hsum, hsumLo, hsumHi⟩ := BlockedRegion.sumWithin_of_bounds hread (Int.le_refl 0)
    (by omega) 0 (by unfold minInt64; omega) (by rw [hlength, hzero]; omega)
  rw [hlength, hzero] at hsumLo hsumHi
  obtain ⟨total, htotal⟩ := @exists_total (g.baseAt r.layout j) top (r.layout.elementsIn j) deltas
    (by omega) (by omega) (by omega) hmany (by omega) (by omega)
  rw [hvalid.blockSum?_packed hblock hpacks, hsum, hbase]
  simp only [Option.bind_some, htotal, Option.isSome_some]

end BlockSum

/-- If all values are 32-bit integers, nothing that is read of a filled region leaves 64 bits. -/
theorem noOverflow (hg : g.Ranged) (hfits : g.Fits l) (h : g.Filled l k n r)
    (hlo : -2147483648 ≤ g.minValue) (hhi : g.maxValue ≤ 2147483647) : r.NoOverflow := by
  obtain rfl := h.tiled.layout_eq
  have hcount := h.count
  refine ⟨fun i hi => ?value, fun j hj hend => ?blockSum⟩
  case value =>
    obtain ⟨v, hv, -⟩ := Option.map_eq_some_iff.mp (h.value?_eq hg hfits (i := i) (by omega))
    rw [hv]
    rfl
  case blockSum =>
    have hend' : j * r.layout.blockSize + r.layout.elementsIn j ≤ n := by omega
    cases hpacks : r.layout.policy.packs j with
    | false => exact h.isSome_blockSum?_raw hg hfits hlo hhi hj hend' hpacks
    | true => exact h.isSome_blockSum?_packed hg hfits hlo hhi hj hend' hpacks

end Filled

end CorrelatedStream

end StreamGauge
