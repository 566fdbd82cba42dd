import StreamGauge.Proofs.Region.Storage
import StreamGauge.Proofs.Region.View

/-!
# The kind of a view and its values

A view says of which kind its values are; of a region in blocks, that is the kind of the bases.

* What is stored as an integer kind is read as an integer of it, whatever was written
  (`Bytes.eq_int_of_readValue?`). So the values of plain regions and of raw blocks are of the kind.
* In a packed block a value is computed, and nothing brings the sum of a base and a delta back into
  the kind of the base. `View.SumsInKind` says that it is in there; this is all that the kind of a
  value depends on (`View.value?_inKind_iff`).
* No two kinds of base and delta rule out a sum on the outside
  (`Layout.exists_sum_outside_kind`), which is no further out than a delta is from zero
  (`Valid.value?_bounds`).
-/

namespace StreamGauge

/-- The largest base and a delta of one add up to no number of the base's kind. -/
theorem Layout.exists_sum_outside_kind {l : Layout} (h : l.check = .ok ()) :
    ∃ b d, l.base.Contains b ∧ l.delta.Contains d ∧ ¬ l.base.Contains (b + d) := by
  obtain ⟨hbase, hdelta, -⟩ := Layout.kinds_of_check h
  obtain ⟨lo, hi, hrange⟩ := Kind.exists_intRange? hbase
  obtain ⟨dlo, dhi, hdrange⟩ := Kind.exists_intRange? hdelta
  have hzero := Kind.intRange?_zero hrange
  have hdzero := Kind.intRange?_zero hdrange
  refine ⟨hi, 1, ?_, ?_, ?_⟩
  · rw [Kind.contains_iff hrange]
    omega
  · rw [Kind.contains_iff hdrange]
    omega
  · rw [Kind.contains_iff hrange]
    omega

namespace BlockedRegion

variable {r : BlockedRegion} {i : Nat}

theorem readInt?_contains {kind : Kind} {offset : Nat} {v : Int64}
    (h : r.readInt? kind offset = some v) (hkind : kind.isInteger = true) :
    kind.Contains v.toInt := by
  obtain ⟨value, hvalue, rfl⟩ := Option.map_eq_some_iff.mp h
  obtain ⟨n, rfl, hmem⟩ := Bytes.eq_int_of_readValue? hkind hvalue
  exact hmem

/-- The base of the block of element `i` and the delta of the element add up to an integer of the
base's kind. In a raw block, there is nothing to add. -/
def SumsInKind (r : BlockedRegion) (i : Nat) : Prop :=
  r.layout.policy.packs (r.layout.blockOf i) = true →
    ∃ b d, r.base? (r.layout.blockOf i) = some b ∧ r.delta? i = some d ∧
      r.layout.base.Contains (b.toInt + d.toInt)

/-- The value of an element is of the base's kind if and only if its sum is. -/
theorem Valid.value?_inKind_iff (h : r.Valid) (hi : i < r.count) :
    (∃ n, r.value? i = some n ∧ r.layout.base.Contains n.toInt) ↔ r.SumsInKind i := by
  have hlength := Nat.lt_of_lt_of_le hi h.count_le
  have hblock := h.committed i hi
  obtain ⟨hbase, -, -⟩ := Layout.kinds_of_check h.check
  cases hpacked : r.layout.policy.packs (r.layout.blockOf i) with
  | false =>
    obtain ⟨n, hn⟩ := h.value?_raw hlength hblock hpacked
    have hread := h.value?_eq_raw hblock hpacked
    rw [hn] at hread
    have hmem := readInt?_contains hread.symm hbase
    simp [SumsInKind, hpacked, hn, hmem]
  | true =>
    obtain ⟨b, d, hb, hd, hsum⟩ := h.value?_packed hlength hblock hpacked
    rw [hsum]
    constructor
    · rintro ⟨n, hn, hmem⟩ -
      rw [toInt_addWithin hn] at hmem
      exact ⟨b, d, hb, hd, hmem⟩
    · intro hsums
      obtain ⟨b', d', hb', hd', hmem⟩ := hsums hpacked
      rw [hb, Option.some.injEq] at hb'
      rw [hd, Option.some.injEq] at hd'
      subst hb' hd'
      obtain ⟨n, hn, htoInt⟩ := addWithin_of_isInt64 (isInt64_iff.mpr hmem.within)
      exact ⟨n, hn, by rwa [htoInt]⟩

/-- Base and delta are of their kinds, so a value is no further outside the base's kind than a
delta is from zero. -/
theorem Valid.value?_bounds (h : r.Valid) (hi : i < r.count) {lo hi' dlo dhi : Int}
    (hbase : r.layout.base.intRange? = some (lo, hi'))
    (hdelta : r.layout.delta.intRange? = some (dlo, dhi)) {n : Int64} (hn : r.value? i = some n) :
    lo + dlo ≤ n.toInt ∧ n.toInt ≤ hi' + dhi := by
  have hlength := Nat.lt_of_lt_of_le hi h.count_le
  have hblock := h.committed i hi
  obtain ⟨hbaseInt, hdeltaInt, -⟩ := Layout.kinds_of_check h.check
  cases hpacked : r.layout.policy.packs (r.layout.blockOf i) with
  | false =>
    have hread := h.value?_eq_raw hblock hpacked
    rw [hn] at hread
    have hmem := (Kind.contains_iff hbase).mp (readInt?_contains hread.symm hbaseInt)
    have hzero := Kind.intRange?_zero hdelta
    omega
  | true =>
    obtain ⟨b, d, hb, hd, hsum⟩ := h.value?_packed hlength hblock hpacked
    rw [hn] at hsum
    obtain ⟨block, -, hb⟩ := Option.bind_eq_some_iff.mp hb
    obtain ⟨place, -, hd⟩ := Option.bind_eq_some_iff.mp hd
    have hbmem := (Kind.contains_iff hbase).mp (readInt?_contains hb hbaseInt)
    have hdmem := (Kind.contains_iff hdelta).mp (readInt?_contains hd hdeltaInt)
    rw [toInt_addWithin hsum.symm]
    omega

end BlockedRegion

/-- Nothing but the stored numbers decides whether element `i` is of the kind of its view: in a
packed block, their sum; anywhere else, nothing at all. -/
def View.SumsInKind : View → Nat → Prop
  | plain _, _ => True
  | blocked r, i => r.SumsInKind i

/-- Where a view of an integer kind has a value, that is an integer. -/
theorem View.exists_int {v : View} (hkind : v.kind.isInteger = true) {i : Nat} {x : Value}
    (hx : v.value? i = some x) : ∃ n, x = .int n := by
  cases v with
  | plain r =>
    obtain ⟨n, rfl, -⟩ := Bytes.eq_int_of_readValue? hkind hx
    exact ⟨n, rfl⟩
  | blocked r =>
    obtain ⟨n, -, rfl⟩ := Option.map_eq_some_iff.mp hx
    exact ⟨n, rfl⟩

/-- An element of an integer kind has a value of the kind if and only if its sum is in it. -/
theorem View.Valid.value?_inKind_iff {v : View} (h : v.Valid) (hkind : v.kind.isInteger = true)
    {i : Nat} (hi : i < v.size) :
    (∃ n, v.value? i = some (.int n) ∧ v.kind.Contains n.toInt) ↔ v.SumsInKind i := by
  cases v with
  | plain r =>
    obtain ⟨x, hx⟩ := PlainRegion.Valid.value?_eq_some h hi
    obtain ⟨n, rfl, hmem⟩ := Bytes.eq_int_of_readValue? hkind hx
    exact iff_of_true ⟨n, hx, hmem⟩ trivial
  | blocked r =>
    have hiff := BlockedRegion.Valid.value?_inKind_iff h hi
    simpa [value?, kind, SumsInKind, Option.map_eq_some_iff] using hiff

end StreamGauge
