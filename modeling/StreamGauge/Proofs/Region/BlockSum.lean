import StreamGauge.Proofs.Region.Blocked

/-!
# The sum of a block

`wrappedSum` is the sum of integers, wrapped once to 64 bits; it does not matter whether each
addition wraps (`wrappedSum_cons`, `wrappedSum_append`). The sum that a blocked region gives for a
block in one step is the wrapped sum of its elements (`Valid.blockSum?_eq`), if it gives one; it
gives none where one of the elements has no value (`Valid.isSome_value?`).
-/

namespace StreamGauge

/-- The sum of integers, wrapped to 64 bits. -/
def wrappedSum (ns : List Int64) : Int64 :=
  Int64.ofInt (ns.foldr (fun n sum => n.toInt + sum) 0)

@[simp]
theorem wrappedSum_nil : wrappedSum [] = 0 := rfl

@[simp]
theorem wrappedSum_cons (n : Int64) (ns : List Int64) :
    wrappedSum (n :: ns) = n + wrappedSum ns := by
  simp [wrappedSum, Int64.ofInt_add]

theorem wrappedSum_append (ms ns : List Int64) :
    wrappedSum (ms ++ ns) = wrappedSum ms + wrappedSum ns := by
  induction ms with
  | nil => simp
  | cons m ms ih => rw [List.cons_append, wrappedSum_cons, wrappedSum_cons, ih, Int64.add_assoc]

/-- A constant that is in every term counts as often as there are terms. -/
theorem wrappedSum_map_add {α : Type} (b : Int64) (f : α → Int64) (xs : List α) :
    wrappedSum (xs.map fun x => b + f x) = b * Int64.ofNat xs.length + wrappedSum (xs.map f) := by
  induction xs with
  | nil => simp [← Int64.ofInt_eq_ofNat]
  | cons x xs ih =>
    have hlength : Int64.ofNat (xs.length + 1) = Int64.ofNat xs.length + 1 := by
      simp only [← Int64.ofInt_eq_ofNat, Int.natCast_add, Int64.ofInt_add]
      rfl
    simp only [List.map_cons, wrappedSum_cons, List.length_cons, ih, hlength]
    grind

theorem addWithin_eq {a b s : Int64} (h : addWithin a b = some s) : s = a + b := by
  unfold addWithin at h
  simp only at h
  split at h
  · cases h
    simp
  · cases h

theorem mulWithin_eq {a b p : Int64} (h : mulWithin a b = some p) : p = a * b := by
  unfold mulWithin at h
  simp only at h
  split at h
  · cases h
    simp
  · cases h

theorem toInt_ofInt_of_isInt64 {n : Int} (h : isInt64 n = true) : (Int64.ofInt n).toInt = n := by
  obtain ⟨hlo, hhi⟩ := isInt64_iff.mp h
  unfold minInt64 at hlo
  unfold maxInt64 at hhi
  exact Int64.toInt_ofInt_of_le (by omega) (by omega)

theorem addWithin_of_isInt64 {a b : Int64} (h : isInt64 (a.toInt + b.toInt) = true) :
    ∃ s, addWithin a b = some s ∧ s.toInt = a.toInt + b.toInt :=
  ⟨_, if_pos (isInt64_iff.mp h), toInt_ofInt_of_isInt64 h⟩

/-- Two numbers have a sum if it does not leave 64 bits. -/
theorem isSome_addWithin_iff {a b : Int64} :
    (addWithin a b).isSome ↔ isInt64 (a.toInt + b.toInt) = true := by
  unfold addWithin
  simp only [isInt64_iff]
  split <;> simp_all

/-- A sum that there is, is the sum. -/
theorem toInt_addWithin {a b s : Int64} (h : addWithin a b = some s) :
    s.toInt = a.toInt + b.toInt := by
  obtain ⟨s', hs', hsum⟩ := addWithin_of_isInt64 (isSome_addWithin_iff.mp (by rw [h]; rfl))
  rw [h, Option.some.injEq] at hs'
  rw [hs', hsum]

theorem mulWithin_of_isInt64 {a b : Int64} (h : isInt64 (a.toInt * b.toInt) = true) :
    ∃ p, mulWithin a b = some p ∧ p.toInt = a.toInt * b.toInt :=
  ⟨_, if_pos (isInt64_iff.mp h), toInt_ofInt_of_isInt64 h⟩

namespace BlockedRegion

/-- Numbers between two bounds have a sum if as many times either bound is within 64 bits. -/
theorem sumWithin_of_bounds {read? : Nat → Option Int64} {is : List Nat} {lo hi : Int}
    (hread : ∀ i ∈ is, ∃ n, read? i = some n ∧ lo ≤ n.toInt ∧ n.toInt ≤ hi) (hlo : lo ≤ 0)
    (hhi : 0 ≤ hi) (start : Int64) (hleast : minInt64 ≤ start.toInt + lo * is.length)
    (hgreatest : start.toInt + hi * is.length ≤ maxInt64) :
    ∃ sum, sumWithin read? is start = some sum ∧ start.toInt + lo * is.length ≤ sum.toInt ∧
      sum.toInt ≤ start.toInt + hi * is.length := by
  induction is generalizing start with
  | nil => exact ⟨start, rfl, by simp, by simp⟩
  | cons i is ih =>
    obtain ⟨⟨n, hn, hnlo, hnhi⟩, hread⟩ := List.forall_mem_cons.mp hread
    have hbelow : lo * is.length ≤ 0 := Int.mul_nonpos_of_nonpos_of_nonneg hlo (by omega)
    have habove : 0 ≤ hi * is.length := Int.mul_nonneg hhi (by omega)
    simp only [List.length_cons, Int.natCast_add, Int.mul_add] at hleast hgreatest ⊢
    obtain ⟨next, hnext, hsum⟩ := addWithin_of_isInt64 (a := start) (b := n)
      (isInt64_iff.mpr ⟨by omega, by omega⟩)
    obtain ⟨sum, heq, hge, hle⟩ := ih hread next (by omega) (by omega)
    refine ⟨sum, ?_, by omega, by omega⟩
    simp only [sumWithin, hn, bind, Option.bind, hnext]
    exact heq

theorem sumWithin_eq {read? : Nat → Option Int64} {f : Nat → Int64} {is : List Nat}
    (hread : ∀ i ∈ is, read? i = some (f i)) {start sum : Int64}
    (h : sumWithin read? is start = some sum) : sum = start + wrappedSum (is.map f) := by
  induction is generalizing start with
  | nil =>
    simp only [sumWithin, Option.some.injEq] at h
    simp [h]
  | cons i is ih =>
    simp only [sumWithin, hread i List.mem_cons_self, bind, Option.bind] at h
    split at h
    case h_1 => cases h
    case h_2 next hnext =>
      rw [ih (fun j hj => hread j (List.mem_cons_of_mem _ hj)) h, addWithin_eq hnext,
        List.map_cons, wrappedSum_cons]
      grind

/-- The indices of the elements of block `k`. -/
def indicesOf (r : BlockedRegion) (k : Nat) : List Nat :=
  List.range' (k * r.layout.blockSize) (r.layout.elementsIn k)

variable {r : BlockedRegion}

theorem Valid.mem_indicesOf (h : r.Valid) {k i : Nat} (hi : i ∈ r.indicesOf k) :
    r.layout.blockOf i = k ∧ k * r.layout.blockSize ≤ i ∧
      i < k * r.layout.blockSize + r.layout.elementsIn k := by
  obtain ⟨j, hj, rfl⟩ := List.mem_range'.mp hi
  rw [Nat.one_mul]
  exact ⟨Layout.blockOf_eq h.blockSize_pos hj, by omega, by omega⟩

/-- A block of which all elements are committed is committed. -/
theorem Valid.lt_size_blocks (h : r.Valid) {k : Nat} (hk : 0 < r.layout.elementsIn k)
    (hend : k * r.layout.blockSize + r.layout.elementsIn k ≤ r.count) : k < r.blocks.size := by
  have hfirst := h.committed (k * r.layout.blockSize) (by omega)
  rwa [Layout.blockOf, Nat.mul_div_cancel _ h.blockSize_pos] at hfirst

theorem Valid.blockSum?_packed (h : r.Valid) {k : Nat} (hk : k < r.blocks.size)
    (hpacked : r.layout.policy.packs k = true) :
    r.blockSum? k = (sumWithin r.delta? (r.indicesOf k) 0).bind fun deltas =>
      (r.base? k).bind fun base =>
        (mulWithin base (Int64.ofNat (r.layout.elementsIn k))).bind (addWithin · deltas) := by
  have hlength := Layout.length_blockAt (Layout.blockSize_of_check h.check).2 k
  unfold blockSum?
  simp only [h.getElem?_blocks hk, bind, Option.bind_some, hlength]
  exact if_pos hpacked

theorem Valid.blockSum?_raw (h : r.Valid) {k : Nat} (hk : k < r.blocks.size)
    (hraw : r.layout.policy.packs k = false) :
    r.blockSum? k = sumWithin r.value? (r.indicesOf k) 0 := by
  have hlength := Layout.length_blockAt (Layout.blockSize_of_check h.check).2 k
  unfold blockSum?
  simp only [h.getElem?_blocks hk, bind, Option.bind_some, hlength]
  exact if_neg (by simp [Layout.blockAt, hraw])

/-- The sum of a committed block is the wrapped sum of its elements. -/
theorem Valid.blockSum?_eq (h : r.Valid) {k : Nat} (hk : 0 < r.layout.elementsIn k)
    (hend : k * r.layout.blockSize + r.layout.elementsIn k ≤ r.count) (value : Nat → Int64)
    (hvalue : ∀ i ∈ r.indicesOf k, r.value? i = some (value i)) {sum : Int64}
    (hsum : r.blockSum? k = some sum) : sum = wrappedSum ((r.indicesOf k).map value) := by
  have hcommitted := h.lt_size_blocks hk hend
  cases hpacked : r.layout.policy.packs k with
  | false =>
    rw [h.blockSum?_raw hcommitted hpacked] at hsum
    rw [sumWithin_eq hvalue hsum, Int64.zero_add]
  | true =>
    rw [h.blockSum?_packed hcommitted hpacked] at hsum
    obtain ⟨deltas, hdeltas, hsum⟩ := Option.bind_eq_some_iff.mp hsum
    obtain ⟨base, hbase, hsum⟩ := Option.bind_eq_some_iff.mp hsum
    obtain ⟨product, hproduct, hsum⟩ := Option.bind_eq_some_iff.mp hsum
    -- Each element is the one base plus its own delta.
    have hparts : ∀ i ∈ r.indicesOf k, ∃ d, r.delta? i = some d ∧ value i = base + d := by
      intro i hi
      obtain ⟨hblock, -, hlt⟩ := h.mem_indicesOf hi
      have hcount := h.count_le
      obtain ⟨b, d, hb, hd, hadd⟩ := h.value?_packed (i := i) (by omega)
        (by rw [hblock]; exact hcommitted) (by rw [hblock]; exact hpacked)
      rw [hblock, hbase, Option.some.injEq] at hb
      subst hb
      rw [hvalue i hi] at hadd
      exact ⟨d, hd, addWithin_eq hadd.symm⟩
    have hdelta : ∀ i ∈ r.indicesOf k, r.delta? i = some (value i - base) := by
      intro i hi
      obtain ⟨d, hd, hv⟩ := hparts i hi
      rw [hd, hv]
      congr 1
      grind
    have hmap : (r.indicesOf k).map value = (r.indicesOf k).map fun i => base + (value i - base) :=
      List.map_congr_left fun i _ => by grind
    have hindices : (r.indicesOf k).length = r.layout.elementsIn k := List.length_range'
    rw [hmap, wrappedSum_map_add, hindices, addWithin_eq hsum, mulWithin_eq hproduct,
      sumWithin_eq hdelta hdeltas, Int64.zero_add]

/-! ## A sum needs its elements -/

theorem mulWithin_range {a b p : Int64} (h : mulWithin a b = some p) :
    minInt64 ≤ a.toInt * b.toInt ∧ a.toInt * b.toInt ≤ maxInt64 := by
  unfold mulWithin at h
  simp only at h
  split at h
  · assumption
  · cases h

theorem readInt?_range {kind : Kind} {offset : Nat} {v : Int64}
    (h : r.readInt? kind offset = some v) (hkind : kind.isInteger = true) (hsize : kind.size ≤ 4) :
    -2147483648 ≤ v.toInt ∧ v.toInt ≤ 2147483647 := by
  obtain ⟨lo, hi, hrange, hlo, hhi⟩ := Kind.intRange?_of_size_le hkind hsize
  obtain ⟨value, hvalue, rfl⟩ := Option.map_eq_some_iff.mp h
  obtain ⟨bytes, hbytes, rfl⟩ := Option.map_eq_some_iff.mp hvalue
  have := Kind.toInt64_decode_range hrange (Bytes.read?_eq_some_iff.mp hbytes).2.1
  omega

theorem Valid.delta?_range (h : r.Valid) {i : Nat} {d : Int64} (hd : r.delta? i = some d) :
    -2147483648 ≤ d.toInt ∧ d.toInt ≤ 2147483647 := by
  obtain ⟨place, -, hread⟩ := Option.bind_eq_some_iff.mp hd
  exact readInt?_range hread (Layout.kinds_of_check h.check).2.1 (Layout.kinds_of_check h.check).2.2

/-- A number of which a multiple is within 64 bits is half as large at most. -/
theorem half_of_mul_range {b n : Int} (hn : 2 ≤ n)
    (h : minInt64 ≤ b * n ∧ b * n ≤ maxInt64) :
    -4611686018427387904 ≤ b ∧ b ≤ 4611686018427387904 := by
  unfold minInt64 maxInt64 at h
  rcases Int.le_total 0 b with hb | hb
  · have := Int.mul_le_mul_of_nonneg_left hn hb
    omega
  · have := Int.mul_le_mul_of_nonpos_left hb hn
    omega

/-- Where the sum of a block is within 64 bits, each of its elements is. A base that is so large
that adding a delta overflows has no multiple within 64 bits, and alone it is the sum. -/
theorem Valid.isSome_value? (h : r.Valid) {k : Nat}
    (hend : k * r.layout.blockSize + r.layout.elementsIn k ≤ r.count)
    (hsum : (r.blockSum? k).isSome) {i : Nat} (hi : i ∈ r.indicesOf k) : (r.value? i).isSome := by
  obtain ⟨hblock, hge, hlt⟩ := h.mem_indicesOf hi
  have hcommitted := h.lt_size_blocks (by omega) hend
  have hcount := h.count_le
  cases hpacked : r.layout.policy.packs k with
  | false =>
    obtain ⟨v, hv⟩ := h.value?_raw (i := i) (by omega) (by rwa [hblock]) (by rwa [hblock])
    rw [hv]
    rfl
  | true =>
    obtain ⟨b, d, hb, hd, hadd⟩ := h.value?_packed (i := i) (by omega) (by rwa [hblock])
      (by rwa [hblock])
    rw [hblock] at hb
    rw [hadd, isSome_addWithin_iff, isInt64_iff]
    have hdrange := h.delta?_range hd
    obtain ⟨sum, hsum⟩ := Option.isSome_iff_exists.mp hsum
    rw [h.blockSum?_packed hcommitted hpacked] at hsum
    obtain ⟨deltas, hdeltas, hsum⟩ := Option.bind_eq_some_iff.mp hsum
    obtain ⟨base, hbase, hsum⟩ := Option.bind_eq_some_iff.mp hsum
    obtain ⟨product, hproduct, htotal⟩ := Option.bind_eq_some_iff.mp hsum
    rw [hb, Option.some.injEq] at hbase
    subst hbase
    have hn : (Int64.ofNat (r.layout.elementsIn k)).toInt = r.layout.elementsIn k := by
      have hsize := (Layout.blockSize_of_check h.check).2
      have hle := r.layout.elementsIn_le k
      rw [← Int64.ofInt_eq_ofNat]
      exact Int64.toInt_ofInt_of_le (by omega) (by unfold UInt32.size at hsize; omega)
    have hrange := mulWithin_range hproduct
    rw [hn] at hrange
    rcases Nat.lt_or_ge 1 (r.layout.elementsIn k) with hmany | hone
    · have hhalf := half_of_mul_range (by omega) hrange
      unfold minInt64 maxInt64
      omega
    · have hn1 : r.layout.elementsIn k = 1 := by omega
      have hindices : r.indicesOf k = [i] := by
        rw [indicesOf, hn1, List.range'_one, show i = k * r.layout.blockSize by omega]
      rw [hindices] at hdeltas
      have hd' := sumWithin_eq (f := fun _ => d) (by simpa using hd) hdeltas
      have hb' := mulWithin_eq hproduct
      rw [hn1] at hb'
      have hsome : (addWithin product deltas).isSome := by rw [htotal]; rfl
      rw [isSome_addWithin_iff, hd', hb'] at hsome
      simp only [List.map_cons, List.map_nil, wrappedSum_cons, wrappedSum_nil, Int64.add_zero,
        Int64.zero_add] at hsome
      have hmul : b * Int64.ofNat 1 = b := Int64.mul_one b
      rw [hmul] at hsome
      exact isInt64_iff.mp hsome

end BlockedRegion

end StreamGauge
