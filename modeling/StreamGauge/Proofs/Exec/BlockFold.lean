import StreamGauge.Proofs.Exec.Committed

/-!
# Folds a block at a time

A fold over a blocked view takes the sum of a whole block instead of its elements. It adds those
sums like the values of elements, and wraps; but within a block it does not wrap.

* `BlockedRegion.AddsUp` is when the sum of a block can be computed: no intermediate result leaves
  64 bits (`Valid.isSome_blockSum?_iff`).
* `Feed.foldBlocks_fault`: the first whole block that does not add up ends a fold.
* `fold_of_blocks`: else the fold ends like one that takes the elements one by one.
-/

namespace StreamGauge

theorem eq_some_getD {α : Type} {o : Option α} (h : o.isSome) (a : α) : o = some (o.getD a) := by
  obtain ⟨b, rfl⟩ := Option.isSome_iff_exists.mp h
  rfl

/-! ## Exact sums -/

/-- The sum of integers, not cut to 64 bits. -/
def exactSum (ns : List Int64) : Int := ns.foldr (fun n sum => n.toInt + sum) 0

@[simp]
theorem exactSum_nil : exactSum [] = 0 := rfl

@[simp]
theorem exactSum_cons (n : Int64) (ns : List Int64) :
    exactSum (n :: ns) = n.toInt + exactSum ns := rfl

/-- A part that all terms have in common counts as often as there are terms. -/
theorem exactSum_map_add {α : Type} {f g : α → Int64} {b : Int} {xs : List α}
    (h : ∀ x ∈ xs, (f x).toInt = b + (g x).toInt) :
    exactSum (xs.map f) = b * xs.length + exactSum (xs.map g) := by
  induction xs with
  | nil => simp
  | cons x xs ih =>
    obtain ⟨hx, hxs⟩ := List.forall_mem_cons.mp h
    simp only [List.map_cons, exactSum_cons, List.length_cons, ih hxs, hx, Int.natCast_add,
      Int.mul_add]
    omega

theorem isInt64_toInt (n : Int64) : isInt64 n.toInt = true := by
  have hlt := n.toInt_lt
  have hge := n.le_toInt
  rw [isInt64_iff]
  unfold minInt64 maxInt64
  omega

/-- A product and a sum have a value if and only if neither leaves 64 bits. -/
theorem isSome_mulWithin_addWithin {a b c : Int64} :
    ((mulWithin a b).bind (addWithin · c)).isSome ↔
      isInt64 (a.toInt * b.toInt) = true ∧ isInt64 (a.toInt * b.toInt + c.toInt) = true := by
  by_cases hfits : isInt64 (a.toInt * b.toInt) = true
  · obtain ⟨product, hproduct, hexact⟩ := mulWithin_of_isInt64 hfits
    rw [hproduct, Option.bind_some, isSome_addWithin_iff, hexact, and_iff_right hfits]
  · have hnone : mulWithin a b = none := if_neg (mt isInt64_iff.mpr hfits)
    rw [hnone]
    exact ⟨nofun, fun h => absurd h.1 hfits⟩

namespace BlockedRegion

section

variable {read? : Nat → Option Int64} {f : Nat → Int64} {is : List Nat}

/-- Numbers have a sum if and only if each of the first of them have one. -/
theorem isSome_sumWithin_iff (hread : ∀ i ∈ is, read? i = some (f i)) (start : Int64) :
    (sumWithin read? is start).isSome ↔
      ∀ n ≤ is.length, isInt64 (start.toInt + exactSum ((is.map f).take n)) = true := by
  induction is generalizing start with
  | nil => simp [sumWithin, isInt64_toInt]
  | cons i is ih =>
    obtain ⟨hi, his⟩ := List.forall_mem_cons.mp hread
    simp only [sumWithin, hi, bind, Option.bind_some]
    cases hnext : addWithin start (f i) with
    | none =>
      refine ⟨fun hsome => (by cases hsome), fun hall => ?_⟩
      -- The start and the first number leave 64 bits already, and `n = 1` asks for them.
      have hone := hall 1 (by simp)
      simp only [List.map_cons, List.take_succ_cons, List.take_zero, exactSum_cons, exactSum_nil,
        Int.add_zero] at hone
      rw [← isSome_addWithin_iff, hnext] at hone
      cases hone
    | some next =>
      have hsum := toInt_addWithin hnext
      simp only [Option.bind_some, ih his, hsum]
      constructor
      · intro hall n hn
        cases n with
        | zero => simpa using isInt64_toInt start
        | succ n =>
          have hrest := hall n (by simpa using hn)
          rwa [Int.add_assoc] at hrest
      · intro hall n hn
        have hrest := hall (n + 1) (by simpa using hn)
        rwa [List.map_cons, List.take_succ_cons, exactSum_cons, ← Int.add_assoc] at hrest

theorem toInt_sumWithin (hread : ∀ i ∈ is, read? i = some (f i)) {start sum : Int64}
    (h : sumWithin read? is start = some sum) : sum.toInt = start.toInt + exactSum (is.map f) := by
  induction is generalizing start with
  | nil =>
    cases h
    simp
  | cons i is ih =>
    obtain ⟨hi, his⟩ := List.forall_mem_cons.mp hread
    simp only [sumWithin, hi, bind, Option.bind_some] at h
    obtain ⟨next, hnext, hrest⟩ := Option.bind_eq_some_iff.mp h
    rw [ih his hrest, toInt_addWithin hnext, List.map_cons, exactSum_cons, Int.add_assoc]

end

/-! ## Blocks that add up -/

/-- The values of block `k`. -/
def valuesIn (r : BlockedRegion) (k : Nat) : List Int64 :=
  (r.indicesOf k).map fun i => (r.value? i).getD 0

/-- Nothing in the computation of the sum of block `k` leaves 64 bits: in a packed block neither
the base times the number of elements nor the sum of the values, in a raw one the sum of no
number of first values. -/
def AddsUp (r : BlockedRegion) (k : Nat) : Prop :=
  if r.layout.policy.packs k = true then
    isInt64 (((r.base? k).getD 0).toInt * r.layout.elementsIn k) = true ∧
      isInt64 (exactSum (r.valuesIn k)) = true
  else ∀ n ≤ r.layout.elementsIn k, isInt64 (exactSum ((r.valuesIn k).take n)) = true

instance (r : BlockedRegion) (k : Nat) : Decidable (r.AddsUp k) :=
  inferInstanceAs (Decidable (if r.layout.policy.packs k = true then
    isInt64 (((r.base? k).getD 0).toInt * r.layout.elementsIn k) = true ∧
      isInt64 (exactSum (r.valuesIn k)) = true
  else ∀ n ≤ r.layout.elementsIn k, isInt64 (exactSum ((r.valuesIn k).take n)) = true))

namespace Valid

variable {r : BlockedRegion} {k : Nat}

theorem toInt_elementsIn (h : r.Valid) (k : Nat) :
    (Int64.ofNat (r.layout.elementsIn k)).toInt = r.layout.elementsIn k := by
  have hsize := (Layout.blockSize_of_check h.check).2
  have hle := r.layout.elementsIn_le k
  unfold UInt32.size at hsize
  rw [← Int64.ofInt_eq_ofNat]
  exact Int64.toInt_ofInt_of_le (by omega) (by omega)

section

variable (h : r.Valid) (hk : 0 < r.layout.elementsIn k)
  (hend : k * r.layout.blockSize + r.layout.elementsIn k ≤ r.count)
  (hvalue : ∀ i ∈ r.indicesOf k, (r.value? i).isSome)

include h hk hend hvalue

theorem isSome_blockSum?_raw_iff (hraw : r.layout.policy.packs k = false) :
    (r.blockSum? k).isSome ↔
      ∀ n ≤ r.layout.elementsIn k, isInt64 (exactSum ((r.valuesIn k).take n)) = true := by
  have hread : ∀ i ∈ r.indicesOf k, r.value? i = some ((r.value? i).getD 0) := fun i hi =>
    eq_some_getD (hvalue i hi) 0
  have hlength : (r.indicesOf k).length = r.layout.elementsIn k := List.length_range'
  have hzero : (0 : Int64).toInt = 0 := rfl
  rw [h.blockSum?_raw (h.lt_size_blocks hk hend) hraw, isSome_sumWithin_iff hread, hlength]
  simp only [hzero, Int.zero_add, valuesIn]

/-- The deltas of a packed block always have a sum: they are short numbers, and less than
`2 ^ 32`. It is what the values have beside the base of each. -/
theorem exists_deltas (hpacked : r.layout.policy.packs k = true) :
    ∃ base deltas, r.base? k = some base ∧ sumWithin r.delta? (r.indicesOf k) 0 = some deltas ∧
      exactSum (r.valuesIn k) = base.toInt * r.layout.elementsIn k + deltas.toInt := by
  have hcommitted := h.lt_size_blocks hk hend
  have hcount := h.count_le
  have hlength : (r.indicesOf k).length = r.layout.elementsIn k := List.length_range'
  have hzero : (0 : Int64).toInt = 0 := rfl
  have hparts : ∀ i ∈ r.indicesOf k, ∃ b d v, r.base? k = some b ∧ r.delta? i = some d ∧
      r.value? i = some v ∧ v.toInt = b.toInt + d.toInt := by
    intro i hi
    obtain ⟨hblock, -, hlt⟩ := h.mem_indicesOf hi
    obtain ⟨b, d, hb, hd, hadd⟩ := h.value?_packed (i := i) (by omega)
      (by rwa [hblock]) (by rwa [hblock])
    obtain ⟨v, hv⟩ := Option.isSome_iff_exists.mp (hvalue i hi)
    rw [hblock] at hb
    exact ⟨b, d, v, hb, hd, hv, toInt_addWithin (hadd.symm.trans hv)⟩
  obtain ⟨base, -, -, hbase, -⟩ := hparts (k * r.layout.blockSize) (by
    rw [indicesOf, List.mem_range'_1]
    omega)
  have hdelta : ∀ i ∈ r.indicesOf k, r.delta? i = some ((r.delta? i).getD 0) := by
    intro i hi
    obtain ⟨-, d, -, -, hd, -⟩ := hparts i hi
    exact eq_some_getD (by rw [hd]; rfl) 0
  have hmany := r.layout.elementsIn_le k
  have hsize := (Layout.blockSize_of_check h.check).2
  unfold UInt32.size at hsize
  -- Each delta is within 32 bits, and so is their number.
  obtain ⟨deltas, hdeltas, -⟩ := @sumWithin_of_bounds r.delta? (r.indicesOf k) (-2147483648)
    2147483647 (fun i hi => ⟨_, hdelta i hi, h.delta?_range (hdelta i hi)⟩) (by decide) (by decide)
    0 (by rw [hzero, hlength]; unfold minInt64; omega)
    (by rw [hzero, hlength]; unfold maxInt64; omega)
  refine ⟨base, deltas, hbase, hdeltas, ?_⟩
  rw [toInt_sumWithin hdelta hdeltas, hzero, Int.zero_add, ← hlength]
  refine exactSum_map_add fun i hi => ?_
  obtain ⟨b, d, v, hb, hd, hv, hadd⟩ := hparts i hi
  cases hb.symm.trans hbase
  rw [hv, hd]
  exact hadd

theorem isSome_blockSum?_packed_iff (hpacked : r.layout.policy.packs k = true) :
    (r.blockSum? k).isSome ↔
      isInt64 (((r.base? k).getD 0).toInt * r.layout.elementsIn k) = true ∧
        isInt64 (exactSum (r.valuesIn k)) = true := by
  obtain ⟨base, deltas, hbase, hdeltas, hvalues⟩ := h.exists_deltas hk hend hvalue hpacked
  rw [h.blockSum?_packed (h.lt_size_blocks hk hend) hpacked, hdeltas, hbase, hvalues]
  simp only [Option.bind_some, Option.getD_some]
  rw [isSome_mulWithin_addWithin, h.toInt_elementsIn k]

/-- Where each element has its value, a block has a sum if and only if it adds up. -/
theorem isSome_blockSum?_iff : (r.blockSum? k).isSome ↔ r.AddsUp k := by
  unfold AddsUp
  split
  case isTrue hpacked => exact h.isSome_blockSum?_packed_iff hk hend hvalue hpacked
  case isFalse hraw =>
    exact h.isSome_blockSum?_raw_iff hk hend hvalue (Bool.not_eq_true _ ▸ hraw)

end

end Valid

end BlockedRegion

/-! ## Folds -/

namespace Feed

variable {r : BlockedRegion} {lo hi : Nat}

/-- A fold goes through the blocks in order, and ends at the first whole one without a sum. -/
theorem foldBlocks_fault (h : r.Valid) (hhi : hi ≤ r.count)
    (hvalue : ∀ i, lo ≤ i → i < hi → (r.value? i).isSome) {k : Nat} (hk : r.WholeIn lo hi k)
    (hnone : r.blockSum? k = none)
    (hbefore : ∀ j < k, r.WholeIn lo hi j → (r.blockSum? j).isSome) (t : Tally) :
    (View.blocked r).feed.foldBlocks r lo hi t = .error (.fault (.blockSum k)) := by
  -- Blocks before `k` have their sums, so the range loses them and block `k` stays in it.
  induction hd : hi - lo using Nat.strongRecOn generalizing lo t with
  | ind d ih =>
  subst hd
  rw [foldBlocks, if_pos hk.lt]
  simp only
  split
  case isTrue hblock =>
    obtain ⟨hfirst, hpos, hend⟩ := hblock
    generalize r.layout.blockOf lo = j at hfirst hpos hend
    rcases hk.eq_or_after h hfirst with rfl | ⟨hjk, hafter⟩
    · simp only [hnone]
    · obtain ⟨sum, hsum⟩ := Option.isSome_iff_exists.mp (hbefore j hjk ⟨hpos, by omega, by omega⟩)
      simp only [hsum]
      exact ih (hi - (lo + r.layout.elementsIn j)) (by omega)
        (fun i hge hlt => hvalue i (by omega) hlt) hafter
        (fun i hi hwhole => hbefore i hi (hwhole.mono (by omega))) _ rfl
  case isFalse hblock =>
    have hlt : lo < hi := hk.lt
    have hread := (@BlockedRegion.Valid.isSome_extract_iff r lo (lo + 1) h (by omega)).mpr
      fun i hge hlt' => hvalue i hge (by omega)
    rw [foldElements_ok hread t]
    exact ih (hi - (lo + 1)) (by omega) (fun i hge hlt => hvalue i (by omega) hlt)
      (hk.succ h hblock) (fun i hi hwhole => hbefore i hi (hwhole.mono (Nat.le_succ lo))) _ rfl

end Feed

/-- A fold for a reducer that takes whole blocks, over any range of indices of a region whose
elements all have values. Taken one by one, the elements have a tally: it counts them, and its sum
is the wrapped sum of their values. The fold has the same count and the same sum if each block that
lies in the range as a whole adds up. If not, the first one that does not ends it. -/
theorem fold_of_blocks {r : BlockedRegion} {reducer : Reducer} {lo hi : Nat} (hr : r.Reachable)
    (hvalue : ∀ i < r.count, (r.value? i).isSome) (hfolds : reducer.foldsBlocks = true)
    (hle : lo ≤ hi) (hhi : hi ≤ r.count) :
    ∃ f t, Feed.ofView (.blocked r) = .ok f ∧ f.foldElements lo hi .empty = .ok t ∧
      t.count = hi - lo ∧
      t.intSum = wrappedSum ((List.range' lo (hi - lo)).map fun i => (r.value? i).getD 0) ∧
      ((∀ k, r.WholeIn lo hi k → r.AddsUp k) →
        ∃ u, f.fold reducer lo hi = .ok u ∧ u.count = t.count ∧ u.intSum = t.intSum) ∧
      ∀ k, r.WholeIn lo hi k → ¬ r.AddsUp k → (∀ j < k, r.WholeIn lo hi j → r.AddsUp j) →
        f.fold reducer lo hi = .error (.fault (.blockSum k)) := by
  have h := hr.valid
  have hread := (@BlockedRegion.Valid.isSome_extract_iff r lo hi h hhi).mpr
    fun i _ hlt => hvalue i (by omega)
  have hvalues : valuesOf ((View.blocked r).feed.elements.extract lo hi).toList =
      ((List.range' lo (hi - lo)).map fun i => (r.value? i).getD 0).map .int := by
    have hextract := BlockedRegion.valuesOf_extract h lo (hi - lo) (by omega)
      fun i _ hlt => eq_some_getD (hvalue i (by omega)) 0
    rwa [Nat.add_sub_cancel' hle] at hextract
  have hadds : ∀ k, r.WholeIn lo hi k → ((r.blockSum? k).isSome ↔ r.AddsUp k) := by
    rintro k ⟨hpos, -, hend⟩
    refine h.isSome_blockSum?_iff hpos (by omega) fun i hi => hvalue i ?_
    have := (h.mem_indicesOf hi).2.2
    omega
  obtain ⟨t, ht, hmatches⟩ := Feed.foldElements_matches hread .empty
  refine ⟨(View.blocked r).feed, t, View.ofView_eq (v := .blocked r) h, ht, ?count, ?sum,
    fun hall => ?agrees, fun k hk hnot hbefore => ?fails⟩
  case count => rw [hmatches.count, List.nil_append, hvalues, List.length_map, List.length_map,
      List.length_range']
  case sum =>
    rw [hmatches.intSum, List.nil_append, hvalues, List.map_map]
    exact congrArg wrappedSum (List.map_id' _)
  case agrees =>
    have hsummable : (View.blocked r).Summable reducer lo hi :=
      ⟨hread, fun r' hr' _ k hk => by cases hr'; exact (hadds k hk).mpr (hall k hk)⟩
    obtain ⟨u, hu, hsame⟩ := hsummable.fold_matches (v := .blocked r) h hhi
    refine ⟨u, hu, ?_, ?_⟩
    · rw [hsame.count, hmatches.count, List.nil_append]
    · rw [hsame.intSum, hmatches.intSum, List.nil_append]
  case fails =>
    have hnone : r.blockSum? k = none := by
      rw [← Option.not_isSome_iff_eq_none, hadds k hk]
      exact hnot
    change (if reducer.foldsBlocks = true then _ else _) = _
    rw [if_pos hfolds]
    exact Feed.foldBlocks_fault h hhi (fun i _ hlt => hvalue i (by omega)) hk hnone
      (fun j hj hwhole => (hadds j hwhole).mpr (hbefore j hj hwhole)) _

/-- Bases of 5 and of `2 ^ 62`, each of two elements, the second one less. All values are within 64
bits, and so is the sum of either block. But twice the second base is not, and a fold of that block
fails where its elements have a tally. -/
theorem fold_of_blocks_packed :
    (∃ f u, Feed.ofView (.blocked (.pair 5 (-1))) = .ok f ∧ f.fold .sum 0 2 = .ok u ∧
      u.count = 2 ∧ u.intSum = 9) ∧
    ∃ f t, Feed.ofView (.blocked (.pair 4611686018427387904 (-1))) = .ok f ∧
      f.foldElements 0 2 .empty = .ok t ∧ t.count = 2 ∧ t.intSum = 9223372036854775807 ∧
      f.fold .sum 0 2 = .error (.fault (.blockSum 0)) := by
  have hfirst : ∀ {base delta k}, (BlockedRegion.pair base delta).WholeIn 0 2 k → k = 0 := by
    intro base delta k hk
    have hend : k * 2 + (BlockedRegion.pair base delta).layout.elementsIn k ≤ 2 := hk.2.2
    have := hk.1
    omega
  constructor
  · obtain ⟨f, t, hf, -, hcount, hsum, hagrees, -⟩ := @fold_of_blocks (.pair 5 (-1)) .sum 0 2
      (BlockedRegion.reachable_pair _ _) (by decide) rfl (by decide) (by decide)
    obtain ⟨u, hu, hucount, husum⟩ := hagrees fun k hk => by
      rw [hfirst hk]
      decide
    refine ⟨f, u, hf, hu, hucount.trans hcount, husum.trans (hsum.trans ?_)⟩
    decide
  · obtain ⟨f, t, hf, ht, hcount, hsum, -, hfails⟩ :=
      @fold_of_blocks (.pair 4611686018427387904 (-1)) .sum 0 2
        (BlockedRegion.reachable_pair _ _) (by decide) rfl (by decide) (by decide)
    refine ⟨f, t, hf, ht, hcount, hsum.trans ?_, hfails 0 ?_ ?_ nofun⟩
    · decide
    · exact ⟨by decide, by decide, by decide⟩
    · decide

end StreamGauge
