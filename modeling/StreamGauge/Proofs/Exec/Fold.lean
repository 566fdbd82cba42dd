import StreamGauge.Exec.Run
import StreamGauge.Proofs.Exec.Range

/-!
# Tallies of elements

`Tally.Matches t vs` says that a tally counts the values `vs` and has their wrapped sum; of doubles
it only says whether there is one. A tally of elements matches their values, be they taken one by
one (`foldElements_matches`) or a block at once (`foldBlocks_matches`).

A fold over a view ends with a tally exactly if the values are there, and the sums of the blocks
that are taken as a whole (`View.Summable.fold_matches`, `View.fold_fails`).
-/

namespace StreamGauge

/-- The values of elements. -/
def valuesOf (es : List Element) : List Value := es.filterMap (·.value?)

theorem valuesOf_append (es es' : List Element) :
    valuesOf (es ++ es') = valuesOf es ++ valuesOf es' :=
  List.filterMap_append ..

theorem valuesOf_cons {e : Element} {v : Value} (h : e.value? = some v) (es : List Element) :
    valuesOf (e :: es) = v :: valuesOf es := List.filterMap_cons_some h

theorem length_valuesOf {es : List Element} (h : ∀ e ∈ es, e.value?.isSome) :
    (valuesOf es).length = es.length := by
  induction es with
  | nil => rfl
  | cons e es ih =>
    obtain ⟨v, hv⟩ := Option.isSome_iff_exists.mp (h e List.mem_cons_self)
    rw [valuesOf_cons hv, List.length_cons, List.length_cons,
      ih fun e' he' => h e' (List.mem_cons_of_mem _ he')]

/-- The result of a reducer that is an integer: the number of the values, or the wrapped sum of
values that are no doubles. -/
def Reducer.integer? (reducer : Reducer) (vs : List Value) : Option Value :=
  match reducer with
  | .sum => if vs.any (·.isFloat) then none else some (.int (wrappedSum (vs.map (·.toInt64))))
  | .count | .deviationState => some (.int (Int64.ofNat vs.length))
  | .average | .variance => none

namespace Tally

/-- The tally counts these values, and its sum of integers is theirs. -/
structure Matches (t : Tally) (vs : List Value) : Prop where
  count : t.count = vs.length
  intSum : t.intSum = wrappedSum (vs.map (·.toInt64))
  float : t.float = vs.any (·.isFloat)

namespace Matches

variable {t : Tally} {vs : List Value}

theorem empty : Tally.empty.Matches [] := ⟨rfl, rfl, rfl⟩

theorem push (h : t.Matches vs) (v : Value) : (t.push v).Matches (vs ++ [v]) where
  count := by simp [Tally.push, h.count]
  intSum := by simp [Tally.push, h.intSum, wrappedSum_append]
  float := by simp [Tally.push, h.float]

/-- The sum of a block of integers stands for its elements. -/
theorem pushBlock (h : t.Matches vs) (ns : List Int64) :
    (t.pushBlock (wrappedSum ns) ns.length).Matches (vs ++ ns.map .int) where
  count := by simp [Tally.pushBlock, h.count]
  intSum := by
    have hmap : (ns.map Value.int).map (·.toInt64) = ns := by
      rw [List.map_map]
      exact List.map_id' ns
    rw [List.map_append, wrappedSum_append, hmap, ← h.intSum]
    rfl
  float := by
    have hnone : (ns.map Value.int).any (·.isFloat) = false := by
      rw [List.any_map]
      exact List.any_eq_false.mpr fun n _ => Bool.false_ne_true
    rw [List.any_append, hnone, Bool.or_false, ← h.float]
    rfl

theorem finish_eq_none_iff (h : t.Matches vs) (reducer : Reducer) :
    t.finish reducer = none ↔ vs = [] ∧ reducer.emitsEmpty = false := by
  have hempty : t.count = 0 ↔ vs = [] := by rw [h.count, List.length_eq_zero_iff]
  unfold finish
  split <;> simp_all

/-- A result that is an integer is what the values say. -/
theorem finish_integer (h : t.Matches vs) {reducer : Reducer} {x y : Value}
    (hx : t.finish reducer = some x) (hy : reducer.integer? vs = some y) : x = y := by
  unfold finish at hx
  split at hx
  · cases hx
  · cases reducer with
    | sum =>
      simp only [Reducer.integer?] at hy
      split at hy
      · cases hy
      · cases hy
        simp_all [h.float, h.intSum]
    | count | deviationState =>
      cases hy
      cases hx
      rw [h.count]
    | average | variance => cases hy

end Matches

end Tally

namespace View

/-- What operators read of a valid view. -/
def feed (v : View) : Feed := ⟨v.elements.toArray, v.blocks?⟩

theorem ofView_eq {v : View} (h : v.Valid) : Feed.ofView v = .ok v.feed := by
  unfold Feed.ofView
  rw [elements?_eq h]
  cases v <;> rfl

theorem feed_input {inputs : List View} {slot : Nat} {v : View} (hv : inputs[slot]? = some v)
    (h : v.Valid) (start stop : Int) :
    Source.feed inputs start stop (.input slot) = .ok v.feed := by
  simp only [Source.feed, inputAt, hv]
  exact ofView_eq h

/-- The elements that start in `[start, stop)`. -/
def elementsIn (v : View) (start stop : Int) : List Element :=
  v.elements.filter (Element.startsIn start stop)

section

variable {v : View} {start stop : Int}

/-- A run over `[start, stop)` reads the elements that start there. -/
theorem elementsIn_feed (h : v.Valid) (hwf : v.WellFormed) (hle : start ≤ stop) :
    StreamGauge.elementsIn v.feed.elements start stop = v.elementsIn start stop :=
  (hwf.inOrder h).elementsIn_eq hle

theorem inOrder_elementsIn (h : v.Valid) (hwf : v.WellFormed) :
    InOrder (v.elementsIn start stop) := (hwf.inOrder h).sublist List.filter_sublist

theorem start_le_of_elementsIn {e : Element} (he : e ∈ v.elementsIn start stop) :
    start ≤ e.span.start := by
  have hin := (List.mem_filter.mp he).2
  simp only [Element.startsIn, Bool.and_eq_true, decide_eq_true_eq] at hin
  exact hin.1

theorem length_elementsIn_le (h : v.Valid) : (v.elementsIn start stop).length ≤ v.size := by
  rw [← length_elements h]
  exact List.length_filter_le _ _

end

/-- An element of an index range, by its index. -/
theorem mem_extract {v : View} (h : v.Valid) {lo hi : Nat} {e : Element}
    (he : e ∈ (v.feed.elements.extract lo hi).toList) :
    ∃ i, lo ≤ i ∧ i < hi ∧ i < v.size ∧ e.value? = v.value? i := by
  obtain ⟨j, hj, rfl⟩ := List.mem_iff_getElem.mp he
  simp only [Array.length_toList, Array.size_extract] at hj
  have hsize : v.feed.elements.size = v.size := length_elements h
  refine ⟨lo + j, by omega, by omega, by omega, ?_⟩
  rw [Array.getElem_toList, Array.getElem_extract]
  exact ((getElem_elements h (by rw [length_elements h]; omega)).2).symm

theorem exists_mem_extract {v : View} (h : v.Valid) {lo hi i : Nat} (hlo : lo ≤ i) (hi' : i < hi)
    (hsize : i < v.size) :
    ∃ e ∈ (v.feed.elements.extract lo hi).toList, e.value? = v.value? i := by
  have hlen : i < v.elements.length := by rwa [length_elements h]
  refine ⟨v.elements[i], ?_, (getElem_elements h hlen).2.symm⟩
  rw [Array.mem_toList_iff, Array.mem_extract_iff_getElem]
  exact ⟨i - lo, by simp [feed]; omega, by simp [feed, Nat.add_sub_cancel' hlo]⟩

end View

namespace Feed

variable {f : Feed} {t : Tally} {vs : List Value}

theorem foldElements_eq (f : Feed) (lo hi : Nat) (t : Tally) :
    f.foldElements lo hi t =
      (f.elements.extract lo hi).toList.foldlM (fun t e => return t.push (← e.read)) t := by
  unfold foldElements
  rw [← Array.foldlM_toList]

/-- Elements taken one by one. -/
theorem foldElements_matches {lo hi : Nat}
    (hread : ∀ e ∈ (f.elements.extract lo hi).toList, e.value?.isSome) (ht : t.Matches vs) :
    ∃ u, f.foldElements lo hi t = .ok u ∧
      u.Matches (vs ++ valuesOf (f.elements.extract lo hi).toList) := by
  rw [foldElements_eq]
  generalize (f.elements.extract lo hi).toList = es at hread
  -- On the elements that are left: the tally stands for those before them, `vs`.
  induction es generalizing t vs with
  | nil => exact ⟨t, rfl, by simpa [valuesOf] using ht⟩
  | cons e es ih =>
    obtain ⟨v, hv⟩ := Option.isSome_iff_exists.mp (hread e List.mem_cons_self)
    obtain ⟨u, hu, hmatches⟩ := ih (ht.push v)
      fun e' he' => hread e' (List.mem_cons_of_mem _ he')
    refine ⟨u, ?_, ?_⟩
    · rw [List.foldlM_cons]
      simp only [Element.read, hv]
      exact hu
    · rw [valuesOf_cons hv]
      simpa using hmatches

/-- A fold of elements ends with a fault, or each of them has its value. -/
theorem foldElements_inv (f : Feed) (lo hi : Nat) (t : Tally) :
    (∃ c, f.foldElements lo hi t = .error (.fault c)) ∨
      (∃ u, f.foldElements lo hi t = .ok u) ∧
        ∀ e ∈ (f.elements.extract lo hi).toList, e.value?.isSome := by
  rw [foldElements_eq]
  generalize (f.elements.extract lo hi).toList = es
  induction es generalizing t with
  | nil => exact .inr ⟨⟨t, rfl⟩, by simp⟩
  | cons e es ih =>
    rw [List.foldlM_cons]
    cases he : e.value? with
    | none =>
      simp only [Element.read, he]
      exact .inl ⟨_, rfl⟩
    | some v =>
      simp only [Element.read, he]
      rcases ih (t.push v) with ⟨c, hc⟩ | ⟨⟨u, hu⟩, hread⟩
      · exact .inl ⟨c, hc⟩
      · refine .inr ⟨⟨u, hu⟩, fun e' he' => ?_⟩
        rcases List.mem_cons.mp he' with rfl | he'
        · rw [he]
          rfl
        · exact hread e' he'

theorem extract_split (xs : Array Element) {lo hi : Nat} (mid : Nat) (h : lo ≤ mid)
    (h' : mid ≤ hi) :
    (xs.extract lo hi).toList = (xs.extract lo mid).toList ++ (xs.extract mid hi).toList := by
  rw [← Array.toList_append, Array.extract_append_extract, Nat.min_eq_left h, Nat.max_eq_right h']

end Feed

namespace BlockedRegion

/-- A block that lies in an index range as a whole. -/
def WholeIn (r : BlockedRegion) (lo hi k : Nat) : Prop :=
  0 < r.layout.elementsIn k ∧ lo ≤ k * r.layout.blockSize ∧
    k * r.layout.blockSize + r.layout.elementsIn k ≤ hi

theorem WholeIn.mono {r : BlockedRegion} {lo lo' hi k : Nat} (h : r.WholeIn lo hi k)
    (hle : lo' ≤ lo) : r.WholeIn lo' hi k := ⟨h.1, Nat.le_trans hle h.2.1, h.2.2⟩

theorem WholeIn.lt {r : BlockedRegion} {lo hi k : Nat} (h : r.WholeIn lo hi k) : lo < hi := by
  obtain ⟨hpos, hle, hend⟩ := h
  omega

/-- A block that lies in a range which begins with block `j` is that block, or it lies after it. -/
theorem WholeIn.eq_or_after {r : BlockedRegion} {lo hi j k : Nat} (h : r.Valid)
    (hk : r.WholeIn lo hi k) (hfirst : lo = j * r.layout.blockSize) :
    j = k ∨ j < k ∧ r.WholeIn (lo + r.layout.elementsIn j) hi k := by
  obtain ⟨hpos, hle, hend⟩ := hk
  have hsize := h.blockSize_pos
  rcases Nat.lt_trichotomy j k with hjk | hjk | hkj
  · -- The next block begins where this one ends, or later.
    have hnext := Nat.mul_le_mul_right r.layout.blockSize (show j + 1 ≤ k by omega)
    have hn := r.layout.elementsIn_le j
    rw [Nat.succ_mul] at hnext
    exact .inr ⟨hjk, hpos, by omega, hend⟩
  · exact .inl hjk
  · have hbefore := Nat.mul_le_mul_right r.layout.blockSize (show k + 1 ≤ j by omega)
    rw [Nat.succ_mul] at hbefore
    omega

/-- A range that does not begin with a whole block has the same whole blocks without its first
index. -/
theorem WholeIn.succ {r : BlockedRegion} {lo hi k : Nat} (h : r.Valid) (hk : r.WholeIn lo hi k)
    (hblock : ¬(lo = r.layout.blockOf lo * r.layout.blockSize ∧
      0 < r.layout.elementsIn (r.layout.blockOf lo) ∧
        lo + r.layout.elementsIn (r.layout.blockOf lo) ≤ hi)) : r.WholeIn (lo + 1) hi k := by
  obtain ⟨hpos, hle, hend⟩ := hk
  have hne : lo ≠ k * r.layout.blockSize := by
    intro hfirst
    have hblockOf : r.layout.blockOf lo = k := by
      rw [hfirst, Layout.blockOf, Nat.mul_div_cancel _ h.blockSize_pos]
    rw [hblockOf] at hblock
    exact hblock ⟨hfirst, hpos, by omega⟩
  exact ⟨hpos, by omega, hend⟩

/-- The elements of an index range have values if and only if the region has them there. -/
theorem Valid.isSome_extract_iff {r : BlockedRegion} {lo hi : Nat} (h : r.Valid)
    (hhi : hi ≤ r.count) :
    (∀ e ∈ ((View.blocked r).feed.elements.extract lo hi).toList, e.value?.isSome) ↔
      ∀ i, lo ≤ i → i < hi → (r.value? i).isSome := by
  constructor
  · intro hread i hge hlt
    obtain ⟨e, he, hv⟩ := View.exists_mem_extract (v := .blocked r) h hge hlt
      (Nat.lt_of_lt_of_le hlt hhi)
    have hsome := hread e he
    rw [hv] at hsome
    exact Option.isSome_map.symm.trans hsome
  · intro hvalue e he
    obtain ⟨i, hge, hlt, -, hv⟩ := View.mem_extract (v := .blocked r) h he
    rw [hv]
    exact Option.isSome_map.trans (hvalue i hge hlt)

/-- The values of an index range of a valid region. -/
theorem valuesOf_extract {r : BlockedRegion} (h : r.Valid) (lo n : Nat) (hn : lo + n ≤ r.count)
    {value : Nat → Int64} (hvalue : ∀ i, lo ≤ i → i < lo + n → r.value? i = some (value i)) :
    valuesOf ((View.blocked r).elements.toArray.extract lo (lo + n)).toList =
      ((List.range' lo n).map value).map Value.int := by
  have hlen : (View.blocked r).elements.length = r.count := View.length_elements (v := .blocked r) h
  have hsome : ((View.blocked r).elements.toArray.extract lo (lo + n)).toList.map (·.value?) =
      (List.range' lo n).map fun i => some (Value.int (value i)) := by
    apply List.ext_getElem
    · simp [hlen]
      omega
    · intro i hi hi'
      simp only [List.length_map, List.length_range'] at hi'
      have hget := (View.getElem_elements (v := .blocked r) h (i := lo + i) (by omega)).2
      simp only [List.getElem_map, Array.getElem_toList, Array.getElem_extract,
        List.getElem_toArray, List.getElem_range', Nat.one_mul]
      rw [← hget]
      exact congrArg (Option.map Value.int) (hvalue (lo + i) (by omega) (by omega))
  have hfilter : ∀ es : List Element, valuesOf es = (es.map (·.value?)).filterMap id := by
    intro es
    rw [List.filterMap_map]
    rfl
  rw [hfilter, hsome, List.filterMap_map]
  simp [Function.comp_def, List.filterMap_eq_map']

end BlockedRegion

namespace Feed

variable {r : BlockedRegion} {lo hi : Nat} {t : Tally} {vs : List Value}

/-- Elements taken a block at a time, where each whole block has its sum. -/
theorem foldBlocks_matches (h : r.Valid) (hhi : hi ≤ r.count) (value : Nat → Int64)
    (hvalue : ∀ i, lo ≤ i → i < hi → r.value? i = some (value i))
    (hsum : ∀ k, r.WholeIn lo hi k → (r.blockSum? k).isSome) (ht : t.Matches vs) :
    ∃ u, (View.blocked r).feed.foldBlocks r lo hi t = .ok u ∧
      u.Matches (vs ++ valuesOf ((View.blocked r).feed.elements.extract lo hi).toList) := by
  -- On the length of the range, which loses a whole block or one element from its front.
  induction hd : hi - lo using Nat.strongRecOn generalizing lo t vs with
  | ind d ih =>
  subst hd
  rw [foldBlocks]
  by_cases hlt : lo < hi
  · rw [if_pos hlt]
    simp only
    split
    case isTrue hblock =>
      obtain ⟨hfirst, hpos, hend⟩ := hblock
      generalize hk : r.layout.blockOf lo = k at hfirst hpos hend
      obtain ⟨sum, hs⟩ := Option.isSome_iff_exists.mp (hsum k ⟨hpos, by omega, by omega⟩)
      have hindices : r.indicesOf k = List.range' lo (r.layout.elementsIn k) := by rw [hfirst]; rfl
      have hsumeq := h.blockSum?_eq hpos (by omega) value (fun i hi' => by
        obtain ⟨-, hge, hlast⟩ := h.mem_indicesOf hi'
        exact hvalue i (by omega) (by omega)) hs
      -- The block sum is the wrapped sum of the same values that the elements would have pushed.
      rw [hindices] at hsumeq
      have hlength : r.layout.elementsIn k =
          ((List.range' lo (r.layout.elementsIn k)).map value).length := by simp
      have hpush := ht.pushBlock ((List.range' lo (r.layout.elementsIn k)).map value)
      rw [← hsumeq, ← hlength] at hpush
      obtain ⟨u, hu, hmatches⟩ := @ih (hi - (lo + r.layout.elementsIn k)) (by omega)
        (lo + r.layout.elementsIn k) _ _ (fun i hge hlt => hvalue i (by omega) hlt)
        (fun j hj => hsum j (hj.mono (Nat.le_add_right _ _))) hpush rfl
      simp only [hs]
      refine ⟨u, hu, ?_⟩
      rw [extract_split _ (lo + r.layout.elementsIn k) (by omega) hend, valuesOf_append,
        ← List.append_assoc]
      have hvalues := BlockedRegion.valuesOf_extract h lo (r.layout.elementsIn k)
        (by omega) (fun i hge hlt => hvalue i hge (by omega))
      rw [← hvalues] at hmatches
      exact hmatches
    case isFalse hblock =>
      -- One element is taken alone. The whole blocks of what is left are whole in the range.
      have hone := BlockedRegion.valuesOf_extract h lo 1 (by omega)
        (fun i hge hlt => hvalue i hge (by omega))
      have hread := (@BlockedRegion.Valid.isSome_extract_iff r lo (lo + 1) h (by omega)).mpr
        fun i hge hlt' => by
          rw [hvalue i hge (by omega)]
          rfl
      obtain ⟨u₁, hu₁, hmatches₁⟩ := foldElements_matches hread ht
      obtain ⟨u, hu, hmatches⟩ := @ih (hi - (lo + 1)) (by omega) (lo + 1) _ _
        (fun i hge hlt => hvalue i (by omega) hlt)
        (fun j hj => hsum j (hj.mono (Nat.le_add_right _ _))) hmatches₁ rfl
      refine ⟨u, ?_, ?_⟩
      · rw [hu₁]
        exact hu
      · rw [extract_split _ (lo + 1) (by omega) (by omega), valuesOf_append,
          ← List.append_assoc]
        exact hmatches
  · rw [if_neg hlt]
    refine ⟨t, rfl, ?_⟩
    have hnil : ((View.blocked r).feed.elements.extract lo hi).toList = [] := by
      rw [List.eq_nil_iff_length_eq_zero, Array.length_toList, Array.size_extract]
      omega
    rw [hnil]
    simpa [valuesOf] using ht

/-- A fold a block at a time ends with a fault, or each element has its value and each whole block
its sum. -/
theorem foldBlocks_inv (h : r.Valid) (hhi : hi ≤ r.count) (t : Tally) :
    (∃ c, (View.blocked r).feed.foldBlocks r lo hi t = .error (.fault c)) ∨
      (∃ u, (View.blocked r).feed.foldBlocks r lo hi t = .ok u) ∧
        (∀ i, lo ≤ i → i < hi → (r.value? i).isSome) ∧
          ∀ k, r.WholeIn lo hi k → (r.blockSum? k).isSome := by
  induction hd : hi - lo using Nat.strongRecOn generalizing lo t with
  | ind d ih =>
  subst hd
  rw [foldBlocks]
  by_cases hlt : lo < hi
  · rw [if_pos hlt]
    simp only
    split
    case isTrue hblock =>
      obtain ⟨hfirst, hpos, hend⟩ := hblock
      generalize r.layout.blockOf lo = j at hfirst hpos hend
      cases hs : r.blockSum? j with
      | none => exact .inl ⟨_, rfl⟩
      | some sum =>
        rcases @ih (hi - (lo + r.layout.elementsIn j)) (by omega) (lo + r.layout.elementsIn j)
          (t.pushBlock sum (r.layout.elementsIn j)) rfl with hfault | ⟨hok, hvalue, hsum⟩
        · exact .inl hfault
        · refine .inr ⟨hok, fun i hge hi' => ?_, fun k hk => ?_⟩
          -- A block that has its sum has all its values: they were added up for it.
          · rcases Nat.lt_or_ge i (lo + r.layout.elementsIn j) with hin | hout
            · refine h.isSome_value? (k := j) (by omega) (by rw [hs]; rfl) ?_
              rw [BlockedRegion.indicesOf, ← hfirst, List.mem_range']
              exact ⟨i - lo, by omega, by omega⟩
            · exact hvalue i hout hi'
          · rcases hk.eq_or_after h hfirst with rfl | ⟨-, hafter⟩
            · rw [hs]
              rfl
            · exact hsum k hafter
    case isFalse hblock =>
      rcases foldElements_inv (View.blocked r).feed lo (lo + 1) t with ⟨c, hc⟩ | ⟨⟨u, hu⟩, hread⟩
      · rw [hc]
        exact .inl ⟨c, rfl⟩
      · rw [hu]
        rcases @ih (hi - (lo + 1)) (by omega) (lo + 1) u rfl with hfault | ⟨hok, hvalue, hsum⟩
        · exact .inl hfault
        · refine .inr ⟨hok, fun i hge hi' => ?_, fun k hk => ?_⟩
          · rcases Nat.eq_or_lt_of_le hge with rfl | hgt
            · exact (h.isSome_extract_iff (by omega)).mp hread lo (Nat.le_refl lo)
                (Nat.lt_succ_self lo)
            · exact hvalue i hgt hi'
          · exact hsum k (hk.succ h hblock)
  · rw [if_neg hlt]
    exact .inr ⟨⟨t, rfl⟩, fun i hge hi' => by omega, fun k hk => absurd hk.lt hlt⟩

end Feed

namespace View

variable {v : View} {reducer : Reducer} {lo hi : Nat}

/-- The reducer finds what it needs of an index range: the values, and the sums of the blocks that
it takes as a whole. -/
structure Summable (v : View) (reducer : Reducer) (lo hi : Nat) : Prop where
  value : ∀ e ∈ (v.feed.elements.extract lo hi).toList, e.value?.isSome
  blockSum : ∀ r, v.blocks? = some r → reducer.foldsBlocks = true →
    ∀ k, r.WholeIn lo hi k → (r.blockSum? k).isSome

/-- Where no value and no sum leaves 64 bits, nothing is missing. -/
theorem NoOverflow.summable (hno : v.NoOverflow) (h : v.Valid) (hhi : hi ≤ v.size) :
    v.Summable reducer lo hi where
  value e he := by
    obtain ⟨i, -, -, hi, hv⟩ := mem_extract h he
    have hlen : i < v.elements.length := by rwa [length_elements h]
    rw [hv, (getElem_elements h hlen).2]
    exact hno.value?_isSome h _ (List.getElem_mem hlen)
  blockSum r hr _ k hk := by
    cases v with
    | plain r' => cases hr
    | blocked r' =>
      cases hr
      exact BlockedRegion.NoOverflow.blockSum hno k hk.1 (Nat.le_trans hk.2.2 hhi)

/-- The tally of an index range, if nothing is missing. -/
theorem Summable.fold_matches (hs : v.Summable reducer lo hi) (h : v.Valid) (hhi : hi ≤ v.size) :
    ∃ t, v.feed.fold reducer lo hi = .ok t ∧
      t.Matches (valuesOf (v.feed.elements.extract lo hi).toList) := by
  have hone : ∃ t, v.feed.foldElements lo hi .empty = .ok t ∧
      t.Matches (valuesOf (v.feed.elements.extract lo hi).toList) :=
    Feed.foldElements_matches hs.value .empty
  cases v with
  | plain r => exact hone
  | blocked r =>
    cases hfolds : reducer.foldsBlocks with
    | false =>
      change ∃ t, (if reducer.foldsBlocks = true then _ else _) = _ ∧ _
      rw [if_neg (by rw [hfolds]; exact Bool.false_ne_true)]
      exact hone
    | true =>
      change ∃ t, (if reducer.foldsBlocks = true then _ else _) = _ ∧ _
      rw [if_pos hfolds]
      refine Feed.foldBlocks_matches h hhi (fun i => (r.value? i).getD 0)
        (fun i hge hlt => ?_) (hs.blockSum r rfl hfolds) .empty
      have hsome := (BlockedRegion.Valid.isSome_extract_iff h hhi).mp hs.value i hge hlt
      obtain ⟨n, hn⟩ := Option.isSome_iff_exists.mp hsome
      rw [hn]
      rfl

/-- If something is missing, there is no tally. -/
theorem fold_fails (h : v.Valid) (hhi : hi ≤ v.size) (hs : ¬ v.Summable reducer lo hi) :
    ∃ c, v.feed.fold reducer lo hi = .error (.fault c) := by
  -- Elements one by one: what is missing can only be a value.
  have hone : (∀ r, v.blocks? = some r → reducer.foldsBlocks = false) →
      ∃ c, v.feed.foldElements lo hi .empty = .error (.fault c) := by
    intro hplain
    rcases Feed.foldElements_inv v.feed lo hi .empty with hfault | ⟨-, hread⟩
    · exact hfault
    · refine absurd ⟨hread, fun r hr hfolds => ?_⟩ hs
      rw [hplain r hr] at hfolds
      cases hfolds
  cases v with
  | plain r => exact hone fun r hr => by cases hr
  | blocked r =>
    cases hfolds : reducer.foldsBlocks with
    | false =>
      change ∃ c, (if reducer.foldsBlocks = true then _ else _) = _
      rw [if_neg (by rw [hfolds]; exact Bool.false_ne_true)]
      exact hone fun _ _ => hfolds
    | true =>
      change ∃ c, (if reducer.foldsBlocks = true then _ else _) = _
      rw [if_pos hfolds]
      rcases Feed.foldBlocks_inv h hhi .empty with hfault | ⟨-, hvalue, hsum⟩
      · exact hfault
      · have hread := (BlockedRegion.Valid.isSome_extract_iff h hhi).mpr hvalue
        refine absurd ⟨hread, fun r' hr' _ => ?_⟩ hs
        cases hr'
        exact hsum

end View

end StreamGauge
