import StreamGauge.Proofs.Exec.Window

/-!
# A run of a window

`View.CompleteAt` says what a window needs at a tick: times within 64 bits, the value of each
element, and the sum of each block that lies in the window as a whole. Then the emission at the
tick is known (`emissionAt_of_completeAt`), otherwise it is a fault (`emissionAt_fails`).

`run_window` puts the ticks together: what a window over an input appends if nothing is missing at
its ticks (`View.Complete`), and that it ends with a fault otherwise. The elements of
`overflowingBlock` each have a value, but their block has no sum.
-/

namespace StreamGauge

/-! ## Emissions at ticks -/

/-- The emission commits up to `tick`, passes to it, or ends the run. -/
def Emission.IsAt (tick : Int) : Emission → Prop
  | upTo time _ => time = tick
  | pass time => time = tick
  | during _ _ => False
  | halt _ => True

theorem windowEmission_isAt (f : Feed) (reducer : Reducer) (tick : Int) (lo hi : Nat) :
    (windowEmission f reducer tick lo hi).IsAt tick := by
  unfold windowEmission
  split
  · trivial
  · split <;> rfl

section Ticks

variable {time : Nat → Int} {e : Nat → Emission} {ks : List Nat} {t : Int}

/-- Emissions at increasing times follow each other. -/
theorem ascending_ticks (hmono : ∀ i j, i < j → time i < time j) (he : ∀ k, (e k).IsAt (time k))
    (hks : ks.Pairwise (· < ·)) (ht : ∀ k ∈ ks, t < time k) : Ascending t (ks.map e) := by
  induction ks generalizing t with
  | nil => trivial
  | cons k ks ih =>
    obtain ⟨hlt, hks⟩ := List.pairwise_cons.mp hks
    have hk := ht k List.mem_cons_self
    have hrest : ∀ j ∈ ks, t < time j := fun j hj => ht j (List.mem_cons_of_mem _ hj)
    have hnext : ∀ j ∈ ks, time k < time j := fun j hj => hmono k j (hlt j hj)
    rw [List.map_cons]
    have hat := he k
    cases hek : e k with
    | during span v => rw [hek] at hat; exact hat.elim
    | upTo stop v =>
      rw [hek] at hat
      cases hat
      exact ⟨hk, ih hks hnext⟩
    | pass stop =>
      rw [hek] at hat
      cases hat
      exact ⟨Int.le_of_lt hk, ih hks hnext⟩
    | halt x => exact ⟨trivial, ih hks hrest⟩

variable {emits : Nat → Bool} {value : Nat → Value}

/-- The elements at consecutive ticks: each begins at the tick before its own, the first one at
`t`. -/
theorem placed_ticks (kind : Kind) {m n : Nat} (he : ∀ k ∈ List.range' m n,
      e k = if emits k then .upTo (time k) (value k) else .pass (time k)) :
    placed kind t ((List.range' m n).map e) = ((List.range' m n).filter emits).map fun k =>
      ⟨.between (if k = m then t else time (k - 1)) (time k), some (kind.convert (value k))⟩ := by
  induction n generalizing m t with
  | zero => rfl
  | succ n ih =>
    rw [List.range'_succ, List.map_cons, placed, List.filter_cons]
    have hstop : (e m).stopAfter t = time m := by
      rw [he m (by simp)]
      split <;> rfl
    have hrest := @ih (time m) (m + 1) fun k hk => he k (by
      rw [List.range'_succ]
      exact List.mem_cons_of_mem _ hk)
    -- Behind the first tick, every element begins at the tick before its own.
    have hsame : ∀ k ∈ (List.range' (m + 1) n).filter emits,
        (if k = m + 1 then time m else time (k - 1)) = if k = m then t else time (k - 1) := by
      intro k hk
      have hge := (List.mem_range'_1.mp (List.mem_filter.mp hk).1).1
      rw [if_neg (show k ≠ m by omega)]
      split
      · rw [show k - 1 = m by omega]
      · rfl
    rw [hstop, hrest, List.map_congr_left fun k hk => by rw [hsame k hk], he m (by simp)]
    cases emits m with
    | true => simp [Emission.element?]
    | false => simp [Emission.element?]

theorem stopAfterAll_ticks (he : ∀ k ∈ ks, (e k).IsAt (time k) ∧ (e k).isHalt = false) :
    stopAfterAll t (ks.map e) = (ks.getLast?.map time).getD t := by
  rcases List.eq_nil_or_concat ks with rfl | ⟨ks', k, rfl⟩
  · rfl
  · obtain ⟨hat, hhalt⟩ := he k (by simp)
    rw [stopAfterAll, List.map_concat, List.concat_eq_append, List.foldl_append,
      List.concat_eq_append, List.getLast?_concat]
    cases hek : e k with
    | during span v => rw [hek] at hat; exact hat.elim
    | upTo stop v => rw [hek] at hat; exact hat
    | pass stop => rw [hek] at hat; exact hat
    | halt x => rw [hek] at hhalt; cases hhalt

end Ticks

/-! ## What is there at a tick -/

theorem needing_isAt {tick : Int} {e : Emission} (h : e.IsAt tick) (times : List Int) :
    (e.needing times).IsAt tick := by
  unfold Emission.needing
  split
  · trivial
  · exact h

theorem emissionAt_isAt (f : Feed) (length period : Int) (reducer : Reducer)
    (start stop tick : Int) : (emissionAt f length period reducer start stop tick).IsAt tick :=
  needing_isAt (windowEmission_isAt ..) _

theorem needing_eq {times : List Int} (h : ∀ t ∈ times, isInt64 t = true) (e : Emission) :
    e.needing times = e := by
  have hnone : times.find? (!isInt64 ·) = none := by
    rw [List.find?_eq_none]
    intro t ht
    simp [h t ht]
  simp only [Emission.needing, hnone]

theorem needing_fails {times : List Int} (h : ¬ ∀ t ∈ times, isInt64 t = true) (e : Emission) :
    ∃ c, e.needing times = .halt (.fault c) := by
  unfold Emission.needing
  cases hfind : times.find? (!isInt64 ·) with
  | some t => exact ⟨_, rfl⟩
  | none =>
    rw [List.find?_eq_none] at hfind
    exact absurd (fun t ht => by simpa using hfind t ht) h

namespace View

/-- What a window needs at a tick is there: the times are within 64 bits, each of its elements has
its value, and each block of which all elements lie in the window has its sum, if the reducer takes
blocks as a whole. Where the window begins matters if an element lies in it or has just left it. -/
structure CompleteAt (v : View) (reducer : Reducer) (start stop length period tick : Int) :
    Prop where
  tickFits : isInt64 tick = true
  startFits : (∃ e ∈ v.elements, e.inWindow start stop (length + period) tick = true) →
    isInt64 (tick - length) = true
  value : ∀ e ∈ windowAt v.elements start stop length tick, e.value?.isSome
  blockSum : ∀ r, v.blocks? = some r → reducer.foldsBlocks = true →
    ∀ k, 0 < r.layout.elementsIn k →
      (∀ i ∈ r.indicesOf k, ∃ e, v.elements[i]? = some e ∧
        e.inWindow start stop length tick = true) → (r.blockSum? k).isSome

variable {v : View} {reducer : Reducer} {start stop length period tick : Int}

/-- An index lies between the bounds of a window if its element lies in the window. -/
theorem inWindow_index (h : v.Valid) (hwf : v.WellFormed) (hle : start ≤ stop) (i : Nat) :
    (windowBounds v.feed.elements start stop length tick).1 ≤ i ∧
        i < (windowBounds v.feed.elements start stop length tick).2 ↔
      ∃ e, v.elements[i]? = some e ∧ e.inWindow start stop length tick = true := by
  have horder : InOrder v.feed.elements.toList := hwf.inOrder h
  have hbounds := (windowBounds_le horder hle length tick).2
  rcases Nat.lt_or_ge i v.feed.elements.size with hi | hi
  · rw [windowBounds_spec horder hle hi]
    constructor
    · intro hin
      exact ⟨_, List.getElem?_eq_getElem hi, hin⟩
    · rintro ⟨e, he, hin⟩
      obtain ⟨hi', rfl⟩ := List.getElem?_eq_some_iff.mp he
      exact hin
  · constructor
    · rintro ⟨-, hlt⟩
      omega
    · rintro ⟨e, he, -⟩
      obtain ⟨hlt, -⟩ := List.getElem?_eq_some_iff.mp he
      exact absurd hlt (Nat.not_lt.mpr hi)

theorem wholeIn_iff {r : BlockedRegion} {lo hi k : Nat} (hk : 0 < r.layout.elementsIn k) :
    r.WholeIn lo hi k ↔ ∀ i ∈ r.indicesOf k, lo ≤ i ∧ i < hi := by
  unfold BlockedRegion.WholeIn BlockedRegion.indicesOf
  simp only [List.mem_range'_1]
  constructor
  · rintro ⟨-, hlo, hhi⟩ i ⟨hge, hlt⟩
    omega
  · intro h
    have hfirst := h (k * r.layout.blockSize) (by omega)
    have hlast := h (k * r.layout.blockSize + r.layout.elementsIn k - 1) (by omega)
    omega

/-- The bounds that make a run compute where a window begins. -/
theorem before_lt_iff (h : v.Valid) (hwf : v.WellFormed) (hle : start ≤ stop)
    (hlength : 0 < length) :
    (windowBounds v.feed.elements start stop length (tick - period)).1 <
        (windowBounds v.feed.elements start stop length tick).2 ↔
      ∃ e ∈ v.elements, e.inWindow start stop (length + period) tick = true := by
  have horder : InOrder v.feed.elements.toList := hwf.inOrder h
  have hbounds := (windowBounds_le horder hle length tick).2
  constructor
  · intro hlt
    have hi := Nat.lt_of_lt_of_le hlt hbounds
    exact ⟨_, Array.getElem_mem_toList hi,
      (windowBounds_before horder hle (Int.le_of_lt hlength) hi).mp ⟨Nat.le_refl _, hlt⟩⟩
  · rintro ⟨e, he, hin⟩
    obtain ⟨i, hi, rfl⟩ := List.mem_iff_getElem.mp he
    have := (windowBounds_before horder hle (Int.le_of_lt hlength) hi).mpr hin
    omega

/-- It makes no difference whether a window is given by its elements or by its indices. -/
theorem completeAt_iff (h : v.Valid) (hwf : v.WellFormed) (hle : start ≤ stop)
    (hlength : 0 < length) :
    v.CompleteAt reducer start stop length period tick ↔
      (∀ t ∈ (if (windowBounds v.feed.elements start stop length (tick - period)).1 <
          (windowBounds v.feed.elements start stop length tick).2 then [tick, tick - length]
          else [tick]), isInt64 t = true) ∧
        v.Summable reducer (windowBounds v.feed.elements start stop length tick).1
          (windowBounds v.feed.elements start stop length tick).2 := by
  have horder : InOrder v.feed.elements.toList := hwf.inOrder h
  have hwindow := extract_eq_windowAt horder hle length tick
  have hbefore := @before_lt_iff v start stop length period tick h hwf hle hlength
  constructor
  · rintro ⟨htick, hstart, hvalue, hsum⟩
    refine ⟨?_, by rwa [hwindow], fun r hr hfolds k hk => hsum r hr hfolds k hk.1 fun i hi => ?_⟩
    · split
      case isTrue hlt => simp [htick, hstart (hbefore.mp hlt)]
      case isFalse => simp [htick]
    · exact (inWindow_index h hwf hle i).mp ((wholeIn_iff hk.1).mp hk i hi)
  · rintro ⟨htimes, hvalue, hsum⟩
    refine ⟨htimes tick (by split <;> simp), fun hin => ?_, by rwa [hwindow] at hvalue,
      fun r hr hfolds k hk hin => hsum r hr hfolds k ?_⟩
    · rw [if_pos (hbefore.mpr hin)] at htimes
      exact htimes _ (by simp)
    · exact (wholeIn_iff hk).mpr fun i hi => (inWindow_index h hwf hle i).mpr (hin i hi)

/-- Where no time and no sum leaves 64 bits, nothing is missing. -/
theorem NoOverflow.completeAt (hno : v.NoOverflow) (h : v.Valid) (hwf : v.WellFormed)
    (hle : start ≤ stop) (hlength : 0 < length) (htick : isInt64 tick = true)
    (hstart : isInt64 (tick - length) = true) :
    v.CompleteAt reducer start stop length period tick := by
  have hbounds := (windowBounds_le (hwf.inOrder h) hle length tick).2
  have hsize : v.feed.elements.size = v.size := length_elements h
  refine (completeAt_iff h hwf hle hlength).mpr ⟨fun t ht => ?_, hno.summable h ?_⟩
  · split at ht <;> simp at ht
    · rcases ht with rfl | rfl
      · exact htick
      · exact hstart
    · rw [ht]
      exact htick
  · rw [← hsize]
    exact hbounds

/-- The reducer commits an element at a tick: it needs none in the window, or there is one. -/
def emitsAt (v : View) (reducer : Reducer) (start stop length tick : Int) : Bool :=
  reducer.emitsEmpty || !(windowAt v.elements start stop length tick).isEmpty

/-- The emission at a tick where nothing is missing. -/
theorem emissionAt_of_completeAt (h : v.Valid) (hwf : v.WellFormed) (hle : start ≤ stop)
    (hlength : 0 < length) (hs : v.CompleteAt reducer start stop length period tick) :
    ∃ x, emissionAt v.feed length period reducer start stop tick =
        (if v.emitsAt reducer start stop length tick then .upTo tick x else .pass tick) ∧
      ∀ y, reducer.integer? (valuesOf (windowAt v.elements start stop length tick)) = some y →
        v.emitsAt reducer start stop length tick = true → x = y := by
  have horder : InOrder v.feed.elements.toList := hwf.inOrder h
  have hbounds := (windowBounds_le horder hle length tick).2
  have hsize : v.feed.elements.size = v.size := length_elements h
  obtain ⟨htimes, hsummable⟩ := (completeAt_iff h hwf hle hlength).mp hs
  obtain ⟨t, ht, hmatches⟩ := hsummable.fold_matches h (by omega)
  rw [extract_eq_windowAt horder hle] at hmatches
  change t.Matches (valuesOf (windowAt v.elements start stop length tick)) at hmatches
  -- The tally counts values, `emitsAt` asks for elements: each element here has its value.
  have hnil : valuesOf (windowAt v.elements start stop length tick) = [] ↔
      windowAt v.elements start stop length tick = [] := by
    rw [← List.length_eq_zero_iff, length_valuesOf hs.value, List.length_eq_zero_iff]
  have hnone := hmatches.finish_eq_none_iff reducer
  rw [hnil] at hnone
  simp only [emissionAt, needing_eq htimes, windowEmission, ht]
  cases hfinish : t.finish reducer with
  | none =>
    obtain ⟨hempty, hemits⟩ := hnone.mp hfinish
    have hpass : v.emitsAt reducer start stop length tick = false := by
      simp [emitsAt, hempty, hemits]
    refine ⟨.int 0, ?_, fun y _ htrue => by rw [hpass] at htrue; cases htrue⟩
    rw [hpass]
    rfl
  | some x =>
    have hup : v.emitsAt reducer start stop length tick = true := by
      cases hemits : v.emitsAt reducer start stop length tick with
      | true => rfl
      | false =>
        simp only [emitsAt, Bool.or_eq_false_iff, Bool.not_eq_false', List.isEmpty_iff] at hemits
        have := hnone.mpr hemits.symm
        rw [hfinish] at this
        cases this
    refine ⟨x, ?_, fun y hy _ => hmatches.finish_integer hfinish hy⟩
    rw [if_pos hup]

/-- If something is missing, the emission at a tick ends the run. -/
theorem emissionAt_fails (h : v.Valid) (hwf : v.WellFormed) (hle : start ≤ stop)
    (hlength : 0 < length) (hs : ¬ v.CompleteAt reducer start stop length period tick) :
    ∃ c, emissionAt v.feed length period reducer start stop tick = .halt (.fault c) := by
  have horder : InOrder v.feed.elements.toList := hwf.inOrder h
  have hbounds := (windowBounds_le horder hle length tick).2
  have hsize : v.feed.elements.size = v.size := length_elements h
  rw [completeAt_iff h hwf hle hlength] at hs
  simp only [emissionAt]
  generalize htimes : (if (windowBounds v.feed.elements start stop length (tick - period)).1 <
    (windowBounds v.feed.elements start stop length tick).2 then [tick, tick - length]
    else [tick]) = times at hs ⊢
  -- The times are checked before the fold, so the fault of the fold shows only where they fit.
  by_cases hfit : ∀ t ∈ times, isInt64 t = true
  · obtain ⟨c, hc⟩ := fold_fails h (by omega) fun hsum => hs ⟨hfit, hsum⟩
    exact ⟨c, by simp only [needing_eq hfit, windowEmission, hc]⟩
  · exact needing_fails hfit _

/-- The numbers of the ticks with an element. -/
def emittingTicks (v : View) (reducer : Reducer) (start stop length period : Int) : List Nat :=
  (tickNumbers start stop period).filter fun k =>
    v.emitsAt reducer start stop length (start + k * period)

/-- Nothing is missing at any tick, and the tick that ends the run is within 64 bits. -/
structure Complete (v : View) (reducer : Reducer) (start stop length period : Int) : Prop where
  ticks : ∀ k ∈ tickNumbers start stop period,
    v.CompleteAt reducer start stop length period (start + k * period)
  endFits : isInt64 (endTick start stop period) = true

/-- The emissions of a window follow each other, from the start of the run on. -/
theorem ascending_window (h : v.Valid) (hwf : v.WellFormed) (hle : start ≤ stop)
    (hperiod : 0 < period) {t : Int} (ht : t ≤ start) :
    Ascending t (window length period reducer v.feed start stop).toList := by
  have hmono : ∀ i j : Nat, i < j → start + i * period < start + j * period := by
    intro i j hij
    have := Int.mul_lt_mul_of_pos_right (Int.ofNat_lt.mpr hij) hperiod
    omega
  rw [toList_window (hwf.inOrder h) hperiod hle, ascending_append]
  refine ⟨ascending_ticks hmono (fun k => emissionAt_isAt v.feed length period reducer start stop _)
    (sorted_tickNumbers ..) fun k hk => ?_, ?_⟩
  · have := hmono 0 k ((mem_tickNumbers hperiod k).mp hk).1
    simp only [Int.natCast_zero, Int.zero_mul] at this
    omega
  · unfold endOfRun
    split
    · trivial
    · exact ⟨trivial, trivial⟩

/-- A tick without an element takes no slot; where something is missing, none is taken either. -/
theorem countP_window_le (h : v.Valid) (hwf : v.WellFormed) (hle : start ≤ stop)
    (hlength : 0 < length) (hperiod : 0 < period) :
    (window length period reducer v.feed start stop).toList.countP Emission.isElement ≤
      (v.emittingTicks reducer start stop length period).length := by
  have hend : (endOfRun (endTick start stop period)).countP Emission.isElement = 0 := by
    unfold endOfRun
    split <;> rfl
  rw [toList_window (hwf.inOrder h) hperiod hle, List.countP_append, hend, List.countP_map,
    emittingTicks, ← List.countP_eq_length_filter]
  apply List.countP_mono_left
  intro k _ hk
  by_cases hs : v.CompleteAt reducer start stop length period (start + k * period)
  · obtain ⟨x, hx, -⟩ := emissionAt_of_completeAt h hwf hle hlength hs
    simp only [Function.comp_apply, hx] at hk
    split at hk
    · assumption
    · cases hk
  · obtain ⟨c, hc⟩ := emissionAt_fails h hwf hle hlength hs
    simp only [Function.comp_apply, hc] at hk
    cases hk

/-- A window halts exactly if something is missing, and only with a fault. -/
theorem halts_window (h : v.Valid) (hwf : v.WellFormed) (hle : start ≤ stop)
    (hlength : 0 < length) (hperiod : 0 < period) :
    (v.Complete reducer start stop length period ↔
      ∀ e ∈ (window length period reducer v.feed start stop).toList, e.isHalt = false) ∧
    ∀ x, .halt x ∈ (window length period reducer v.feed start stop).toList →
      ∃ c, x = .fault c := by
  rw [toList_window (hwf.inOrder h) hperiod hle]
  refine ⟨⟨fun hs e he => ?_, fun hnone => ⟨fun k hk => ?_, ?_⟩⟩, fun x hx => ?_⟩
  · rcases List.mem_append.mp he with he | he
    · obtain ⟨k, hk, rfl⟩ := List.mem_map.mp he
      obtain ⟨y, hy, -⟩ := emissionAt_of_completeAt h hwf hle hlength (hs.ticks k hk)
      rw [hy]
      split <;> rfl
    · rw [endOfRun, if_pos hs.endFits] at he
      cases he
  · by_cases hs : v.CompleteAt reducer start stop length period (start + k * period)
    · exact hs
    · obtain ⟨c, hc⟩ := emissionAt_fails h hwf hle hlength hs
      have := hnone _ (List.mem_append_left _ (List.mem_map_of_mem hk))
      rw [hc] at this
      cases this
  · cases hfits : isInt64 (endTick start stop period) with
    | true => rfl
    | false =>
      have := hnone (.halt (.fault (.time (endTick start stop period))))
        (List.mem_append_right _ (by simp [endOfRun, hfits]))
      cases this
  · rcases List.mem_append.mp hx with hx | hx
    · obtain ⟨k, hk, hkx⟩ := List.mem_map.mp hx
      by_cases hs : v.CompleteAt reducer start stop length period (start + k * period)
      · obtain ⟨y, hy, -⟩ := emissionAt_of_completeAt h hwf hle hlength hs
        rw [hy] at hkx
        split at hkx <;> cases hkx
      · obtain ⟨c, hc⟩ := emissionAt_fails h hwf hle hlength hs
        rw [hc] at hkx
        cases hkx
        exact ⟨c, rfl⟩
    · unfold endOfRun at hx
      split at hx
      · cases hx
      · rw [List.mem_singleton] at hx
        cases hx
        exact ⟨_, rfl⟩

end View

/-! ## The run -/

section Run

variable {inputs : List View} {slot : Nat} {v : View} {start stop length period : Int}
  {reducer : Reducer} {kind : Kind} {out : PlainRegion}

theorem run_window_eq (hv : inputs[slot]? = some v) (h : v.Valid) :
    (Query.window (.input slot) length period reducer kind).run inputs start stop out =
      out.play (.ofList (window length period reducer v.feed start stop).toList) := by
  have hemissions : (Query.window (.input slot) length period reducer kind).emissions inputs start
      stop = .ok (window length period reducer v.feed start stop) := by
    simp only [Query.emissions, View.feed_input hv h]
    rfl
  rw [Query.run, hemissions, Sequence.ofList_toList]

/-- Where nothing is missing, there are values that the ticks commit, and they are the results of
the reducer. -/
theorem View.exists_values (h : v.Valid) (hwf : v.WellFormed) (hle : start ≤ stop)
    (hlength : 0 < length) (hs : v.Complete reducer start stop length period) :
    ∃ value : Nat → Value,
      (∀ k ∈ tickNumbers start stop period,
        emissionAt v.feed length period reducer start stop (start + k * period) =
          if v.emitsAt reducer start stop length (start + k * period)
          then .upTo (start + k * period) (value k) else .pass (start + k * period)) ∧
      ∀ k ∈ v.emittingTicks reducer start stop length period, ∀ x,
        reducer.integer? (valuesOf (windowAt v.elements start stop length
          (start + k * period))) = some x → value k = x := by
  have hvalues : ∀ k : Nat, ∃ x, k ∈ tickNumbers start stop period →
      emissionAt v.feed length period reducer start stop (start + k * period) =
        (if v.emitsAt reducer start stop length (start + k * period)
          then .upTo (start + k * period) x else .pass (start + k * period)) ∧
      ∀ y, reducer.integer? (valuesOf (windowAt v.elements start stop length
        (start + k * period))) = some y →
          v.emitsAt reducer start stop length (start + k * period) = true → x = y := by
    intro k
    by_cases hk : k ∈ tickNumbers start stop period
    · obtain ⟨x, hx⟩ := View.emissionAt_of_completeAt h hwf hle hlength (hs.ticks k hk)
      exact ⟨x, fun _ => hx⟩
    · exact ⟨.int 0, fun hk' => absurd hk' hk⟩
  -- No function of the model goes from ticks to values, so one is chosen.
  obtain ⟨value, hvalue⟩ := Classical.axiomOfChoice hvalues
  refine ⟨value, fun k hk => (hvalue k hk).1, fun k hk x hx => ?_⟩
  obtain ⟨hmem, hemits⟩ := List.mem_filter.mp hk
  exact (hvalue k hmem).2 x hx hemits

/-- A window over an input has exactly the ticks `start + k * period`, `k ≥ 1`, that are not after
`stop`.

If nothing is missing at them, the run appends one element per tick where the reducer emits. It
begins at the tick before (the first one where the output stopped) and has the reducer's result as
its value. The output stops at the last tick.

If something is missing, the run ends with a fault. -/
theorem run_window (hv : inputs[slot]? = some v) (hreach : v.Reachable) (hwf : v.WellFormed)
    (hlength : 0 < length) (hperiod : 0 < period) (hle : start ≤ stop) (hout : out.Reachable)
    (hstop : out.stop ≤ start)
    (room : out.count + (v.emittingTicks reducer start stop length period).length ≤
      out.capacity) :
    (∀ k, k ∈ tickNumbers start stop period ↔ 1 ≤ k ∧ start + k * period ≤ stop) ∧
    (v.Complete reducer start stop length period →
      ∃ out' : PlainRegion, ∃ value : Nat → Value,
        (Query.window (.input slot) length period reducer kind).run inputs start stop out =
          (out', .ok ()) ∧
        out.Extends out' ((v.emittingTicks reducer start stop length period).map fun k : Nat =>
          ⟨.between (if k = 1 then out.stop else start + (k - 1 : Nat) * period)
            (start + k * period), some (out.kind.convert (value k))⟩) ∧
        (∀ k ∈ v.emittingTicks reducer start stop length period, ∀ x,
          reducer.integer? (valuesOf (windowAt v.elements start stop length
            (start + k * period))) = some x → value k = x) ∧
        out'.stop = ((tickNumbers start stop period).getLast?.map fun k : Nat =>
          start + k * period).getD out.stop) ∧
    (¬ v.Complete reducer start stop length period → ∃ out' c,
      (Query.window (.input slot) length period reducer kind).run inputs start stop out =
        (out', .error (.fault c))) := by
  have h := hreach.valid
  have hascending := @View.ascending_window v reducer start stop length period h hwf hle hperiod
    _ hstop
  have hcount := @View.countP_window_le v reducer start stop length period h hwf hle hlength hperiod
  obtain ⟨hhalts, hfault⟩ := @View.halts_window v reducer start stop length period h hwf hle hlength
    hperiod
  rw [run_window_eq hv h]
  refine ⟨mem_tickNumbers hperiod, fun hs => ?_, fun hs => ?_⟩
  · obtain ⟨value, hemission, hvalue⟩ := View.exists_values h hwf hle hlength hs
    have hnone := hhalts.mp hs
    obtain ⟨out', hplay, hext, hend⟩ := PlainRegion.play_ascending hout.valid hascending
      (by omega) hnone
    have hlist := @toList_window v.feed start stop length period reducer (hwf.inOrder h) hperiod hle
    rw [endOfRun, if_pos hs.endFits, List.append_nil] at hlist
    refine ⟨out', value, hplay, ?_, hvalue, ?_⟩
    -- The first tick goes back to where the output stopped, each later one to the tick before.
    · have hplaced := @placed_ticks (fun k => start + k * period) _ out.stop
        (fun k => v.emitsAt reducer start stop length (start + k * period)) value out.kind 1
        ((stop - start) / period).toNat hemission
      rw [hlist] at hext
      change placed out.kind out.stop ((tickNumbers start stop period).map _) = _ at hplaced
      rw [hplaced] at hext
      exact hext
    · rw [hend, hlist]
      refine stopAfterAll_ticks fun k hk => ⟨emissionAt_isAt .., hnone _ ?_⟩
      rw [hlist]
      exact List.mem_map_of_mem hk
  · obtain ⟨out', ended, hplay, -, -, -, hended⟩ :=
      PlainRegion.play_ascending_valid hout.valid hascending (by omega)
    -- Something is missing, so some emission halts. Whichever the run meets first, it is a fault.
    rcases hended with ⟨-, hnone⟩ | ⟨x, hx, hend⟩
    · exact absurd (hhalts.mpr hnone) hs
    · obtain ⟨c, rfl⟩ := hfault x hx
      exact ⟨out', c, by rw [hplay, hend]⟩

/-- Two elements, each half as large as the least number past 64 bits. -/
def overflowingBlock : BlockedRegion := .pair 4611686018427387904 0

theorem overflowingBlock_incomplete : ¬ (View.blocked overflowingBlock).Complete .sum 0 2 2 2 := by
  intro h
  have hblock := (h.ticks 1 (by decide)).blockSum overflowingBlock rfl rfl 0 (by decide)
    (fun i hi => by
      have : i = 0 ∨ i = 1 := by
        rw [BlockedRegion.indicesOf, List.mem_range'_1] at hi
        change 0 ≤ i ∧ i < 2 at hi
        omega
      rcases this with rfl | rfl
      · exact ⟨_, rfl, by decide⟩
      · exact ⟨_, rfl, by decide⟩)
  have hnone : overflowingBlock.blockSum? 0 = none := by decide
  rw [hnone] at hblock
  cases hblock

/-- Sums of the last two elements, one tick per element; and a sum of the block that has none. -/
theorem run_window_sums :
    (∃ out', (Query.window (.input 0) 2 1 .sum .i64).run
        [.plain (((PlainRegion.allocate .i64 2 0).record ⟨0, 1⟩ (.int 5)).record ⟨1, 1⟩ (.int 7))]
        0 2 (.allocate .i64 2 0) = (out', .ok ()) ∧
      out'.elements = [⟨⟨0, 1⟩, some (.int 5)⟩, ⟨⟨1, 1⟩, some (.int 12)⟩] ∧ out'.stop = 2) ∧
    ∃ out' c, (Query.window (.input 0) 2 2 .sum .i64).run [.blocked overflowingBlock] 0 2
      (.allocate .i64 2 0) = (out', .error (.fault c)) := by
  have hout : (PlainRegion.allocate .i64 2 0).Reachable :=
    @PlainRegion.Reachable.allocate .i64 2 0 _ rfl
  constructor
  · let input := ((PlainRegion.allocate .i64 2 0).record ⟨0, 1⟩ (.int 5)).record ⟨1, 1⟩ (.int 7)
    have hinput : input.Reachable := .record (.record hout (by decide) _) (by decide) _
    obtain ⟨-, hrun, -⟩ := @run_window [.plain input] 0 (.plain input) 0 2 2 1 .sum .i64
      (.allocate .i64 2 0) rfl hinput hinput.valid.wellFormed (by decide) (by decide) (by decide)
      hout (by decide) (by decide)
    have hcomplete : (View.plain input).Complete .sum 0 2 2 1 := by
      refine ⟨fun k hk => ?_, by decide⟩
      have : k = 1 ∨ k = 2 := by
        have := (mem_tickNumbers (by decide) k).mp hk
        omega
      rcases this with rfl | rfl
      · exact View.NoOverflow.completeAt trivial hinput.valid hinput.valid.wellFormed
          (by decide) (by decide) (by decide) (by decide)
      · exact View.NoOverflow.completeAt trivial hinput.valid hinput.valid.wellFormed
          (by decide) (by decide) (by decide) (by decide)
    obtain ⟨out', value, hplay, hext, hvalue, hstop⟩ := hrun hcomplete
    refine ⟨out', hplay, ?_, hstop⟩
    have h1 := hvalue 1 (by decide) (.int 5) (by decide)
    have h2 := hvalue 2 (by decide) (.int 12) (by decide)
    have hticks : (View.plain input).emittingTicks .sum 0 2 2 1 = [1, 2] := by decide
    rw [hext.elements, hticks, List.map_cons, List.map_cons, h1, h2]
    rfl
  · exact (@run_window [.blocked overflowingBlock] 0 (.blocked overflowingBlock) 0 2 2 2 .sum .i64
      (.allocate .i64 2 0) rfl (BlockedRegion.reachable_pair _ _) (View.wellFormed_pair _ _)
      (by decide) (by decide) (by decide) hout (by decide) (by decide)).2.2
      overflowingBlock_incomplete

end Run

end StreamGauge
