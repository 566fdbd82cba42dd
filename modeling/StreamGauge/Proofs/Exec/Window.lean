import StreamGauge.Proofs.Exec.Emission
import StreamGauge.Proofs.Exec.Fold

/-!
# Windows

* The two cursors of a window run find at each tick what a search from the first element finds
  (`windowBounds_next`), and between them lie exactly the elements that stopped in the last
  `length` (`extract_eq_windowAt`).
* A run has one emission for each tick, in order, and checks the tick after them
  (`toList_window`).
-/

namespace StreamGauge

/-! ## Cursors -/

section Cursor

variable {es : Array Element} {limit : Nat} {time : Int} {i : Nat}

theorem skipStopped_le (es : Array Element) (time : Int) (h : i ≤ limit) :
    i ≤ skipStopped es limit time i ∧ skipStopped es limit time i ≤ limit := by
  fun_induction skipStopped es limit time i with
  | case1 i hlt e he hstop ih =>
    have := ih hlt
    omega
  | case2 i hlt e he hstop => omega
  | case3 i hlt he => omega
  | case4 i hlt => omega

/-- Every element that a cursor passes has stopped. -/
theorem skipStopped_passed {j : Nat} (hj : j < es.size) (hij : i ≤ j)
    (hjm : j < skipStopped es limit time i) : es[j].span.stop ≤ time := by
  fun_induction skipStopped es limit time i with
  | case1 i hlt e he hstop ih =>
    rcases Nat.eq_or_lt_of_le hij with rfl | hgt
    · obtain ⟨hi, rfl⟩ := Array.getElem?_eq_some_iff.mp he
      exact hstop
    · exact ih hgt hjm
  | case2 i hlt e he hstop => omega
  | case3 i hlt he => omega
  | case4 i hlt => omega

/-- The element that a cursor stops at has not stopped. -/
theorem skipStopped_stops {m : Nat} (hm : skipStopped es limit time i = m) (hlt : m < limit)
    (hsize : m < es.size) : time < es[m].span.stop := by
  fun_induction skipStopped es limit time i with
  | case1 i hi e he hstop ih => exact ih hm
  | case2 i hi e he hstop =>
    obtain ⟨hi', rfl⟩ := Array.getElem?_eq_some_iff.mp he
    cases hm
    omega
  | case3 i hi he =>
    rw [Array.getElem?_eq_none_iff] at he
    omega
  | case4 i hi => omega

/-- A cursor that has only passed stopped elements goes where a search from the start goes. -/
theorem skipStopped_resume (hlimit : limit ≤ es.size) {m : Nat} (him : i ≤ m) (hm : m ≤ limit)
    (hpassed : ∀ j (hj : j < es.size), i ≤ j → j < m → es[j].span.stop ≤ time) :
    skipStopped es limit time m = skipStopped es limit time i := by
  induction hd : m - i generalizing i with
  | zero => rw [show m = i by omega]
  | succ d ih =>
    have hlt : i < es.size := by omega
    conv => rhs; rw [skipStopped, if_pos (by omega), Array.getElem?_eq_getElem hlt]
    simp only
    rw [if_pos (hpassed i hlt (Nat.le_refl _) (by omega))]
    exact ih (by omega) (fun j hj hij hjm => hpassed j hj (by omega) hjm) (by omega)

end Cursor

/-! ## Ticks -/

/-- The numbers of the ticks of a run, the first one being 1. -/
def tickNumbers (start stop period : Int) : List Nat :=
  List.range' 1 ((stop - start) / period).toNat

theorem mem_tickNumbers {start stop period : Int} (hp : 0 < period) (k : Nat) :
    k ∈ tickNumbers start stop period ↔ 1 ≤ k ∧ start + k * period ≤ stop := by
  unfold tickNumbers
  rw [List.mem_range'_1]
  have hdiv := Int.le_ediv_iff_mul_le (a := (k : Int)) (b := stop - start) hp
  constructor
  · rintro ⟨h1, h2⟩
    have := hdiv.mp (by omega)
    omega
  · rintro ⟨h1, h2⟩
    have := hdiv.mpr (by omega)
    omega

theorem sorted_tickNumbers (start stop period : Int) :
    (tickNumbers start stop period).Pairwise (· < ·) := List.pairwise_lt_range'

/-- The indices between which the elements of the window at a tick lie, each found from the first
element of the run on. -/
def windowBounds (es : Array Element) (start stop length tick : Int) : Nat × Nat :=
  let first := startIndex es start
  let hi := skipStopped es (startIndex es stop) tick first
  (skipStopped es hi (tick - length) first, hi)

/-- The emission at a tick of a run over `[start, stop)`. An element can have left the window if it
was in it at the tick before or has stopped since. -/
def emissionAt (f : Feed) (length period : Int) (reducer : Reducer) (start stop tick : Int) :
    Emission :=
  let (lo, hi) := windowBounds f.elements start stop length tick
  let before := (windowBounds f.elements start stop length (tick - period)).1
  .needing (if before < hi then [tick, tick - length] else [tick])
    (windowEmission f reducer tick lo hi)

/-- The tick that ends a run is the first one after `stop`. -/
def endTick (start stop period : Int) : Int :=
  start + (((stop - start) / period).toNat + 1 : Nat) * period

theorem endTick_spec {start stop period : Int} (hp : 0 < period) (hle : start ≤ stop) :
    stop < endTick start stop period ∧ endTick start stop period - period ≤ stop := by
  have hnonneg : 0 ≤ (stop - start) / period := Int.ediv_nonneg (by omega) (by omega)
  have hdiv := Int.mul_ediv_add_emod (stop - start) period
  have hmod := Int.emod_nonneg (stop - start) (show period ≠ 0 by omega)
  have hlt := Int.emod_lt_of_pos (stop - start) hp
  unfold endTick
  rw [Int.natCast_add, Int.toNat_of_nonneg hnonneg, Int.add_mul, Int.mul_comm]
  omega

/-- The check of a tick that ends a run. -/
def endOfRun (tick : Int) : List Emission :=
  if isInt64 tick then [] else [.halt (.fault (.time tick))]

section

variable {f : Feed} {start stop length period : Int} {reducer : Reducer}

/-- From the bounds at one tick the cursors go to those at the next one: what they have passed has
stopped, then and now. -/
theorem windowBounds_next {es : Array Element} (hperiod : 0 < period)
    (h : startIndex es start ≤ startIndex es stop) {tick : Int} {lo hi : Nat}
    (hbounds : windowBounds es start stop length (tick - period) = (lo, hi)) :
    let next := skipStopped es (startIndex es stop) tick hi
    windowBounds es start stop length tick = (skipStopped es next (tick - length) lo, next) := by
  obtain ⟨hlo, hhi⟩ := Prod.mk.inj hbounds
  obtain ⟨hge, hle⟩ := skipStopped_le es (tick - period) h
  obtain ⟨hgelo, hlelo⟩ := skipStopped_le es (tick - period - length) hge
  have hnext : skipStopped es (startIndex es stop) tick hi =
      skipStopped es (startIndex es stop) tick (startIndex es start) := by
    rw [← hhi]
    refine skipStopped_resume (startIndex_le _ _) hge hle fun j hj hfirst hlt => ?_
    have := skipStopped_passed hj hfirst hlt
    omega
  have hgrow := (skipStopped_le es tick (show hi ≤ startIndex es stop by omega)).1
  have hle' := (skipStopped_le es tick h).2
  rw [hnext] at hgrow
  have hlo' : skipStopped es (skipStopped es (startIndex es stop) tick (startIndex es start))
      (tick - length) lo = skipStopped es
        (skipStopped es (startIndex es stop) tick (startIndex es start)) (tick - length)
          (startIndex es start) := by
    rw [← hlo]
    refine skipStopped_resume (Nat.le_trans hle' (startIndex_le _ _)) hgelo (by omega)
      fun j hj hfirst hlt => ?_
    have := skipStopped_passed hj hfirst hlt
    omega
  simp only [hnext, hlo']
  rfl

/-- The cursors find at each tick what a search from the first element finds. -/
theorem toList_windowFrom (hperiod : 0 < period) (h : startIndex f.elements start ≤
      startIndex f.elements stop) (count : Nat) {tick : Int} {lo hi : Nat}
    (hbounds : windowBounds f.elements start stop length (tick - period) = (lo, hi)) :
    (windowFrom f length period reducer (startIndex f.elements stop) count tick lo hi).toList =
      ((List.range count).map fun k : Nat =>
        emissionAt f length period reducer start stop (tick + k * period)) ++
      endOfRun (tick + count * period) := by
  induction count generalizing tick lo hi with
  | zero =>
    rw [windowFrom]
    simp only [List.range_zero, List.map_nil, List.nil_append, Int.natCast_zero, Int.zero_mul,
      Int.add_zero, endOfRun]
    split <;> rfl
  | succ count ih =>
    have hhere := windowBounds_next hperiod h hbounds
    rw [windowFrom]
    generalize skipStopped f.elements (startIndex f.elements stop) tick hi = next at hhere ⊢
    have hfirst : emissionAt f length period reducer start stop tick =
        .needing (if lo < next then [tick, tick - length] else [tick])
          (windowEmission f reducer tick
            (skipStopped f.elements next (tick - length) lo) next) := by
      simp only [emissionAt, hhere, hbounds]
    have hticks : ∀ k : Nat, tick + period + k * period = tick + (k + 1 : Nat) * period := by
      intro k
      rw [Int.natCast_add, Int.add_mul]
      omega
    simp only [Sequence.toList]
    rw [@ih (tick + period) _ _ (by rw [Int.add_sub_cancel]; exact hhere), List.range_succ_eq_map,
      List.map_cons, List.map_map, List.cons_append, hticks]
    congr 1
    · simp [hfirst]
    · congr 1
      apply List.map_congr_left
      intro k _
      rw [hticks]
      rfl

/-- The first element of a run has not stopped at its start. -/
theorem windowBounds_start (hf : InOrder f.elements.toList) (length : Int) :
    windowBounds f.elements start stop length start =
      (startIndex f.elements start, startIndex f.elements start) := by
  have hstay : ∀ limit, skipStopped f.elements limit start (startIndex f.elements start) =
      startIndex f.elements start := by
    intro limit
    rw [skipStopped]
    split
    · split
      case h_1 e he =>
        obtain ⟨hi, rfl⟩ := Array.getElem?_eq_some_iff.mp he
        have hstart := startIndex_spec hf.starts_le start hi
        have hstop := hf.start_lt_stop (Array.getElem_mem_toList hi)
        rw [if_neg (by omega)]
      case h_2 => rfl
    · rfl
  rw [windowBounds, hstay, skipStopped, if_neg (Nat.lt_irrefl _)]

/-- One emission per tick, in order, and the check of the tick that ends the run. -/
theorem toList_window (hf : InOrder f.elements.toList) (hperiod : 0 < period) (h : start ≤ stop) :
    (window length period reducer f start stop).toList =
      ((tickNumbers start stop period).map fun k : Nat =>
        emissionAt f length period reducer start stop (start + k * period)) ++
      endOfRun (endTick start stop period) := by
  have hfirst := startIndex_mono hf.starts_le h
  change (windowFrom f length period reducer (startIndex f.elements stop)
    (tickCount start stop period) (start + period) (startIndex f.elements start)
    (startIndex f.elements start)).toList = _
  have hticks : ∀ k : Nat, start + period + k * period = start + (k + 1 : Nat) * period := by
    intro k
    rw [Int.natCast_add, Int.add_mul]
    omega
  rw [toList_windowFrom hperiod hfirst _
    (by rw [Int.add_sub_cancel]; exact windowBounds_start hf length), tickCount, if_pos hperiod,
    tickNumbers, List.range'_eq_map_range, List.map_map, hticks]
  congr 1
  apply List.map_congr_left
  intro k _
  rw [Function.comp_apply, hticks, Nat.add_comm]

end

/-! ## The elements of a window -/

/-- Whether an element lies in the window at a tick of a run over `[start, stop)`: it starts in
the run and stops in the last `length` up to the tick. -/
def Element.inWindow (start stop length tick : Int) (e : Element) : Bool :=
  e.startsIn start stop && decide (tick - length < e.span.stop) && decide (e.span.stop ≤ tick)

theorem Element.inWindow_iff {start stop length tick : Int} {e : Element} :
    e.inWindow start stop length tick = true ↔ (start ≤ e.span.start ∧ e.span.start < stop) ∧
      tick - length < e.span.stop ∧ e.span.stop ≤ tick := by
  simp [inWindow, startsIn, and_assoc]

/-- The elements of the window at a tick. -/
def windowAt (es : List Element) (start stop length tick : Int) : List Element :=
  es.filter (Element.inWindow start stop length tick)

section

variable {es : Array Element} {start stop length tick : Int}

theorem stop_le_of_le (h : InOrder es.toList) {i j : Nat} (hj : j < es.size) (hij : i ≤ j) :
    es[i].span.stop ≤ es[j].span.stop := by
  rcases Nat.eq_or_lt_of_le hij with rfl | hlt
  · exact Int.le_refl _
  · exact Int.le_of_lt (List.pairwise_iff_getElem.mp h.stops i j (by simp; omega)
      (by simpa using hj) hlt)

theorem windowBounds_le (h : InOrder es.toList) (hle : start ≤ stop) (length tick : Int) :
    (windowBounds es start stop length tick).1 ≤ (windowBounds es start stop length tick).2 ∧
      (windowBounds es start stop length tick).2 ≤ es.size := by
  obtain ⟨hge, hle'⟩ := skipStopped_le es tick (startIndex_mono h.starts_le hle)
  exact ⟨(skipStopped_le es (tick - length) hge).2, Nat.le_trans hle' (startIndex_le es stop)⟩

/-- A cursor passes exactly the elements that have stopped. -/
theorem lt_skipStopped_iff (h : InOrder es.toList) {limit first i : Nat} (hlimit : limit ≤ es.size)
    (hfirst : first ≤ i) (hi : i < limit) (time : Int) :
    i < skipStopped es limit time first ↔ es[i].span.stop ≤ time := by
  constructor
  · exact skipStopped_passed (by omega) hfirst
  · intro hstopped
    rcases Nat.lt_or_ge i (skipStopped es limit time first) with hlt | hge
    · exact hlt
    · have hnot := skipStopped_stops rfl (Nat.lt_of_le_of_lt hge hi) (by omega)
      have hmore := stop_le_of_le h (by omega) hge
      omega

/-- The second bound separates the elements of the run that have stopped from the others. -/
theorem lt_windowBounds_iff (h : InOrder es.toList) (hle : start ≤ stop) {i : Nat}
    (hi : i < es.size) (length : Int) :
    startIndex es start ≤ i ∧ i < (windowBounds es start stop length tick).2 ↔
      (start ≤ es[i].span.start ∧ es[i].span.start < stop) ∧ es[i].span.stop ≤ tick := by
  have hlast := startIndex_le es stop
  have hstart := startIndex_spec h.starts_le start hi
  have hstop := startIndex_spec h.starts_le stop hi
  have hbound := (skipStopped_le es tick (startIndex_mono h.starts_le hle)).2
  constructor
  · rintro ⟨hfirst, hlt⟩
    have hi' : i < startIndex es stop := Nat.lt_of_lt_of_le hlt hbound
    have := (lt_skipStopped_iff h hlast hfirst hi' tick).mp hlt
    omega
  · rintro ⟨hin, hstopped⟩
    have hfirst : startIndex es start ≤ i := by omega
    exact ⟨hfirst, (lt_skipStopped_iff h hlast hfirst (by omega) tick).mpr hstopped⟩

/-- Between the bounds lie exactly the elements of the window. -/
theorem windowBounds_spec (h : InOrder es.toList) (hle : start ≤ stop) {i : Nat}
    (hi : i < es.size) :
    (windowBounds es start stop length tick).1 ≤ i ∧
        i < (windowBounds es start stop length tick).2 ↔
      es[i].inWindow start stop length tick = true := by
  have hstopped := @lt_windowBounds_iff es start stop tick h hle i hi length
  have hsize := (windowBounds_le h hle length tick).2
  have hge := (skipStopped_le es (tick - length)
    (skipStopped_le es tick (startIndex_mono h.starts_le hle)).1).1
  change startIndex es start ≤ (windowBounds es start stop length tick).1 at hge
  have hleft : startIndex es start ≤ i → i < (windowBounds es start stop length tick).2 →
      (i < (windowBounds es start stop length tick).1 ↔ es[i].span.stop ≤ tick - length) :=
    fun hfirst hlt => lt_skipStopped_iff h hsize hfirst hlt (tick - length)
  rw [Element.inWindow_iff]
  constructor
  · rintro ⟨hlo, hhi⟩
    have := hleft (by omega) hhi
    have := hstopped.mp ⟨by omega, hhi⟩
    omega
  · rintro ⟨hin, hgt, hle'⟩
    obtain ⟨hfirst, hhi⟩ := hstopped.mpr ⟨hin, hle'⟩
    have := hleft hfirst hhi
    omega

/-- Between the first bound at the tick before and the second one lie the elements that have
stopped since then and those that were in the window before. -/
theorem windowBounds_before (h : InOrder es.toList) (hle : start ≤ stop) {period : Int}
    (hlength : 0 ≤ length) {i : Nat} (hi : i < es.size) :
    (windowBounds es start stop length (tick - period)).1 ≤ i ∧
        i < (windowBounds es start stop length tick).2 ↔
      es[i].inWindow start stop (length + period) tick = true := by
  have hstopped := @lt_windowBounds_iff es start stop tick h hle i hi length
  have hbefore := @lt_windowBounds_iff es start stop (tick - period) h hle i hi length
  have hspec := @windowBounds_spec es start stop length (tick - period) h hle i hi
  have hbounds := (windowBounds_le h hle length (tick - period)).1
  have hge := (skipStopped_le es (tick - period - length)
    (skipStopped_le es (tick - period) (startIndex_mono h.starts_le hle)).1).1
  change startIndex es start ≤ (windowBounds es start stop length (tick - period)).1 at hge
  rw [Element.inWindow_iff] at hspec ⊢
  constructor
  · rintro ⟨hlo, hhi⟩
    have := hstopped.mp ⟨by omega, hhi⟩
    omega
  · rintro ⟨hin, hgt, hle'⟩
    obtain ⟨hfirst, hhi⟩ := hstopped.mpr ⟨hin, hle'⟩
    omega

theorem extract_eq_windowAt (h : InOrder es.toList) (hle : start ≤ stop) (length tick : Int) :
    (es.extract (windowBounds es start stop length tick).1
      (windowBounds es start stop length tick).2).toList =
        windowAt es.toList start stop length tick := by
  refine extract_eq_filter (windowBounds_le h hle _ _).1 (fun i hi hlt => ?_)
    (fun i hi hge hlt => ?_) fun i hi hge => ?_
  · rw [← Bool.not_eq_true, ← windowBounds_spec h hle hi]
    omega
  · rw [← windowBounds_spec h hle hi]
    exact ⟨hge, hlt⟩
  · rw [← Bool.not_eq_true, ← windowBounds_spec h hle hi]
    omega

end

end StreamGauge
