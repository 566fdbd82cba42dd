import StreamGauge.Proofs.Bench.Output
import StreamGauge.Proofs.Bench.Overrun

/-!
# Variances in two passes

The first pass joins each element with the mean of its window, and the second one averages the
squared deviations over windows of the same length. A join goes by time: it pairs an element with
every mean that it shares time with, and what it emits lasts as long as both
(`Workload.PlainInput.gives_deviations`).

`Trial.variance_squares_iff`: each element meets the mean of its own window, and no other, if and
only if windows last a multiple of what elements do, or no element stops in a window at all. Then a
window of the second pass has one squared deviation for each element that a reduction in one pass
takes.
-/

namespace StreamGauge

namespace Workload

/-- The square of how far the left side of a join is from the right one. -/
def squaredDeviation : Expr := .binary .mul deviation deviation

/-- The first pass. -/
def deviations (w : Workload) : Query :=
  .join (.input 0) (.query (Query.tumbling (.input 0) w.window .average .f64)) squaredDeviation
    none .f64

/-- The last tick of the windows. -/
def lastTick (w : Workload) : Int := w.endTime / w.window * w.window

/-- The mean of window `k`. -/
def meanAt (w : Workload) (v : View) (k : Nat) : Element :=
  ⟨tickSpan 0 w.window k,
    (Reducer.average.result (windowAt v.elements 0 w.endTime w.window (0 + k * w.window))).map
      Kind.f64.convert⟩

/-- The means of the windows with elements. -/
def means (w : Workload) (v : View) : List Element :=
  Reducer.average.windows v.elements 0 w.endTime w.window w.window .f64

/-- The squared deviation of an element from a mean. -/
def squareOf (a mean : Element) : Option Value :=
  (squaredDeviation.onPair (a, mean)).map Kind.f64.convert

/-- The squared deviations of the elements from all means that they share time with. -/
def squares (w : Workload) (v : View) : List Element :=
  (overlaps v.elements (w.means v)).map fun p => ⟨overlap p.1 p.2, squareOf p.1 p.2⟩

/-! ## Ticks -/

section Ticks

variable {w : Workload} (h : w.Admitted)

include h

theorem Admitted.mem_ticks {k : Nat} :
    k ∈ tickNumbers 0 w.endTime w.window ↔ 1 ≤ k ∧ k * w.window ≤ w.lastTick := by
  have hwindow := h.window_pos
  rw [mem_tickNumbers hwindow, Int.zero_add, lastTick, ← Int.le_ediv_iff_mul_le hwindow]
  exact and_congr_right fun _ => (Int.mul_le_mul_iff_of_pos_right hwindow).symm

theorem Admitted.lastTick_le : w.lastTick ≤ w.endTime :=
  Int.ediv_mul_le _ (Int.ne_of_gt h.window_pos)

/-- The mean of a window lasts from the tick before the window's own to its own. -/
theorem Admitted.times_meanAt (v : View) {k : Nat} (hk : k ∈ tickNumbers 0 w.endTime w.window) :
    (w.meanAt v k).span.start = k * w.window - w.window ∧
      (w.meanAt v k).span.stop = k * w.window := by
  have hone := (h.mem_ticks.mp hk).1
  refine ⟨?_, ?_⟩
  · change 0 + ((k - 1 : Nat) : Int) * w.window = _
    rw [Int.natCast_sub hone, Int.sub_mul, Int.natCast_one, Int.one_mul, Int.zero_add]
  · rw [meanAt, tickSpan, Span.stop_between, Int.zero_add]

/-- Every time up to the last tick is in a window. -/
theorem Admitted.exists_tick {t : Int} (hpos : 0 < t) (hlast : t ≤ w.lastTick) :
    ∃ k ∈ tickNumbers 0 w.endTime w.window, k * w.window - w.window < t ∧ t ≤ k * w.window := by
  have hwindow := h.window_pos
  obtain ⟨q, hq⟩ : ∃ q : Nat, (q : Int) = (t - 1) / w.window :=
    ⟨((t - 1) / w.window).toNat,
      Int.toNat_of_nonneg (Int.ediv_nonneg (by omega) (Int.le_of_lt hwindow))⟩
  have hle : (q : Int) * w.window ≤ t - 1 := hq ▸ Int.ediv_mul_le _ (Int.ne_of_gt hwindow)
  have hlt : t - 1 < ((q : Int) + 1) * w.window := hq ▸ Int.lt_ediv_add_one_mul_self _ hwindow
  have hnext : ((q + 1 : Nat) : Int) * w.window = q * w.window + w.window := by
    rw [Int.natCast_add, Int.natCast_one, Int.add_mul, Int.one_mul]
  have hbefore : (q : Int) < w.endTime / w.window := by
    refine Int.lt_of_mul_lt_mul_right ?_ (Int.le_of_lt hwindow)
    change (q : Int) * w.window < w.lastTick
    omega
  rw [Int.add_mul, Int.one_mul] at hlt
  refine ⟨q + 1, h.mem_ticks.mpr ⟨by omega, ?_⟩, by omega, by omega⟩
  refine Int.mul_le_mul_of_nonneg_right ?_ (Int.le_of_lt hwindow)
  omega

end Ticks

namespace PlainInput

variable [RandomSource] {w : Workload} {v : View} (hv : w.PlainInput v) (h : w.Admitted)

include hv

/-! ## Means -/

theorem mem_means {b : Element} :
    b ∈ w.means v ↔ ∃ k ∈ tickNumbers 0 w.endTime w.window,
      windowAt v.elements 0 w.endTime w.window (0 + k * w.window) ≠ [] ∧ b = w.meanAt v k := by
  have hnone (k : Nat) := @Reducer.result_eq_none_iff .average
    (windowAt v.elements 0 w.endTime w.window (0 + k * w.window))
    fun e he => hv.steady.value?_isSome e (List.mem_filter.mp he).1
  rw [means, Reducer.mem_windows]
  constructor
  · rintro ⟨k, hk, x, hx, rfl⟩
    refine ⟨k, hk, fun hempty => ?_, ?_⟩
    · rw [(hnone k).mpr ⟨hempty, rfl⟩] at hx
      cases hx
    · rw [meanAt, hx]
      rfl
  · rintro ⟨k, hk, hwindow, rfl⟩
    obtain ⟨x, hx⟩ := Option.ne_none_iff_exists'.mp fun hempty => hwindow ((hnone k).mp hempty).1
    refine ⟨k, hk, x, hx, ?_⟩
    rw [meanAt, hx]
    rfl

include h

/-- An element shares time with the window that it stops in. -/
theorem overlap_window {a : Element} {k : Nat} (hk : k ∈ tickNumbers 0 w.endTime w.window)
    (ha : a ∈ windowAt v.elements 0 w.endTime w.window (0 + k * w.window)) :
    0 < (overlap a (w.meanAt v k)).length := by
  obtain ⟨ha, hlo, hhi⟩ := (hv.mem_windowAt h).mp ha
  obtain ⟨-, -, hlasts⟩ := hv.times h ha
  have hperiod := h.period_pos
  have hwindow := h.window_pos
  obtain ⟨hstart, hstop⟩ := h.times_meanAt v hk
  rw [length_overlap_pos]
  omega

/-- An element that stops by the last tick stops in a window. -/
theorem exists_window {a : Element} (ha : a ∈ v.elements) (hlast : a.span.stop ≤ w.lastTick) :
    ∃ k ∈ tickNumbers 0 w.endTime w.window,
      a ∈ windowAt v.elements 0 w.endTime w.window (0 + k * w.window) := by
  obtain ⟨hstart, -, hlasts⟩ := hv.times h ha
  have hperiod := h.period_pos
  obtain ⟨k, hk, hlo, hhi⟩ := h.exists_tick (t := a.span.stop) (by omega) hlast
  exact ⟨k, hk, (hv.mem_windowAt h).mpr ⟨ha, by omega, by omega⟩⟩

/-! ## Windows on the grid of the elements -/

/-- Ticks that are multiples of a period do not cut an element. -/
theorem covers_of_dvd (hdvd : w.period.toInt ∣ w.window) {a : Element} (ha : a ∈ v.elements)
    {k : Nat} (hk : k ∈ tickNumbers 0 w.endTime w.window)
    (hpos : 0 < (overlap a (w.meanAt v k)).length) :
    (w.meanAt v k).covers a.span.start a.span.stop = true := by
  obtain ⟨-, hstart, hlasts⟩ := hv.times h ha
  have htick : w.period.toInt ∣ (k : Int) * w.window := Int.dvd_mul_of_dvd_right hdvd
  obtain ⟨hbegin, hend⟩ := h.times_meanAt v hk
  rw [length_overlap_pos] at hpos
  rw [Element.covers_iff]
  have hleft : w.period.toInt ≤ a.span.stop - (k * w.window - w.window) :=
    Int.le_of_dvd (by omega) (Int.dvd_sub (hlasts ▸ Int.dvd_add hstart (Int.dvd_refl _))
      (Int.dvd_sub htick hdvd))
  have hright : w.period.toInt ≤ k * w.window - a.span.start :=
    Int.le_of_dvd (by omega) (Int.dvd_sub htick hstart)
  omega

section Aligned

variable (haligned : w.period.toInt ∣ w.window ∨ w.lastTick < w.period.toInt)

include haligned

/-- A mean covers every element that it shares time with. -/
theorem covers_of_aligned {a b : Element} (ha : a ∈ v.elements) (hb : b ∈ w.means v)
    (hpos : 0 < (overlap a b).length) : b.covers a.span.start a.span.stop = true := by
  obtain ⟨k, hk, hwindow, rfl⟩ := hv.mem_means.mp hb
  rcases haligned with hdvd | hlast
  · exact hv.covers_of_dvd h hdvd ha hk hpos
  · -- No element stops by the last tick, so there is no mean.
    obtain ⟨e, he⟩ := List.exists_mem_of_ne_nil _ hwindow
    obtain ⟨he, -, hstop⟩ := (hv.mem_windowAt h).mp he
    obtain ⟨hstart, -, hlasts⟩ := hv.times h he
    have htick := (h.mem_ticks.mp hk).2
    omega

/-- The elements with a mean are those that stop by the last tick. -/
theorem covered_iff {a : Element} (ha : a ∈ v.elements) :
    (w.means v).any (·.covers a.span.start a.span.stop) = true ↔ a.span.stop ≤ w.lastTick := by
  rw [List.any_eq_true]
  constructor
  · rintro ⟨b, hb, hcovers⟩
    obtain ⟨k, hk, -, rfl⟩ := hv.mem_means.mp hb
    have hstop := (Element.covers_iff.mp hcovers).2
    have htick := (h.mem_ticks.mp hk).2
    rw [(h.times_meanAt v hk).2] at hstop
    omega
  · intro hlast
    obtain ⟨k, hk, hin⟩ := hv.exists_window h ha hlast
    have hmean := hv.mem_means.mpr ⟨k, hk, List.ne_nil_of_mem hin, rfl⟩
    exact ⟨_, hmean, hv.covers_of_aligned h haligned ha hmean (hv.overlap_window h hk hin)⟩

variable (hmeans : InOrder (w.means v))

include hmeans

/-- One squared deviation for each element that stops by the last tick. -/
theorem squares_of_aligned :
    w.squares v = (v.elements.filter (·.span.stop ≤ w.lastTick)).map fun a =>
      ⟨a.span, squareOf a (coverOf (w.means v) a)⟩ := by
  have hcovered : (v.elements.filter fun a => (w.means v).any (·.covers a.span.start a.span.stop)) =
      v.elements.filter (·.span.stop ≤ w.lastTick) :=
    List.filter_congr fun a ha => by
      rw [Bool.eq_iff_iff, hv.covered_iff h haligned ha, decide_eq_true_iff]
  rw [squares, overlaps_of_covers hv.inOrder hmeans fun a ha b hb =>
    hv.covers_of_aligned h haligned ha hb, hcovered, List.map_map]
  refine List.map_congr_left fun a ha => ?_
  obtain ⟨ha, hlast⟩ := List.mem_filter.mp ha
  have hany := (hv.covered_iff h haligned ha).mpr (of_decide_eq_true hlast)
  change Element.mk (overlap a _) _ = _
  rw [overlap_of_covers (covers_coverOf hany).2]

/-- A window of the second pass has a squared deviation for each element of the same window, from
the mean of this window. -/
theorem windowAt_squares {k : Nat} (hk : k ∈ tickNumbers 0 w.endTime w.window) :
    windowAt (w.squares v) 0 w.endTime w.window (0 + k * w.window) =
      (windowAt v.elements 0 w.endTime w.window (0 + k * w.window)).map fun a =>
        ⟨a.span, squareOf a (w.meanAt v k)⟩ := by
  have htick := (h.mem_ticks.mp hk).2
  rw [hv.squares_of_aligned h haligned hmeans, windowAt, List.filter_map, List.filter_filter]
  have hsame : (v.elements.filter fun a =>
      ((Element.inWindow 0 w.endTime w.window (0 + k * w.window)) ∘
        (fun a : Element => Element.mk a.span (squareOf a (coverOf (w.means v) a)))) a &&
          decide (a.span.stop ≤ w.lastTick)) =
      windowAt v.elements 0 w.endTime w.window (0 + k * w.window) := by
    refine List.filter_congr fun a _ => ?_
    change (a.inWindow 0 w.endTime w.window (0 + k * w.window) && _) = _
    rw [Bool.and_eq_left_iff_imp, decide_eq_true_iff]
    intro hin
    have := (Element.inWindow_iff.mp hin).2.2
    omega
  rw [hsame]
  refine List.map_congr_left fun a ha => ?_
  have hmean := hv.mem_means.mpr ⟨k, hk, List.ne_nil_of_mem ha, rfl⟩
  have hmem := (List.mem_filter.mp ha).1
  have hcovers := hv.covers_of_aligned h haligned hmem hmean (hv.overlap_window h hk ha)
  rw [hmeans.coverOf_eq (hv.inOrder.length_pos a hmem) hmean hcovers]

end Aligned

/-! ## Windows off the grid -/

/-- Windows off the grid of the elements cut one that shares time with a mean. -/
theorem exists_cut (hdvd : ¬ w.period.toInt ∣ w.window) (hlast : w.period.toInt ≤ w.lastTick) :
    ∃ a ∈ v.elements, ∃ b ∈ w.means v, 0 < (overlap a b).length ∧
      ¬ b.covers a.span.start a.span.stop = true := by
  have hperiod := h.period_pos
  have hwindow := h.window_pos
  obtain ⟨k, hk, hlo, hhi⟩ := h.exists_tick hperiod hlast
  obtain ⟨hbegin, hend⟩ := h.times_meanAt v hk
  obtain ⟨first, hfirst, hnow, -⟩ := hv.exists_during h (Int.le_refl 0) h.endTime_pos
  obtain ⟨hnonneg, -, hlasts⟩ := hv.times h hfirst
  have hin : first ∈ windowAt v.elements 0 w.endTime w.window (0 + k * w.window) :=
    (hv.mem_windowAt h).mpr ⟨hfirst, by omega, by omega⟩
  have hmean := hv.mem_means.mpr ⟨k, hk, List.ne_nil_of_mem hin, rfl⟩
  rcases Int.lt_or_le w.window w.period.toInt with hshort | hlong
  · -- The window in which the first element stops starts after it.
    refine ⟨first, hfirst, _, hmean, hv.overlap_window h hk hin, ?_⟩
    rw [Element.covers_iff]
    omega
  · -- The first window stops within an element.
    have hone : k = 1 := by
      have := (h.mem_ticks.mp hk).1
      have htwo : (k : Int) < 2 :=
        Int.lt_of_mul_lt_mul_right (a := w.window) (by omega) (Int.le_of_lt hwindow)
      omega
    have hlength : (k : Int) * w.window = w.window := by rw [hone, Int.natCast_one, Int.one_mul]
    have hwithin := Int.le_trans (h.mem_ticks.mp hk).2 h.lastTick_le
    have hbefore : w.window ≠ w.endTime := by
      intro heq
      rw [heq, h.endTime_eq] at hdvd
      exact hdvd (Int.dvd_mul_left ..)
    obtain ⟨a, ha, hstart, hstop⟩ :=
      hv.exists_during h (Int.le_of_lt hwindow) (t := w.window) (by omega)
    obtain ⟨hpast, hgrid, -⟩ := hv.times h ha
    have hne : a.span.start ≠ w.window := fun heq => hdvd (heq ▸ hgrid)
    refine ⟨a, ha, _, hmean, ?_, ?_⟩
    · rw [length_overlap_pos]
      omega
    · rw [Element.covers_iff]
      omega

/-- Then what the first pass emits does not have the times of elements. -/
theorem exists_square_of_cut (hmeans : InOrder (w.means v))
    (hdvd : ¬ w.period.toInt ∣ w.window) (hlast : w.period.toInt ≤ w.lastTick) :
    ∃ e ∈ w.squares v, ∀ a ∈ v.elements, e.span ≠ a.span := by
  obtain ⟨a, ha, b, hb, hpos, hcut⟩ := hv.exists_cut h hdvd hlast
  have hpair : (a, b) ∈ overlaps v.elements (w.means v) := by
    rw [overlaps_eq_sharing hv.inOrder hmeans, mem_sharing, ← length_overlap_pos]
    exact ⟨ha, hb, hpos⟩
  refine ⟨_, List.mem_map_of_mem hpair, fun a' ha' hsame => ?_⟩
  -- All elements last a period, and this lasts less.
  have hshorter := length_overlap_lt hcut
  obtain ⟨i, -, hspan⟩ := hv.steady.exists_span ha
  obtain ⟨i', -, hspan'⟩ := hv.steady.exists_span ha'
  have hlength := congrArg Span.length hsame
  rw [hspan'] at hlength
  rw [hspan] at hshorter
  simp only at hlength hshorter
  omega

/-! ## The passes -/

/-- What the first pass gives to the second one. -/
theorem gives_deviations
    (htimes : (Query.tumbling (.query w.deviations) w.window .average .f64).TimesFit 0 w.endTime)
    (hfit : (Source.query w.deviations).BuffersFit [v] 0 w.endTime) :
    ∃ u, (Source.query w.deviations).Gives [v] 0 w.endTime (· ≤ w.endTime) u ∧
      u.blocks? = none ∧ u.elements = w.squares v ∧ InOrder (w.means v) := by
  have hexpr : squaredDeviation.Safe 2 := ⟨rfl, rfl⟩
  obtain ⟨u', hu', helements⟩ := hv.gives_windows h htimes.1.2 hfit.1.2
  obtain ⟨u, hu⟩ :=
    h.gives_joinedWindows hv.ready hv.first hexpr (hv.gives h) hu' htimes.1 hfit
  obtain ⟨hplain, hcommitted⟩ := hu.committed rfl
  have hmeans : InOrder (w.means v) := by
    have := (hu'.sound.readable 0 w.endTime).inOrder
    rwa [helements] at this
  refine ⟨u, hu, hplain, ?_, hmeans⟩
  rw [hcommitted, Query.committed_innerJoin (hv.gives h) hu' (Int.le_of_lt h.endTime_pos) hexpr,
    hv.elementsIn_eq h, helements]
  rfl

omit h in
/-- There are buffers for the passes if there is one for the ticks of the windows, and one for these
and the elements. -/
theorem buffersFit_deviations {n : Nat} (hbound : tickBound 0 w.endTime w.window = .ok n)
    (hticks : SpanLog.fits (slotCapacity n) = true)
    (hfits : SpanLog.fits (slotCapacity (w.size.toNat + n)) = true) :
    (Source.query w.deviations).BuffersFit [v] 0 w.endTime := by
  refine ⟨⟨trivial, buffersFit_windows hbound hticks [v]⟩, fun m hm => ?_⟩
  have hsize : v.size = w.size.toNat := hv.steady.size
  have hsum : w.deviations.bound [v] 0 w.endTime = .ok (v.size + n) := by
    simp only [deviations, Query.tumbling, Query.bound, Source.bound, hbound]
    rfl
  cases hsum.symm.trans hm
  rwa [hsize]

/-- What a trial of both passes leaves. -/
theorem leaves_variance [TextHash] (hs : w.scenario = .variance) (htimes : w.TimesFit)
    (hbuffers : w.BuffersFit) :
    (∃ f, (Source.query w.deviations).feed [v] 0 w.endTime = .ok f ∧
      f.elements.toList = w.squares v) ∧ InOrder (w.means v) ∧
      w.Leaves (Reducer.average.windows (w.squares v) 0 w.endTime w.window w.window .f64) := by
  have hquery : w.query = Query.tumbling (.query w.deviations) w.window .average .f64 := by
    simp only [query, hs]
    rfl
  have hkind : w.outputLayout.1 = .f64 := by simp only [outputLayout, hs]
  have hfits := hquery ▸ htimes.query
  have hnested : (Source.query w.deviations).BuffersFit [v] 0 w.endTime := by
    have := hbuffers.nested [v] hv.inputs
    rwa [hquery] at this
  obtain ⟨u, hu, hplain, helements, hmeans⟩ := hv.gives_deviations h hfits hnested
  have hleaves := h.leaves hv.inputs hv.ready htimes hbuffers
  rw [hquery, hkind, Query.tumbling, Query.committed_window hu hplain (Int.le_of_lt h.endTime_pos)
    h.window_pos h.window_pos hfits, helements] at hleaves
  exact ⟨⟨u.feed, hu.feed, helements⟩, hmeans, hleaves⟩

end PlainInput

end Workload

namespace Trial

/-- Two trials of accepted settings that differ in their scenario only: variances in two passes and
in one. The times have to be within 64 bits, and there have to be buffers.

* Both have the same input, whose elements last a period each, and both run to the end.
* The first pass gives a squared deviation for each time that an element shares with the mean of a
  window, and the second one averages these.
* They are at the times of the elements that stop by the last tick, one each, if and only if windows
  last a multiple of a period or no element stops by then.
* If so, a window of the second pass has the squared deviations, from its mean, of the elements of
  the same window in one pass. -/
theorem variance_squares_iff [TextHash] [RandomSource] (s : Settings) (number : Nat)
    (hcheck : { s with scenario := .variance }.check = .ok ()) :
    ∃ w, Workload.ofSettings { s with scenario := .variance } number = .ok w ∧
      Workload.ofSettings { s with scenario := .varianceOnePass } number = .ok w.inOnePass ∧
      w.query = Query.tumbling (.query w.deviations) w.window .average .f64 ∧
      (w.TimesFit → w.BuffersFit → ∃ v f,
        w.inputs = .ok [v] ∧ w.inOnePass.inputs = .ok [v] ∧
        v.Steady w.period.toInt w.size.toNat ∧
        (Source.query w.deviations).feed [v] 0 w.endTime = .ok f ∧
        f.elements.toList = w.squares v ∧
        w.Leaves (Reducer.average.windows (w.squares v) 0 w.endTime w.window w.window .f64) ∧
        w.inOnePass.Leaves
          (Reducer.variance.windows v.elements 0 w.endTime w.window w.window .f64) ∧
        ((w.squares v).map (·.span) = (v.elements.filter (·.span.stop ≤ w.lastTick)).map (·.span) ↔
          w.period.toInt ∣ w.window ∨ w.lastTick < w.period.toInt) ∧
        (w.period.toInt ∣ w.window ∨ w.lastTick < w.period.toInt →
          ∀ k ∈ tickNumbers 0 w.endTime w.window,
            windowAt (w.squares v) 0 w.endTime w.window (0 + k * w.window) =
              (windowAt v.elements 0 w.endTime w.window (0 + k * w.window)).map fun a =>
                ⟨a.span, Workload.squareOf a (w.meanAt v k)⟩)) := by
  let w : Workload := ⟨.variance, s.size, s.period, { s with scenario := .variance }.window,
    s.blockSize, s.seed + UInt64.ofNat number⟩
  have hcheck' : { s with scenario := .varianceOnePass }.check = .ok () := hcheck
  have hw : Workload.ofSettings { s with scenario := .variance } number = .ok w := by
    rw [Workload.ofSettings, hcheck]
  have hw' : Workload.ofSettings { s with scenario := .varianceOnePass } number =
      .ok w.inOnePass := by
    rw [Workload.ofSettings, hcheck']
    rfl
  refine ⟨w, hw, hw', rfl, fun htimes hbuffers => ?_⟩
  have hplain : w.scenario ∈
      [.average, .averageOnePass, .variance, .varianceOnePass] := by simp [w]
  have hsize := hbuffers.size_le hplain
  have h := Workload.admitted_of_ofSettings hw hsize
  have h' := Workload.admitted_of_ofSettings hw' hsize
  obtain ⟨v, hv⟩ := h.plainInput hplain htimes.inputs hbuffers.inputs
  have hv' := hv.inOnePass (.inr rfl)
  obtain ⟨⟨f, hfeed, helements⟩, hmeans, hleaves⟩ := hv.leaves_variance h rfl htimes hbuffers
  have hleaves' := hv'.leaves_windows h' (htimes.inOnePass (.inr rfl))
    (hbuffers.inOnePass (.inr rfl)) rfl
  refine ⟨v, f, hv.inputs, hv'.inputs, hv.steady, hfeed, helements, hleaves, hleaves', ?_, ?_⟩
  · refine ⟨fun hspans => ?_, fun haligned => ?_⟩
    · by_contra hnot
      obtain ⟨hdvd, hlast⟩ := not_or.mp hnot
      obtain ⟨e, he, hother⟩ := hv.exists_square_of_cut h hmeans hdvd (Int.not_lt.mp hlast)
      have hspan : e.span ∈ (w.squares v).map (·.span) := List.mem_map_of_mem he
      rw [hspans] at hspan
      obtain ⟨a, ha, hsame⟩ := List.mem_map.mp hspan
      exact hother a (List.mem_filter.mp ha).1 hsame.symm
    · rw [hv.squares_of_aligned h haligned hmeans, List.map_map]
      rfl
  · exact fun haligned k hk => hv.windowAt_squares h haligned hmeans hk

/-- Two elements of two time units in windows of three. The first window sees one stop, that of the
first element, but it also meets the second element for one time unit. -/
theorem variance_squares_iff_of_cut :
    let hash : TextHash := ⟨fun text => UInt64.ofNat text.length⟩
    let source : RandomSource := KeyStream.source
    let s : Settings := { size := 2, period := 2, window? := some 3 }
    let w : Workload := ⟨.variance, 2, 2, 3, 64, 42⟩
    { s with scenario := .variance }.check = .ok () ∧ w.TimesFit ∧ w.BuffersFit ∧
      ∃ v f, w.inputs = .ok [v] ∧ (Source.query w.deviations).feed [v] 0 4 = .ok f ∧
        f.elements.toList = w.squares v ∧
        @Workload.Leaves hash source w (Reducer.average.windows (w.squares v) 0 4 3 3 .f64) ∧
        (w.squares v).map (·.span) ≠ (v.elements.filter (·.span.stop ≤ 3)).map (·.span) := by
  intro hash source s w
  have hof : Workload.ofSettings { s with scenario := .variance } 0 = .ok w := rfl
  have h := Workload.admitted_of_ofSettings hof (by decide)
  have htimes : w.TimesFit := (h.timesFit_iff (by decide)).mpr (by decide)
  have hinputs : ∀ shape ∈ w.inputShapes, w.InputFits shape := by decide
  obtain ⟨v, hv⟩ := h.plainInput (by decide) htimes.inputs hinputs
  have hbound : tickBound 0 w.endTime w.window = .ok 2 := by decide
  have hbuffers : w.BuffersFit := ⟨hinputs, by decide, fun inputs hin => by
    cases hv.inputs.symm.trans hin
    exact hv.buffersFit_deviations hbound (by decide) (by decide)⟩
  have hend : w.endTime = 4 := by decide
  have hlast : w.lastTick = 3 := by decide
  obtain ⟨_, hw, -, -, hpasses⟩ := variance_squares_iff s 0 rfl
  cases hof.symm.trans hw
  obtain ⟨v', f, hin, -, -, hfeed, helements, hleaves, -, hiff, -⟩ := hpasses htimes hbuffers
  rw [hend] at hfeed hleaves
  rw [hlast] at hiff
  refine ⟨rfl, htimes, hbuffers, v', f, hin, hfeed, helements, hleaves, fun hspans => ?_⟩
  exact absurd (hiff.mp hspans) (by decide)

end Trial

end StreamGauge
