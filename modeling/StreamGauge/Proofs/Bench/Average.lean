import StreamGauge.Proofs.Bench.Output
import StreamGauge.Proofs.Bench.Overrun

/-!
# Averages in two passes and in one

The averages of windows are put together from their sums and their counts, or they are taken in one
reduction. There is a sum and a count of every window, but an average only of one with elements.

`Trial.average_leaves_iff`: the two scenarios leave elements at the same times if and only if no
element lasts longer than a window.
-/

namespace StreamGauge

namespace Workload.PlainInput

variable [RandomSource] {w : Workload} {v : View} (hv : w.PlainInput v) (h : w.Admitted)

include hv h

/-- A window that is no shorter than an element sees one stop. -/
theorem windowAt_ne_nil (hperiod : w.period.toInt ≤ w.window) {k : Nat}
    (hk : k ∈ tickNumbers 0 w.endTime w.window) :
    windowAt v.elements 0 w.endTime w.window (0 + k * w.window) ≠ [] := by
  obtain ⟨hone, hlast⟩ := (mem_tickNumbers h.window_pos k).mp hk
  have hpos := h.period_pos
  have hfirst : 1 * w.window ≤ (k : Int) * w.window :=
    Int.mul_le_mul_of_nonneg_right (by omega) (Int.le_of_lt h.window_pos)
  -- The last element that stops by the tick lasts a period before it.
  obtain ⟨e, he, hstart, hstop⟩ :=
    hv.exists_during h (t := k * w.window - w.period.toInt) (by omega) (by omega)
  obtain ⟨-, -, hlasts⟩ := hv.times h he
  exact List.ne_nil_of_mem ((hv.mem_windowAt h).mpr ⟨he, by omega, by omega⟩)

/-- A window that is shorter than an element has not seen one stop at its first tick. -/
theorem windowAt_eq_nil (hperiod : w.window < w.period.toInt) :
    1 ∈ tickNumbers 0 w.endTime w.window ∧
      windowAt v.elements 0 w.endTime w.window (0 + (1 : Nat) * w.window) = [] := by
  have hpos := h.period_pos
  have hend : 1 * w.period.toInt ≤ w.endTime := by
    rw [h.endTime_eq]
    exact Int.mul_le_mul_of_nonneg_right (by have := h.size_pos; omega) (Int.le_of_lt hpos)
  refine ⟨(mem_tickNumbers h.window_pos 1).mpr ⟨Nat.le_refl 1, by omega⟩, ?_⟩
  rw [List.eq_nil_iff_forall_not_mem]
  intro e he
  obtain ⟨he, -, hstop⟩ := (hv.mem_windowAt h).mp he
  obtain ⟨hstart, -, hlasts⟩ := hv.times h he
  omega

/-- Reducers that need no elements have results at the same ticks, and so has a join of the two. -/
theorem spans_joined {left right : Reducer} {k k' output : Kind} {expr : Expr}
    (hexpr : expr.Safe 2) (hl : left.emitsEmpty = true) (hr : right.emitsEmpty = true)
    (htimes : (Query.join (.query (Query.tumbling (.input 0) w.window left k))
      (.query (Query.tumbling (.input 0) w.window right k')) expr none output).TimesFit 0 w.endTime)
    (hfit : (Query.join (.query (Query.tumbling (.input 0) w.window left k))
      (.query (Query.tumbling (.input 0) w.window right k')) expr none output).BuffersFit [v] 0
        w.endTime) (kind : Kind) :
    ((Query.join (.query (Query.tumbling (.input 0) w.window left k))
      (.query (Query.tumbling (.input 0) w.window right k')) expr none output).committed [v] 0
        w.endTime kind 0).map (·.span) =
      (tickNumbers 0 w.endTime w.window).map (tickSpan 0 w.window) := by
  have hend := Int.le_of_lt h.endTime_pos
  obtain ⟨u, hu, helements⟩ := hv.gives_windows h htimes.1 hfit.1
  obtain ⟨u', hu', helements'⟩ := hv.gives_windows h htimes.2 hfit.2
  have hspans : (u.elementsIn 0 w.endTime).map (·.span) =
      (tickNumbers 0 w.endTime w.window).map (tickSpan 0 w.window) := by
    rw [helements, Reducer.spans_windows hv.steady.value?_isSome, hl]
    simp
  have hspans' : (u'.elementsIn 0 w.endTime).map (·.span) =
      (tickNumbers 0 w.endTime w.window).map (tickSpan 0 w.window) := by
    rw [helements', Reducer.spans_windows hv.steady.value?_isSome, hr]
    simp
  have hleft := (hu.sound.readable 0 w.endTime).inOrder
  have hright := (hu'.sound.readable 0 w.endTime).inOrder
  have hjoined := spans_overlaps_of_spans_eq hleft hright (hspans.trans hspans'.symm)
  rw [Query.committed_innerJoin hu hu' hend hexpr, List.map_map]
  exact hjoined.trans hspans

end Workload.PlainInput

namespace Workload

variable {w : Workload} {v : View}

/-- What averages in two passes and in one leave. -/
theorem Admitted.leaves_average [TextHash] [RandomSource] (h : w.Admitted)
    (hs : w.scenario = .average)
    (htimes : w.TimesFit) (hbuffers : w.BuffersFit) (hv : w.PlainInput v) :
    ∃ es, w.Leaves es ∧
      es.map (·.span) = (tickNumbers 0 w.endTime w.window).map (tickSpan 0 w.window) := by
  refine ⟨_, h.leaves hv.inputs hv.ready htimes hbuffers, ?_⟩
  have hquery := htimes.query
  have hnested := hbuffers.nested [v] hv.inputs
  simp only [query, hs] at hquery hnested
  simp only [query, hs]
  exact hv.spans_joined h ⟨rfl, rfl⟩ rfl rfl hquery hnested _

theorem Admitted.leaves_averageOnePass [TextHash] [RandomSource] (h : w.Admitted)
    (hs : w.scenario = .averageOnePass) (htimes : w.TimesFit) (hbuffers : w.BuffersFit)
    (hv : w.PlainInput v) :
    ∃ es, w.Leaves es ∧
      es.map (·.span) = ((tickNumbers 0 w.endTime w.window).filter fun k : Nat =>
        !(windowAt v.elements 0 w.endTime w.window (0 + k * w.window)).isEmpty).map
          (tickSpan 0 w.window) := by
  have hquery : w.query = Query.tumbling (.input 0) w.window .average .f32 := by
    simp only [query, hs]
  refine ⟨_, hv.leaves_windows h htimes hbuffers hquery, ?_⟩
  rw [Reducer.spans_windows hv.steady.value?_isSome]
  rfl

/-- Every window has an element that stops in it if and only if no element lasts longer. -/
theorem PlainInput.filter_windows [RandomSource] (hv : w.PlainInput v) (h : w.Admitted) :
    let ticks := tickNumbers 0 w.endTime w.window
    let stopping := ticks.filter fun k : Nat =>
      !(windowAt v.elements 0 w.endTime w.window (0 + k * w.window)).isEmpty
    (w.period.toInt ≤ w.window → stopping = ticks) ∧
      (w.window < w.period.toInt → stopping.length < ticks.length) := by
  intro ticks stopping
  constructor
  · intro hperiod
    refine List.filter_eq_self.mpr fun k hk => ?_
    simpa using hv.windowAt_ne_nil h hperiod hk
  · intro hperiod
    obtain ⟨hone, hempty⟩ := hv.windowAt_eq_nil h hperiod
    refine List.length_filter_lt_length_iff_exists.mpr ⟨1, hone, ?_⟩
    rw [hempty]
    simp

end Workload

namespace Trial

/-- Two trials of accepted settings that differ in their scenario only: averages in two passes and
in one. The times have to be within 64 bits, and there have to be buffers.

* Both have the same input, whose elements last a period each, and both run to the end.
* In two passes, there is an element for every window up to the end.
* In one pass, there is an element for every window in which an element of the input stops.
* They are the same number, and at the same times, if and only if no element lasts longer than a
  window. -/
theorem average_leaves_iff [TextHash] [RandomSource] (s : Settings) (number : Nat)
    (hcheck : { s with scenario := .average }.check = .ok ()) :
    ∃ w, Workload.ofSettings { s with scenario := .average } number = .ok w ∧
      Workload.ofSettings { s with scenario := .averageOnePass } number = .ok w.inOnePass ∧
      (w.TimesFit → w.BuffersFit → ∃ v es es',
        w.inputs = .ok [v] ∧ w.inOnePass.inputs = .ok [v] ∧
        v.Steady w.period.toInt w.size.toNat ∧
        w.Leaves es ∧ w.inOnePass.Leaves es' ∧
        es.map (·.span) = (tickNumbers 0 w.endTime w.window).map (tickSpan 0 w.window) ∧
        es'.map (·.span) = ((tickNumbers 0 w.endTime w.window).filter fun k : Nat =>
          !(windowAt v.elements 0 w.endTime w.window (0 + k * w.window)).isEmpty).map
            (tickSpan 0 w.window) ∧
        (es.length = es'.length ↔ w.period.toInt ≤ w.window) ∧
        (es.map (·.span) = es'.map (·.span) ↔ w.period.toInt ≤ w.window)) := by
  let w : Workload := ⟨.average, s.size, s.period, { s with scenario := .average }.window,
    s.blockSize, s.seed + UInt64.ofNat number⟩
  have hcheck' : { s with scenario := .averageOnePass }.check = .ok () := hcheck
  have hw : Workload.ofSettings { s with scenario := .average } number = .ok w := by
    rw [Workload.ofSettings, hcheck]
  have hw' : Workload.ofSettings { s with scenario := .averageOnePass } number =
      .ok w.inOnePass := by
    rw [Workload.ofSettings, hcheck']
    rfl
  refine ⟨w, hw, hw', fun htimes hbuffers => ?_⟩
  have hsize := hbuffers.size_le List.mem_cons_self
  have h := Workload.admitted_of_ofSettings hw hsize
  have h' := Workload.admitted_of_ofSettings hw' hsize
  obtain ⟨v, hv⟩ := h.plainInput List.mem_cons_self htimes.inputs hbuffers.inputs
  have hv' := hv.inOnePass (.inl rfl)
  obtain ⟨es, hes, hspans⟩ := h.leaves_average rfl htimes hbuffers hv
  obtain ⟨es', hes', hspans'⟩ := h'.leaves_averageOnePass rfl (htimes.inOnePass (.inl rfl))
    (hbuffers.inOnePass (.inl rfl)) hv'
  change es'.map (·.span) = ((tickNumbers 0 w.endTime w.window).filter fun k : Nat =>
    !(windowAt v.elements 0 w.endTime w.window (0 + k * w.window)).isEmpty).map
      (tickSpan 0 w.window) at hspans'
  obtain ⟨hsame, hfewer⟩ := hv.filter_windows h
  -- With a period in each window, both have all ticks; else the first tick is left out.
  have hequal (hperiod : w.period.toInt ≤ w.window) : es.map (·.span) = es'.map (·.span) := by
    rw [hspans, hspans', hsame hperiod]
  have hless (hperiod : w.window < w.period.toInt) : es'.length < es.length := by
    have hlength := congrArg List.length hspans
    have hlength' := congrArg List.length hspans'
    simp only [List.length_map] at hlength hlength'
    rw [hlength, hlength']
    exact hfewer hperiod
  refine ⟨v, es, es', hv.inputs, hv'.inputs, hv.steady, hes, hes', hspans, hspans', ?_, ?_⟩
  · refine ⟨fun heq => ?_, fun hperiod => ?_⟩
    · by_contra hlt
      have := hless (Int.not_le.mp hlt)
      omega
    · simpa using congrArg List.length (hequal hperiod)
  · refine ⟨fun heq => ?_, hequal⟩
    by_contra hlt
    have hlength := congrArg List.length heq
    simp only [List.length_map] at hlength
    have := hless (Int.not_le.mp hlt)
    omega

/-- Elements of three time units in windows of four: each window sees one stop, at other times than
its tick. -/
theorem average_leaves_iff_of_wider :
    let hash : TextHash := ⟨fun text => UInt64.ofNat text.length⟩
    let source : RandomSource := KeyStream.source
    let s : Settings := { size := 4, period := 3, window? := some 4 }
    let w : Workload := ⟨.average, 4, 3, 4, 64, 42⟩
    { s with scenario := .average }.check = .ok () ∧ w.TimesFit ∧ w.BuffersFit ∧
      w.period.toInt ≤ w.window ∧
      ∃ es es', @Workload.Leaves hash source w es ∧ w.inOnePass.Leaves es' ∧
        es.length = es'.length ∧
        es.map (·.span) = [⟨0, 4⟩, ⟨4, 4⟩, ⟨8, 4⟩] ∧ es'.map (·.span) = es.map (·.span) := by
  intro hash source s w
  have hof : Workload.ofSettings { s with scenario := .average } 0 = .ok w := rfl
  have h := Workload.admitted_of_ofSettings hof (by decide)
  have htimes : w.TimesFit := (h.timesFit_iff (by decide)).mpr (by decide)
  have hbound : tickBound 0 w.endTime w.window = .ok 4 := by decide
  have hbuffers : w.BuffersFit := ⟨by decide, by decide, fun inputs _ =>
    ⟨Workload.buffersFit_windows hbound (by decide) inputs,
      Workload.buffersFit_windows hbound (by decide) inputs⟩⟩
  have hperiod : w.period.toInt ≤ w.window := by decide
  obtain ⟨_, hw, -, hleaves⟩ := average_leaves_iff s 0 rfl
  cases hof.symm.trans hw
  obtain ⟨v, es, es', -, -, -, hes, hes', hspans, -, hlength, hequal⟩ := hleaves htimes hbuffers
  exact ⟨rfl, htimes, hbuffers, hperiod, es, es', hes, hes', hlength.mpr hperiod,
    hspans.trans (by decide), (hequal.mpr hperiod).symm⟩

/-- An element of two time units in windows of one: the first window sees no stop, but it has a sum
and a count. -/
theorem average_disagrees :
    let hash : TextHash := ⟨fun text => UInt64.ofNat text.length⟩
    let source : RandomSource := KeyStream.source
    let s : Settings := { size := 1, period := 2, window? := some 1 }
    let w : Workload := ⟨.average, 1, 2, 1, 64, 42⟩
    { s with scenario := .average }.check = .ok () ∧
      { s with scenario := .averageOnePass }.check = .ok () ∧
      Workload.ofSettings { s with scenario := .average } 0 = .ok w ∧
      Workload.ofSettings { s with scenario := .averageOnePass } 0 = .ok w.inOnePass ∧
      w.TimesFit ∧ w.BuffersFit ∧
      ∃ es es', @Workload.Leaves hash source w es ∧ w.inOnePass.Leaves es' ∧
        es.map (·.span) = [⟨0, 1⟩, ⟨1, 1⟩] ∧ es'.map (·.span) = [⟨1, 1⟩] ∧
        es'.length < es.length := by
  intro hash source s w
  have hof : Workload.ofSettings { s with scenario := .average } 0 = .ok w := rfl
  have hof' : Workload.ofSettings { s with scenario := .averageOnePass } 0 = .ok w.inOnePass := rfl
  have h := Workload.admitted_of_ofSettings hof (by decide)
  have h' := Workload.admitted_of_ofSettings hof' (by decide)
  have htimes : w.TimesFit := (h.timesFit_iff (by decide)).mpr (by decide)
  have hbound : tickBound 0 w.endTime w.window = .ok 3 := by decide
  have hbuffers : w.BuffersFit := ⟨by decide, by decide, fun inputs _ =>
    ⟨Workload.buffersFit_windows hbound (by decide) inputs,
      Workload.buffersFit_windows hbound (by decide) inputs⟩⟩
  obtain ⟨v, hv⟩ := h.plainInput (by decide) htimes.inputs hbuffers.inputs
  obtain ⟨es, hes, hspans⟩ := h.leaves_average rfl htimes hbuffers hv
  obtain ⟨es', hes', hspans'⟩ := h'.leaves_averageOnePass rfl (htimes.inOnePass (.inl rfl))
    (hbuffers.inOnePass (.inl rfl)) (hv.inOnePass (.inl rfl))
  -- The only element stops at 2, in the window of the second tick.
  obtain ⟨e, he⟩ : ∃ e, v.elements = [e] := by
    rw [← List.length_eq_one_iff, View.length_elements hv.steady.sound.valid, hv.steady.size]
    rfl
  obtain ⟨i, hi, hspan⟩ := hv.steady.exists_span (e := e) (by simp [he])
  have hzero : i = 0 := Nat.lt_one_iff.mp hi
  subst hzero
  have htwo : e.span = ⟨0, 2⟩ := hspan.trans (by decide)
  have hticks : tickNumbers 0 w.inOnePass.endTime w.inOnePass.window = [1, 2] := by decide
  have hend : w.inOnePass.endTime = 2 := by decide
  have hwindow : w.inOnePass.window = 1 := rfl
  have hsum : es.map (·.span) = [⟨0, 1⟩, ⟨1, 1⟩] := hspans.trans (by decide)
  have hmean : es'.map (·.span) = [⟨1, 1⟩] := by
    rw [hspans', he, hticks, hend, hwindow]
    simp [windowAt, Element.inWindow, Element.startsIn, htwo, Span.stop, tickSpan, Span.between]
  have hless : es'.length < es.length := by
    have htwice : es.length = 2 := by simpa using congrArg List.length hsum
    have honce : es'.length = 1 := by simpa using congrArg List.length hmean
    omega
  exact ⟨rfl, rfl, hof, hof', htimes, hbuffers, es, es', hes, hes', hsum, hmean, hless⟩

end Trial

end StreamGauge
