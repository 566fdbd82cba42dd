import StreamGauge.Bench.Benchmark
import StreamGauge.Proofs.Bench.Inputs
import StreamGauge.Proofs.Exec.Completion

/-!
# Trials of accepted settings

`Trial.execute_of_accepted`: settings that pass their check run to the end, whatever their scenario.
What it presumes beside is that the size is a signed 64-bit number, that times are within 64 bits
(`Workload.TimesFit`), and that there are buffers (`Workload.BuffersFit`).

The size of an output is chosen apart from the query that writes to it. `Workload.Admitted.emits`
compares the two for every scenario, by what its operators emit at most:

* a window emits at its ticks, which are no more than `Workload.stepsOf` says;
* if both sides of a join begin and end their elements at multiples of a period, there is no more
  than one element for each period (`Workload.Admitted.emits_joinOnGrid`,
  `Workload.Admitted.emits_outerJoin`);
* any other inner join emits no more than its sides have elements
  (`Workload.Admitted.emits_joinUntilEnd`).

`Query.Emits.run` then runs the query into an output of that size.
-/

namespace StreamGauge

namespace Workload

variable {w : Workload} {inputs : List View}

/-- Every time that is computed for a workload is within 64 bits: those of the elements of its
inputs, and those of its query. -/
structure TimesFit (w : Workload) : Prop where
  inputs : ∀ shape ∈ w.inputShapes, shape.length * shape.period ≤ maxInt64
  query : w.query.TimesFit 0 w.endTime

/-- There are buffers for the inputs of a workload, for its output and for what nested queries
produce. -/
structure BuffersFit [RandomSource] (w : Workload) : Prop where
  inputs : ∀ shape ∈ w.inputShapes, w.InputFits shape
  output : SpanLog.fits (slotCapacity w.outputLayout.2) = true
  nested : ∀ inputs, w.inputs = .ok inputs → w.query.BuffersFit inputs 0 w.endTime

/-! ## The query -/

theorem Admitted.hop_pos (h : w.Admitted) : 0 < w.hop := by
  have hwindow := h.window_pos
  unfold hop
  split <;> omega

/-- The query of every scenario passes its check. -/
theorem Admitted.query_check (h : w.Admitted) : w.query.check = .ok () := by
  have hwindow := h.window_pos
  have hhop := h.hop_pos
  have htumbling : ¬ (w.window ≤ 0 ∨ w.window ≤ 0) := by omega
  have hsliding : ¬ (w.window ≤ 0 ∨ w.hop ≤ 0) := by omega
  unfold query
  cases w.scenario with
  | sum | sum8 | averageOnePass | averageOnePass64 | averageOnePass8 | varianceOnePass | slidingSum
  | blockedSum | blockedAverage | blockedDeviation =>
    simp only [Query.tumbling, Query.check, Source.check, htumbling, hsliding, if_false]
  | _ =>
    simp only [Query.tumbling, Query.check, Source.check, htumbling, if_false]
    rfl

/-- The first input has all the elements, unless it is a base stream. -/
theorem first_shape {s : Scenario} (hs : w.scenario = s) (hone : s.isTwoStream = false) :
    w.inputShapes[0]? = some w.fullShape := by
  unfold inputShapes
  rw [hs]
  cases s with
  | baseDeltaSelect | baseDeltaFilter => cases hone
  | _ => rfl

/-- There are as many inputs as the query reads. -/
theorem arity_query_le (w : Workload) : w.query.arity ≤ w.inputShapes.length := by
  unfold query inputShapes
  cases w.scenario with
  | _ => exact Nat.le_refl _

theorem safe_positive : positive.Safe 1 := ⟨rfl, rfl⟩

theorem safe_plusThree : plusThree.Safe 1 := ⟨rfl, rfl⟩

theorem safe_bothSides : bothSides.Safe 2 := ⟨rfl, rfl⟩

theorem safe_basePlusDelta : basePlusDelta.Safe 2 := ⟨rfl, rfl⟩

/-- Elements that last a period each until the end of the workload are no more than there are
periods. -/
theorem le_steps {period : Int} (hperiod : 0 < period) {n : Nat} (h : period * n ≤ w.endTime) :
    n ≤ (w.endTime / period).toNat := by
  rw [Int.mul_comm] at h
  have := (Int.le_ediv_iff_mul_le hperiod).mpr h
  omega

/-! ## Emissions -/

/-- A multiple of a period, not after the workload. -/
abbrev GridTime (w : Workload) (period t : Int) : Prop := period ∣ t ∧ t ≤ w.endTime

section Emissions

variable (h : w.Admitted)

include h

theorem Admitted.steps_period : (w.endTime / w.period.toInt).toNat = w.size.toNat := by
  rw [h.endTime_eq, Int.mul_ediv_cancel _ (Int.ne_of_gt h.period_pos), Int.toNat_natCast]

/-- Windows end at multiples of their period, the last one not after the workload. -/
theorem Admitted.emits_windows {source : Source} {P : Int → Prop} {v : View}
    (hv : source.Gives inputs 0 w.endTime P v) {length period : Int} (hlength : 0 < length)
    (hperiod : 0 < period) {reducer : Reducer} {kind : Kind}
    (htimes : (Query.window source length period reducer kind).TimesFit 0 w.endTime) :
    (Query.window source length period reducer kind).Emits inputs 0 w.endTime (w.stepsOf period)
      (w.GridTime period) := by
  have hwindows := Query.Emits.window hv (Int.le_of_lt h.endTime_pos) hlength hperiod htimes
    (Q := w.GridTime period) fun k hk => by
      have htick := ((mem_tickNumbers hperiod k).mp hk).2
      exact ⟨by rw [Int.zero_add]; exact Int.dvd_mul_left .., htick⟩
  refine hwindows.mono ?_ fun _ ht => ht
  rw [Int.sub_zero]
  exact Nat.le_succ _

/-- A join of elements that begin and end at multiples of a period has no more than one element for
each period. -/
theorem Admitted.emits_joinOnGrid {left right : Source} {v v' : View} {period : Int}
    (hperiod : 0 < period)
    (hv : left.Gives inputs 0 w.endTime (w.GridTime period) v)
    (hv' : right.Gives inputs 0 w.endTime (w.GridTime period) v') {expr : Expr}
    (hexpr : expr.Safe 2) (kind : Kind) :
    (Query.join left right expr none kind).Emits inputs 0 w.endTime (w.endTime / period).toNat
      (w.GridTime period) := by
  have hend := Int.le_of_lt h.endTime_pos
  have hnames := fun p => names_overlaps (Q := w.GridTime period) hv.times hv'.times (p := p)
  have hcount := mul_length_overlaps_le (hv.sound.readable 0 w.endTime).inOrder
    (hv'.sound.readable 0 w.endTime).inOrder (fun e he => View.start_le_of_elementsIn he) hnames
    hend
  have hjoin := Query.Emits.innerJoin (Q := w.GridTime period) hv hv' hend hexpr kind hnames
  exact hjoin.mono (le_steps hperiod hcount) fun _ ht => ht

/-- A join ends where its right side ends, or before. -/
theorem Admitted.emits_joinUntilEnd {left right : Source} {v v' : View} {Q : Int → Prop}
    (hv : left.Gives inputs 0 w.endTime Q v)
    (hv' : right.Gives inputs 0 w.endTime (· ≤ w.endTime) v') {expr : Expr} (hexpr : expr.Safe 2)
    (kind : Kind) :
    (Query.join left right expr none kind).Emits inputs 0 w.endTime (v.size + v'.size)
      (· ≤ w.endTime) := by
  have hstop : ∀ p ∈ overlaps (v.elementsIn 0 w.endTime) (v'.elementsIn 0 w.endTime),
      (overlap p.1 p.2).start ≤ w.endTime ∧ (overlap p.1 p.2).stop ≤ w.endTime := by
    intro p hp
    obtain ⟨-, hright, hpos⟩ := mem_overlaps hp
    have hlast := (hv'.times p.2 hright).2
    have hcut : (overlap p.1 p.2).stop ≤ p.2.span.stop := by
      rw [stop_overlap]
      exact Int.min_le_right ..
    have hspan : (overlap p.1 p.2).stop =
      (overlap p.1 p.2).start + (overlap p.1 p.2).length := rfl
    -- The overlap stops with its right element at the latest, and it starts before it stops.
    omega
  have hjoin := Query.Emits.innerJoin (Q := (· ≤ w.endTime)) hv hv' (Int.le_of_lt h.endTime_pos)
    hexpr kind hstop
  have hcount := length_overlaps_le (v.elementsIn 0 w.endTime) (v'.elementsIn 0 w.endTime)
  have hleft := @View.length_elementsIn_le v 0 w.endTime hv.sound.valid
  have hright := @View.length_elementsIn_le v' 0 w.endTime hv'.sound.valid
  exact hjoin.mono (by omega) fun _ ht => ht

variable (hready : w.InputsReady inputs)

include hready

/-- An input of elements that last a period of the workload each, as many of them or fewer. -/
theorem Admitted.gives_input {slot n : Nat}
    (hshape : w.inputShapes[slot]? = some ⟨w.period.toInt, n⟩) (hle : n ≤ w.size.toNat) :
    ∃ v, v.size = n ∧ (Source.input slot).Gives inputs 0 w.endTime
      (w.GridTime w.period.toInt) v := by
  obtain ⟨v, hv, hsteady⟩ := hready.steady slot _ hshape
  have hlast : (n : Int) * w.period.toInt ≤ w.endTime := by
    rw [h.endTime_eq]
    exact Int.mul_le_mul_of_nonneg_right (Int.ofNat_le.mpr hle) (Int.le_of_lt h.period_pos)
  refine ⟨v, hsteady.size, .input hv hsteady.sound fun e he => ?_⟩
  obtain ⟨⟨hstart, hstartLe⟩, hstop, hstopLe⟩ :=
    hsteady.times h.period_pos (List.mem_filter.mp he).1
  exact ⟨⟨hstart, Int.le_trans hstartLe hlast⟩, hstop, Int.le_trans hstopLe hlast⟩

theorem Admitted.gives_full {slot : Nat} (hshape : w.inputShapes[slot]? = some w.fullShape) :
    ∃ v, v.size = w.size.toNat ∧ (Source.input slot).Gives inputs 0 w.endTime
      (w.GridTime w.period.toInt) v :=
  h.gives_input hready hshape (Nat.le_refl _)

/-- What a nested query emits is given to the query around it. -/
theorem Admitted.gives_nested {q : Query} {n : Nat} {Q : Int → Prop}
    (hq : q.Emits inputs 0 w.endTime n Q) (hcheck : q.check = .ok ())
    (harity : q.arity ≤ w.inputShapes.length) (htimes : q.TimesFit 0 w.endTime)
    (hfit : (Source.query q).BuffersFit inputs 0 w.endTime) (hzero : Q 0) :
    ∃ v, v.size ≤ n ∧ (Source.query q).Gives inputs 0 w.endTime Q v :=
  hq.gives hready.sound (Int.le_of_lt h.endTime_pos) hcheck (hready.length ▸ harity) htimes hfit
    hzero

/-! ### Over one input -/

section One

variable (hfirst : w.inputShapes[0]? = some w.fullShape)

include hfirst

theorem Admitted.emits_select {expr : Expr} (hexpr : expr.Safe 1) (kind : Kind) :
    (Query.select (.input 0) expr kind).Emits inputs 0 w.endTime w.size.toNat (· ≤ w.endTime) := by
  obtain ⟨v, hsize, hv⟩ := h.gives_full hready hfirst
  have hselect := Query.Emits.select hv (Int.le_of_lt h.endTime_pos) hexpr kind
  exact hselect.mono (Nat.le_of_eq hsize) fun _ ht => ht.2

theorem Admitted.emits_filter {expr : Expr} (hexpr : expr.Safe 1) :
    (Query.filter (.input 0) expr).Emits inputs 0 w.endTime w.size.toNat (· ≤ w.endTime) := by
  obtain ⟨v, hsize, hv⟩ := h.gives_full hready hfirst
  have hfilter := Query.Emits.filter hv (Int.le_of_lt h.endTime_pos) hexpr
  exact hfilter.mono (Nat.le_of_eq hsize) fun _ ht => ht.2

theorem Admitted.emits_windowsOfInput {length period : Int} (hlength : 0 < length)
    (hperiod : 0 < period) {reducer : Reducer} {kind : Kind}
    (htimes : (Query.window (.input 0) length period reducer kind).TimesFit 0 w.endTime) :
    (Query.window (.input 0) length period reducer kind).Emits inputs 0 w.endTime
      (w.stepsOf period) (w.GridTime period) := by
  obtain ⟨v, -, hv⟩ := h.gives_full hready hfirst
  exact h.emits_windows hv hlength hperiod htimes

/-- Windows over an input, as the source of another operator. -/
theorem Admitted.gives_windows {reducer : Reducer} {kind : Kind}
    (htimes : (Query.tumbling (.input 0) w.window reducer kind).TimesFit 0 w.endTime)
    (hfit : (Source.query (Query.tumbling (.input 0) w.window reducer kind)).BuffersFit inputs 0
      w.endTime) :
    ∃ v, (Source.query (Query.tumbling (.input 0) w.window reducer kind)).Gives inputs 0 w.endTime
      (w.GridTime w.window) v := by
  have hwindow := h.window_pos
  have hslots := (List.getElem?_eq_some_iff.mp hfirst).1
  have hcheck : (Query.tumbling (.input 0) w.window reducer kind).check = .ok () := by
    rw [Query.tumbling, Query.check, if_neg (by omega)]
    rfl
  obtain ⟨v, -, hv⟩ := h.gives_nested hready
    (h.emits_windowsOfInput hready hfirst hwindow hwindow htimes) hcheck hslots htimes hfit
    ⟨Int.dvd_zero _, Int.le_of_lt h.endTime_pos⟩
  exact ⟨v, hv⟩

theorem Admitted.emits_filteredWindows {reducer : Reducer} {kind : Kind}
    (htimes : (Query.tumbling (.query (.filter (.input 0) positive)) w.window reducer
      kind).TimesFit 0 w.endTime)
    (hfit : (Query.tumbling (.query (.filter (.input 0) positive)) w.window reducer
      kind).BuffersFit inputs 0 w.endTime) :
    (Query.tumbling (.query (.filter (.input 0) positive)) w.window reducer kind).Emits inputs 0
      w.endTime (w.stepsOf w.window) (w.GridTime w.window) := by
  have hslots := (List.getElem?_eq_some_iff.mp hfirst).1
  obtain ⟨v, -, hv⟩ := h.gives_nested hready (h.emits_filter hready hfirst safe_positive) rfl
    hslots htimes.1 hfit (Int.le_of_lt h.endTime_pos)
  exact h.emits_windows hv h.window_pos h.window_pos htimes

/-- The windows of both sides are the same spans, so the join has one element for each. -/
theorem Admitted.emits_average {left right : Reducer} {k k' kind : Kind} {expr : Expr}
    (hexpr : expr.Safe 2)
    (htimes : (Query.join (.query (Query.tumbling (.input 0) w.window left k))
      (.query (Query.tumbling (.input 0) w.window right k')) expr none kind).TimesFit 0 w.endTime)
    (hfit : (Query.join (.query (Query.tumbling (.input 0) w.window left k))
      (.query (Query.tumbling (.input 0) w.window right k')) expr none kind).BuffersFit inputs 0
        w.endTime) :
    (Query.join (.query (Query.tumbling (.input 0) w.window left k))
      (.query (Query.tumbling (.input 0) w.window right k')) expr none kind).Emits inputs 0
        w.endTime (w.stepsOf w.window) (· ≤ w.endTime) := by
  obtain ⟨v, hv⟩ := h.gives_windows hready hfirst htimes.1 hfit.1
  obtain ⟨v', hv'⟩ := h.gives_windows hready hfirst htimes.2 hfit.2
  have hjoin := h.emits_joinOnGrid h.window_pos hv hv' hexpr kind
  exact hjoin.mono (Nat.le_succ _) fun _ ht => ht.2

/-- A join of an input with windows over it, as the source of another operator. -/
theorem Admitted.gives_joinedWindows {reducer : Reducer} {k k' : Kind} {expr : Expr}
    {Q : Int → Prop} {v v' : View} (hexpr : expr.Safe 2)
    (hv : (Source.input 0).Gives inputs 0 w.endTime Q v)
    (hv' : (Source.query (Query.tumbling (.input 0) w.window reducer k)).Gives inputs 0 w.endTime
      (w.GridTime w.window) v')
    (htimes : (Query.join (.input 0) (.query (Query.tumbling (.input 0) w.window reducer k)) expr
      none k').TimesFit 0 w.endTime)
    (hfit : (Source.query (.join (.input 0) (.query (Query.tumbling (.input 0) w.window reducer k))
      expr none k')).BuffersFit inputs 0 w.endTime) :
    ∃ u, (Source.query (.join (.input 0) (.query (Query.tumbling (.input 0) w.window reducer k))
      expr none k')).Gives inputs 0 w.endTime (· ≤ w.endTime) u := by
  have hwindow := h.window_pos
  have hslots := (List.getElem?_eq_some_iff.mp hfirst).1
  have hjoin := h.emits_joinUntilEnd hv (hv'.imp fun _ ht => ht.2) hexpr k'
  have hcheck : (Query.join (.input 0) (.query (Query.tumbling (.input 0) w.window reducer k)) expr
      none k').check = .ok () := by
    simp only [Query.tumbling, Query.check, Source.check, hexpr.check, bind, Except.bind]
    rw [if_neg (by omega)]
  obtain ⟨u, -, hu⟩ := h.gives_nested hready hjoin hcheck (Nat.max_le.mpr ⟨hslots, hslots⟩)
    htimes hfit (Int.le_of_lt h.endTime_pos)
  exact ⟨u, hu⟩

/-- Each element beside the mean of its window, and the mean of what is made of them. -/
theorem Admitted.emits_variance {inner outer : Reducer} {k k' kind : Kind} {expr : Expr}
    (hexpr : expr.Safe 2)
    (htimes : (Query.tumbling (.query (.join (.input 0)
      (.query (Query.tumbling (.input 0) w.window inner k)) expr none k')) w.window outer
      kind).TimesFit 0 w.endTime)
    (hfit : (Query.tumbling (.query (.join (.input 0)
      (.query (Query.tumbling (.input 0) w.window inner k)) expr none k')) w.window outer
      kind).BuffersFit inputs 0 w.endTime) :
    (Query.tumbling (.query (.join (.input 0)
      (.query (Query.tumbling (.input 0) w.window inner k)) expr none k')) w.window outer
      kind).Emits inputs 0 w.endTime (w.stepsOf w.window)
        (w.GridTime w.window) := by
  have hwindow := h.window_pos
  obtain ⟨v, -, hv⟩ := h.gives_full hready hfirst
  obtain ⟨v', hv'⟩ := h.gives_windows hready hfirst htimes.1.2 hfit.1.2
  obtain ⟨u, hu⟩ := h.gives_joinedWindows hready hfirst hexpr hv hv' htimes.1 hfit
  exact h.emits_windows hu hwindow hwindow htimes

end One

/-! ### Over two inputs -/

theorem Admitted.emits_innerJoin (hfirst : w.inputShapes[0]? = some w.fullShape)
    (hsecond : w.inputShapes[1]? = some w.fullShape) {expr : Expr} (hexpr : expr.Safe 2)
    (kind : Kind) :
    (Query.join (.input 0) (.input 1) expr none kind).Emits inputs 0 w.endTime w.size.toNat
      (· ≤ w.endTime) := by
  obtain ⟨v, -, hv⟩ := h.gives_full hready hfirst
  obtain ⟨v', -, hv'⟩ := h.gives_full hready hsecond
  have hjoin := h.emits_joinOnGrid h.period_pos hv hv' hexpr kind
  exact hjoin.mono (Nat.le_of_eq h.steps_period) fun _ ht => ht.2

/-- No piece is shorter than a period, so the pieces are no more than the elements of the longer
side. -/
theorem Admitted.emits_outerJoin (hfirst : w.inputShapes[0]? = some w.fullShape)
    (hsecond : w.inputShapes[1]? = some ⟨w.period.toInt, w.rightLength⟩) {expr : Expr}
    (hexpr : expr.Safe 2) (fill : Value) (kind : Kind) :
    (Query.join (.input 0) (.input 1) expr (some fill) kind).Emits inputs 0 w.endTime w.size.toNat
      (· ≤ w.endTime) := by
  have hsize := h.size_pos
  have hend := Int.le_of_lt h.endTime_pos
  have hright : w.rightLength ≤ w.size.toNat := by
    unfold rightLength
    omega
  obtain ⟨v, -, hv⟩ := h.gives_full hready hfirst
  obtain ⟨v', -, hv'⟩ := h.gives_input hready hsecond hright
  have hjoin := Query.Emits.outerJoin hv hv' hend hexpr fill kind
  have hleft := hv.sound.readable 0 w.endTime
  have hother := hv'.sound.readable 0 w.endTime
  -- Cuts are multiples of the period, so a piece lasts one period at least.
  have hcount : w.period.toInt *
      (coveredPieces (v.elementsIn 0 w.endTime ++ v'.elementsIn 0 w.endTime)).length ≤ w.endTime :=
    mul_length_pieces_le
      (fun e he => (List.mem_append.mp he).elim (hleft.inOrder.length_pos e)
        (hother.inOrder.length_pos e))
      (fun e he => (List.mem_append.mp he).elim (hleft.start_le e) (hother.start_le e))
      (fun e he => (List.mem_append.mp he).elim (hv.times e) (hv'.times e)) hend
  have hsteps := Nat.le_trans (le_steps h.period_pos hcount) (Nat.le_of_eq h.steps_period)
  exact hjoin.mono hsteps fun _ ht => ht.2

section BaseDelta

variable (hfirst : w.inputShapes[0]? = some ⟨w.window, w.baseLength⟩)
  (hsecond : w.inputShapes[1]? = some w.fullShape)

include hfirst hsecond

/-- The elements of the base may last longer than the workload, their overlaps with the deltas do
not. -/
theorem Admitted.emits_baseDelta {expr : Expr} (hexpr : expr.Safe 2) (kind : Kind) :
    (Query.join (.input 0) (.input 1) expr none kind).Emits inputs 0 w.endTime
      (w.size.toNat + w.baseLength) (· ≤ w.endTime) := by
  obtain ⟨v, hv, hsteady⟩ := hready.steady 0 _ hfirst
  -- Nothing is asked of the times of the base: its last element may stop after `w.endTime`.
  have hbase : (Source.input 0).Gives inputs 0 w.endTime (fun _ => True) v :=
    .input hv hsteady.sound fun _ _ => ⟨trivial, trivial⟩
  obtain ⟨v', hsize, hdelta⟩ := h.gives_full hready hsecond
  have hjoin := h.emits_joinUntilEnd hbase (hdelta.imp fun _ ht => ht.2) hexpr kind
  have hbaseSize : v.size = w.baseLength := hsteady.size
  exact hjoin.mono (by omega) fun _ ht => ht

theorem Admitted.emits_baseDeltaFilter {expr predicate : Expr} (hexpr : expr.Safe 2)
    (hpredicate : predicate.Safe 1) {kind : Kind}
    (hfit : (Query.filter (.query (.join (.input 0) (.input 1) expr none kind))
      predicate).BuffersFit inputs 0 w.endTime) :
    (Query.filter (.query (.join (.input 0) (.input 1) expr none kind)) predicate).Emits inputs 0
      w.endTime (w.size.toNat + w.baseLength) (· ≤ w.endTime) := by
  have hend := Int.le_of_lt h.endTime_pos
  have hslots := (List.getElem?_eq_some_iff.mp hsecond).1
  have hcheck : (Query.join (.input 0) (.input 1) expr none kind).check = .ok () := by
    simp only [Query.check, Source.check, hexpr.check, bind, Except.bind]
  have hjoin := h.emits_baseDelta hready hfirst hsecond hexpr kind
  obtain ⟨v, hsize, hv⟩ := h.gives_nested hready hjoin hcheck
    (Nat.max_le.mpr ⟨Nat.le_of_lt hslots, hslots⟩) ⟨trivial, trivial⟩ hfit hend
  exact (Query.Emits.filter hv hend hpredicate).mono hsize fun _ ht => ht

end BaseDelta

/-- The query of every scenario emits no more than its output has slots for. -/
theorem Admitted.emits (htimes : w.query.TimesFit 0 w.endTime)
    (hfit : w.query.BuffersFit inputs 0 w.endTime) :
    w.query.Emits inputs 0 w.endTime w.outputLayout.2 (· ≤ w.endTime) := by
  have hwindow := h.window_pos
  have hhop := h.hop_pos
  -- `htimes` and `hfit` are unfolded where the query nests another or has a window.
  cases hs : w.scenario with
  | select | select8 | blockedSelect =>
    simp only [query, outputLayout, hs]
    exact h.emits_select hready (first_shape hs rfl) safe_plusThree _
  | filter | filter8 | blockedFilter =>
    simp only [query, outputLayout, hs]
    exact h.emits_filter hready (first_shape hs rfl) safe_positive
  | filteredSum | filteredSum8 | blockedFilteredSum =>
    simp only [query, hs] at htimes hfit
    simp only [query, outputLayout, hop, hs]
    have hwindows := h.emits_filteredWindows hready (first_shape hs rfl) htimes hfit
    exact hwindows.imp fun _ ht => ht.2
  | average =>
    simp only [query, hs] at htimes hfit
    simp only [query, outputLayout, hop, hs]
    exact h.emits_average hready (first_shape hs rfl) ⟨rfl, rfl⟩ htimes hfit
  | variance =>
    simp only [query, hs] at htimes hfit
    simp only [query, outputLayout, hop, hs]
    have hwindows := h.emits_variance hready (first_shape hs rfl) ⟨rfl, rfl⟩ htimes hfit
    exact hwindows.imp fun _ ht => ht.2
  | innerJoin =>
    have hshapes : w.inputShapes = [w.fullShape, w.fullShape] := by simp only [inputShapes, hs]
    have hsecond := congrArg (·[1]?) hshapes
    simp only [query, outputLayout, hs]
    exact h.emits_innerJoin hready (first_shape hs rfl) hsecond safe_bothSides _
  | outerJoin =>
    have hshapes : w.inputShapes = [w.fullShape, ⟨w.period.toInt, w.rightLength⟩] := by
      simp only [inputShapes, hs]
    have hsecond := congrArg (·[1]?) hshapes
    simp only [query, outputLayout, hs]
    exact h.emits_outerJoin hready (first_shape hs rfl) hsecond safe_bothSides _ _
  | baseDeltaSelect =>
    have hshapes : w.inputShapes = [⟨w.window, w.baseLength⟩, w.fullShape] := by
      simp only [inputShapes, hs]
    have hfirst := congrArg (·[0]?) hshapes
    have hsecond := congrArg (·[1]?) hshapes
    simp only [query, outputLayout, hs]
    exact h.emits_baseDelta hready hfirst hsecond ⟨rfl, rfl⟩ _
  | baseDeltaFilter =>
    have hshapes : w.inputShapes = [⟨w.window, w.baseLength⟩, w.fullShape] := by
      simp only [inputShapes, hs]
    have hfirst := congrArg (·[0]?) hshapes
    have hsecond := congrArg (·[1]?) hshapes
    simp only [query, hs] at hfit
    simp only [query, outputLayout, hs]
    exact h.emits_baseDeltaFilter hready hfirst hsecond safe_basePlusDelta safe_positive hfit
  | slidingSum =>
    simp only [query, hs] at htimes
    simp only [query, outputLayout, hs]
    have hwindows := h.emits_windowsOfInput hready (first_shape hs rfl) hwindow hhop htimes
    exact hwindows.imp fun _ ht => ht.2
  | _ =>
    simp only [query, hs] at htimes
    simp only [query, outputLayout, hop, hs]
    have hwindows := h.emits_windowsOfInput hready (first_shape hs rfl) hwindow hwindow htimes
    exact hwindows.imp fun _ ht => ht.2

end Emissions

end Workload

/-! ## Trials -/

namespace Trial

/-- Accepted settings run to the end, whatever their scenario, seed and instance: their query
compiles, the regions can be made, and the routine writes an output that has the slots for it and
does not stop after the workload. The size has to be a signed 64-bit number, the times have to be
within 64 bits, and there have to be buffers. -/
theorem execute_of_accepted [TextHash] [RandomSource] (s : Settings) (number serial : Nat)
    (hcheck : s.check = .ok ()) (hsize : (s.size.toNat : Int) ≤ maxInt64) :
    ∃ w, Workload.ofSettings s number = .ok w ∧ ofSettings s number = .ok (ofWorkload w) ∧
      (w.TimesFit → w.BuffersFit →
        ∃ routine t output, Backend.interpreter serial w.query = .ok routine ∧
          (ofWorkload w).init = (t, .ok ()) ∧
          t.execute routine = ({ t with output? := some output }, .ok ()) ∧
          output.Valid ∧ output.count ≤ w.outputLayout.2 ∧ output.stop ≤ w.endTime) := by
  obtain ⟨w, hw, h⟩ := Workload.ofSettings_admitted hcheck hsize number
  refine ⟨w, hw, by rw [ofSettings, hw]; rfl, fun htimes hbuffers => ?_⟩
  obtain ⟨inputs, hinputs, hready⟩ := h.inputs_ready htimes.inputs hbuffers.inputs
  have houtput : w.output = .ok (.allocate w.outputLayout.1 w.outputLayout.2 0) := by
    simp only [Workload.output, PlainRegion.allocate?, hbuffers.output, ↓reduceIte]
  -- The slots of the output are the number that the emissions keep to, so the run cannot fill it.
  have hemits := h.emits hready htimes.query (hbuffers.nested inputs hinputs)
  have hroom : 0 + w.outputLayout.2 ≤ slotCapacity w.outputLayout.2 := by
    have := le_leastPowerOfTwo w.outputLayout.2
    unfold slotCapacity
    omega
  obtain ⟨output, hrun, hvalid, hcount, hstop⟩ :=
    hemits.run (PlainRegion.valid_allocate w.outputLayout.1 w.outputLayout.2 0) rfl
      (Int.le_of_lt h.endTime_pos) hroom
  have henough : ¬ inputs.length < w.query.arity := by
    have := w.arity_query_le
    have := hready.length
    omega
  refine ⟨⟨serial, w.query.symbol, w.query.arity, w.query.run⟩,
    ⟨w, inputs, some (.allocate w.outputLayout.1 w.outputLayout.2 0)⟩, output, ?_, ?_, ?_, hvalid,
    (Nat.zero_add w.outputLayout.2 ▸ hcount), hstop⟩
  · rw [Backend.interpreter, h.query_check]
  · simp only [init, ofWorkload, hinputs, houtput]
  · simp only [execute, Routine.call, henough, ↓reduceIte, hrun]
    rfl

/-- Five elements three apart, averaged over windows of four. -/
theorem execute_average :
    let hash : TextHash := ⟨fun text => UInt64.ofNat text.length⟩
    let _ : RandomSource := KeyStream.source
    let s : Settings :=
      { scenario := .average, size := 5, period := 3, window? := some 4, seed := 7 }
    let w : Workload := ⟨.average, 5, 3, 4, 64, 8⟩
    s.check = .ok () ∧ Workload.ofSettings s 1 = .ok w ∧ w.TimesFit ∧ w.BuffersFit ∧
      ∃ routine t output, @Backend.interpreter hash 0 w.query = .ok routine ∧
        (ofWorkload w).init = (t, .ok ()) ∧
        t.execute routine = ({ t with output? := some output }, .ok ()) ∧
        output.count ≤ w.outputLayout.2 ∧ output.stop ≤ 15 := by
  intro hash _ s w
  have hwindows (reducer : Reducer) (kind : Kind) :
      (Query.tumbling (.input 0) 4 reducer kind).TimesFit 0 15 := by
    refine ⟨trivial, by decide, by decide, fun k hk => ?_⟩
    have := (mem_tickNumbers (by decide) k).mp hk
    rw [isInt64_iff, isInt64_iff]
    unfold minInt64 maxInt64
    omega
  have hbound (inputs : List View) (reducer : Reducer) (kind : Kind) :
      (Source.query (.tumbling (.input 0) 4 reducer kind)).BuffersFit inputs 0 15 := by
    refine ⟨trivial, fun n hn => ?_⟩
    cases hn
    decide
  have htimes : w.TimesFit := ⟨by decide, hwindows .sum .f32, hwindows .count .i64⟩
  have hbuffers : w.BuffersFit :=
    ⟨by decide, by decide, fun inputs _ => ⟨hbound inputs .sum .f32, hbound inputs .count .i64⟩⟩
  obtain ⟨_, hw, -, hrun⟩ := execute_of_accepted s 1 0 rfl (by decide)
  cases hw
  obtain ⟨routine, t, output, hcompile, hinit, hexecute, -, hcount, hstop⟩ := hrun htimes hbuffers
  exact ⟨rfl, rfl, htimes, hbuffers, routine, t, output, hcompile, hinit, hexecute, hcount, hstop⟩

/-- The query of every scenario has a routine. -/
theorem exists_routine [TextHash] {w : Workload} (h : w.Admitted) (serial : Nat) :
    ∃ routine, Backend.interpreter serial w.query = .ok routine := by
  rw [Backend.interpreter, h.query_check]
  exact ⟨_, rfl⟩

/-- Once the inputs are made, a trial comes down to a run of the query into an empty output. -/
theorem steps_of_ready [TextHash] [RandomSource] {w : Workload} {inputs : List View}
    {routine : Routine} {serial : Nat} (hcompile : Backend.interpreter serial w.query = .ok routine)
    (hinputs : w.inputs = .ok inputs) (hready : w.InputsReady inputs)
    (hfits : SpanLog.fits (slotCapacity w.outputLayout.2) = true) :
    let out := PlainRegion.allocate w.outputLayout.1 w.outputLayout.2 0
    (ofWorkload w).init = (⟨w, inputs, some out⟩, .ok ()) ∧
      execute routine ⟨w, inputs, some out⟩ =
        (⟨w, inputs, some (w.query.run inputs 0 w.endTime out).1⟩,
          (w.query.run inputs 0 w.endTime out).2.mapError .exec) := by
  intro out
  have houtput : w.output = .ok out := by
    simp only [Workload.output, PlainRegion.allocate?, hfits, ↓reduceIte, out]
  have henough : ¬ inputs.length < w.query.arity := by
    have := w.arity_query_le
    have := hready.length
    omega
  unfold Backend.interpreter at hcompile
  split at hcompile
  · cases hcompile
  cases hcompile
  refine ⟨?_, ?_⟩
  · simp only [init, ofWorkload, hinputs, houtput]
  · simp only [execute, Routine.call, henough, ↓reduceIte]

end Trial

end StreamGauge
