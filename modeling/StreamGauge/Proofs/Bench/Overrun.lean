import StreamGauge.Proofs.Bench.Trial
import StreamGauge.Proofs.Exec.Overrun

/-!
# Trials that overrun

The check of settings asks that the elements of an input stop within 64 bits. Windows and base
streams go on in steps of their own, to the first one past the end of the workload, and no check
asks where that is (`Workload.overrun`).

`Trial.times_fit_iff`: for accepted settings, this step is the only time that can leave 64 bits. A
trial runs to the end if it does not, and stops at this very time if it does: in `init` if it
belongs to a base stream, in `execute` if it is a tick.
-/

namespace StreamGauge

/-- Whether times go on in steps: the ticks of windows or the elements of a base stream. -/
def Scenario.hasSteps : Scenario → Bool
  | select | select8 | filter | filter8 | innerJoin | outerJoin | blockedSelect
  | blockedFilter => false
  | _ => true

theorem Settings.window_le (s : Settings) : s.window ≤ maxInt64 := by
  unfold window
  cases s.window? with
  | some window => exact Int64.toInt_le window
  | none => exact saturate_le_maxInt64 _

namespace Workload

/-- The first step past the end of a workload. -/
def overrun (w : Workload) : Int := w.stepsOf w.hop * w.hop

/-- The step past the end is within 64 bits, if there are steps. -/
def StepFits (w : Workload) : Prop := w.scenario.hasSteps = true → w.overrun ≤ maxInt64

instance (w : Workload) : Decidable w.StepFits :=
  inferInstanceAs (Decidable (w.scenario.hasSteps = true → w.overrun ≤ maxInt64))

section

variable {w : Workload} {inputs : List View}

theorem endTick_eq (w : Workload) (period : Int) :
    endTick 0 w.endTime period = w.stepsOf period * period := by
  rw [endTick, Int.zero_add, Int.sub_zero]
  rfl

section

variable (h : w.Admitted)

include h

theorem Admitted.endTime_le : w.endTime ≤ maxInt64 := by
  rw [h.endTime_eq]
  exact h.time_le

theorem Admitted.range_fits : isInt64 (w.endTime - 0) = true := by
  have hpos := h.endTime_pos
  have hle := h.endTime_le
  rw [isInt64_iff]
  unfold minInt64
  omega

/-- The steps up to the end are within 64 bits, and so are the times a window before them. -/
theorem Admitted.ticks_fit {length period : Int} (hlength : 0 < length) (hle : length ≤ maxInt64)
    (hperiod : 0 < period) :
    ∀ k ∈ tickNumbers 0 w.endTime period, isInt64 (0 + k * period) = true ∧
      isInt64 (0 + k * period - length) = true := by
  intro k hk
  have hend := h.endTime_le
  have htick := ((mem_tickNumbers hperiod k).mp hk).2
  have hnonneg : 0 ≤ (k : Int) * period :=
    Int.mul_nonneg (Int.natCast_nonneg k) (Int.le_of_lt hperiod)
  rw [isInt64_iff, isInt64_iff]
  unfold minInt64
  unfold maxInt64 at *
  omega

/-- Of the times of a window, only the tick that ends it can leave 64 bits. -/
theorem Admitted.window_timesFit_iff {source : Source} {length period : Int} {reducer : Reducer}
    {kind : Kind} (hlength : 0 < length) (hle : length ≤ maxInt64) (hperiod : 0 < period) :
    (Query.window source length period reducer kind).TimesFit 0 w.endTime ↔
      source.TimesFit 0 w.endTime ∧ w.stepsOf period * period ≤ maxInt64 := by
  have hpast := (endTick_spec hperiod (Int.le_of_lt h.endTime_pos)).1
  have hpos := h.endTime_pos
  have hend : isInt64 (endTick 0 w.endTime period) = true ↔
      w.stepsOf period * period ≤ maxInt64 := by
    rw [w.endTick_eq] at hpast
    rw [w.endTick_eq, isInt64_iff]
    unfold minInt64
    omega
  constructor
  · rintro ⟨hsource, -, hfits, -⟩
    exact ⟨hsource, hend.mp hfits⟩
  · rintro ⟨hsource, hfits⟩
    exact ⟨hsource, h.range_fits, hend.mpr hfits, h.ticks_fit hlength hle hperiod⟩

variable (hwindow : w.window ≤ maxInt64)

include hwindow

/-- The times of the query. -/
theorem Admitted.query_timesFit_iff :
    w.query.TimesFit 0 w.endTime ↔
      (w.scenario.hasSteps = true → w.scenario.isTwoStream = false → w.overrun ≤ maxInt64) := by
  have hpos := h.window_pos
  have hhop := h.hop_pos
  have htumbling {source : Source} {reducer : Reducer} {kind : Kind} :
      (Query.tumbling source w.window reducer kind).TimesFit 0 w.endTime ↔
        source.TimesFit 0 w.endTime ∧ w.stepsOf w.window * w.window ≤ maxInt64 :=
    h.window_timesFit_iff hpos hwindow hpos
  have hsliding {source : Source} {reducer : Reducer} {kind : Kind} :
      (Query.window source w.window w.hop reducer kind).TimesFit 0 w.endTime ↔
        source.TimesFit 0 w.endTime ∧ w.stepsOf w.hop * w.hop ≤ maxInt64 :=
    h.window_timesFit_iff hpos hwindow hhop
  cases hs : w.scenario with
  | slidingSum =>
    simp [query, hs, hsliding, Source.TimesFit, Scenario.hasSteps, Scenario.isTwoStream, overrun]
  | _ =>
    simp [query, hs, htumbling, Source.TimesFit, Query.TimesFit, Scenario.hasSteps,
      Scenario.isTwoStream, overrun, hop]

omit hwindow in
/-- The times of the inputs. -/
theorem Admitted.inputs_timesFit_iff :
    (∀ shape ∈ w.inputShapes, shape.length * shape.period ≤ maxInt64) ↔
      (w.scenario.isTwoStream = true → w.overrun ≤ maxInt64) := by
  have hfull : (w.fullShape.length : Int) * w.fullShape.period ≤ maxInt64 := h.time_le
  have hright : (w.rightLength : Int) * w.period.toInt ≤ maxInt64 := by
    have hsize := h.size_pos
    have hle : w.rightLength ≤ w.size.toNat := by
      unfold rightLength
      omega
    exact Int.le_trans (Int.mul_le_mul_of_nonneg_right (Int.ofNat_le.mpr hle)
      (Int.le_of_lt h.period_pos)) h.time_le
  cases hs : w.scenario with
  | _ =>
    simp [inputShapes, hs, Scenario.isTwoStream, hfull, hright, overrun, hop, baseLength]

theorem Admitted.timesFit_iff : w.TimesFit ↔ w.StepFits := by
  have htwo : w.scenario.isTwoStream = true → w.scenario.hasSteps = true := by
    cases w.scenario with
    | _ => decide
  constructor
  · rintro ⟨hinputs, hquery⟩ hsteps
    cases hkind : w.scenario.isTwoStream with
    | true => exact h.inputs_timesFit_iff.mp hinputs hkind
    | false => exact (h.query_timesFit_iff hwindow).mp hquery hsteps hkind
  · intro hfits
    exact ⟨h.inputs_timesFit_iff.mpr fun hkind => hfits (htwo hkind),
      (h.query_timesFit_iff hwindow).mpr fun hsteps _ => hfits hsteps⟩

end

/-! ## Steps that leave 64 bits -/

/-- An input of which only the last element stops too late cannot be made. -/
theorem uniformInput_overruns [RandomSource] {kind : Kind} (hkind : kind ≠ .u8) {period : Int}
    (hperiod : 0 < period) {n : Nat} (hfits : SpanLog.fits (slotCapacity (n + 1)) = true)
    (htime : n * period ≤ maxInt64) (hover : maxInt64 < (n + 1 : Nat) * period) (seed : UInt64) :
    uniformInput kind period (n + 1) seed =
      .error (.generator (.time ((n + 1 : Nat) * period))) := by
  obtain ⟨g, rfl, hlength, hempty, hcheck, -, hinput⟩ :=
    exists_uniformInput_fill hkind hperiod hfits seed
  have hbase : minInt64 ≤ (PlainRegion.allocate kind (n + 1) 0).stop :=
    show minInt64 ≤ 0 by decide
  have hlast : (PlainRegion.allocate kind (n + 1) 0).stop + n * g.period ≤ maxInt64 := by
    show 0 + n * g.period ≤ maxInt64
    omega
  rw [← hlength] at hover ⊢
  have hfill := UniformStream.fill_overruns hperiod hempty hbase hcheck hlength htime hlast hover
  rw [hlength] at hfill ⊢
  exact hinput _ _ (Prod.ext rfl hfill)

section

variable (h : w.Admitted) (hwindow : w.window ≤ maxInt64)

include h

/-- Windows over sound elements stop at the step past the end. -/
theorem Admitted.overruns_windows {source : Source} {P : Int → Prop} {v : View}
    (hv : source.Gives inputs 0 w.endTime P v) {length period : Int} (hlength : 0 < length)
    (hle : length ≤ maxInt64) (hperiod : 0 < period)
    (hover : maxInt64 < w.stepsOf period * period) {reducer : Reducer} {kind : Kind} :
    (Query.window source length period reducer kind).Overruns inputs 0 w.endTime (w.stepsOf period)
      (w.stepsOf period * period) := by
  have hend : isInt64 (endTick 0 w.endTime period) = false := by
    rw [← Bool.not_eq_true, isInt64_iff, w.endTick_eq]
    omega
  have hoverruns := @Query.Overruns.window inputs 0 w.endTime source P v length period reducer kind
    hv (Int.le_of_lt h.endTime_pos) hlength hperiod (h.ticks_fit hlength hle hperiod) hend
  rw [w.endTick_eq, Int.sub_zero] at hoverruns
  exact hoverruns.mono (Nat.le_succ _)

include hwindow

variable (hready : w.InputsReady inputs)

include hready

section One

variable (hfirst : w.inputShapes[0]? = some w.fullShape)

include hfirst

/-- Windows over an input do not come about as the source of another operator. -/
theorem Admitted.feed_windows_fails {reducer : Reducer} {kind : Kind}
    (hfit : (Source.query (Query.tumbling (.input 0) w.window reducer kind)).BuffersFit inputs 0
      w.endTime) (hover : maxInt64 < w.stepsOf w.window * w.window) :
    (Source.query (Query.tumbling (.input 0) w.window reducer kind)).feed inputs 0 w.endTime =
      .error (.fault (.time (w.stepsOf w.window * w.window))) := by
  have hpos := h.window_pos
  obtain ⟨v, -, hv⟩ := h.gives_full hready hfirst
  have hoverruns : (Query.tumbling (.input 0) w.window reducer kind).Overruns inputs 0 w.endTime
      (w.stepsOf w.window) (w.stepsOf w.window * w.window) :=
    h.overruns_windows hv hpos hwindow hpos hover
  have hslots := (List.getElem?_eq_some_iff.mp hfirst).1
  have hbound : (Query.tumbling (.input 0) w.window reducer kind).bound inputs 0 w.endTime =
      .ok (w.stepsOf w.window) := by
    have htick := tickBound_eq (Int.le_of_lt h.endTime_pos) hpos h.range_fits
    rw [Int.sub_zero] at htick
    exact htick
  exact hoverruns.feed (hready.length ▸ hslots) hbound (Nat.le_refl _) (hfit.2 _ hbound)

theorem Admitted.overruns_filteredWindows {reducer : Reducer} {kind : Kind}
    (hfit : (Query.tumbling (.query (.filter (.input 0) positive)) w.window reducer
      kind).BuffersFit inputs 0 w.endTime)
    (hover : maxInt64 < w.stepsOf w.window * w.window) :
    (Query.tumbling (.query (.filter (.input 0) positive)) w.window reducer kind).Overruns inputs 0
      w.endTime (w.stepsOf w.window) (w.stepsOf w.window * w.window) := by
  have hslots := (List.getElem?_eq_some_iff.mp hfirst).1
  obtain ⟨v, -, hv⟩ := h.gives_nested hready (h.emits_filter hready hfirst safe_positive) rfl
    hslots trivial hfit (Int.le_of_lt h.endTime_pos)
  exact h.overruns_windows hv h.window_pos hwindow h.window_pos hover

/-- The left windows are run first, so the join stops where they do. -/
theorem Admitted.overruns_average {left right : Reducer} {k k' kind : Kind} {expr : Expr} {n : Nat}
    (hfit : (Query.join (.query (Query.tumbling (.input 0) w.window left k))
      (.query (Query.tumbling (.input 0) w.window right k')) expr none kind).BuffersFit inputs 0
        w.endTime) (hover : maxInt64 < w.stepsOf w.window * w.window) :
    (Query.join (.query (Query.tumbling (.input 0) w.window left k))
      (.query (Query.tumbling (.input 0) w.window right k')) expr none kind).Overruns inputs 0
        w.endTime n (w.stepsOf w.window * w.window) := by
  have hfeed := h.feed_windows_fails hwindow hready hfirst hfit.1 hover
  refine .of_emissions ?_
  simp only [Query.emissions, hfeed]
  rfl

/-- The means of the windows are not there to be joined with the elements. -/
theorem Admitted.overruns_variance {inner outer : Reducer} {k k' kind : Kind} {expr : Expr}
    {n : Nat}
    (hfit : (Query.tumbling (.query (.join (.input 0)
      (.query (Query.tumbling (.input 0) w.window inner k)) expr none k')) w.window outer
      kind).BuffersFit inputs 0 w.endTime) (hover : maxInt64 < w.stepsOf w.window * w.window) :
    (Query.tumbling (.query (.join (.input 0)
      (.query (Query.tumbling (.input 0) w.window inner k)) expr none k')) w.window outer
      kind).Overruns inputs 0 w.endTime n (w.stepsOf w.window * w.window) := by
  have hslots := (List.getElem?_eq_some_iff.mp hfirst).1
  have hinput := List.getElem?_eq_getElem (hready.length ▸ hslots)
  have hfeed := h.feed_windows_fails hwindow hready hfirst hfit.1.2 hover
  have hjoin : (Query.join (.input 0) (.query (Query.tumbling (.input 0) w.window inner k)) expr
      none k').Overruns inputs 0 w.endTime 0 (w.stepsOf w.window * w.window) := by
    obtain ⟨v, -, hv⟩ := h.gives_full hready hfirst
    refine .of_emissions ?_
    simp only [Query.emissions, hv.feed, hfeed]
    rfl
  have htick := tickBound_eq (Int.le_of_lt h.endTime_pos) h.window_pos h.range_fits
  have hbound : ∃ m, (Query.join (.input 0) (.query (Query.tumbling (.input 0) w.window inner k))
      expr none k').bound inputs 0 w.endTime = .ok m := by
    simp only [Query.bound, Source.bound, Query.tumbling, inputAt, hinput, htick]
    exact ⟨_, rfl⟩
  obtain ⟨m, hbound⟩ := hbound
  have harity : max 1 1 ≤ inputs.length := by
    rw [hready.length]
    exact Nat.max_le.mpr ⟨hslots, hslots⟩
  have houter := hjoin.feed harity hbound (Nat.zero_le m) (hfit.2 m hbound)
  refine .of_emissions ?_
  simp only [Query.tumbling, Query.emissions] at houter ⊢
  rw [houter]
  rfl

end One

/-- Every query of windows stops at the step past the end. -/
theorem Admitted.overruns (hfit : w.query.BuffersFit inputs 0 w.endTime)
    (hsteps : w.scenario.hasSteps = true) (hone : w.scenario.isTwoStream = false)
    (hover : maxInt64 < w.overrun) :
    w.query.Overruns inputs 0 w.endTime w.outputLayout.2 w.overrun := by
  have hpos := h.window_pos
  cases hs : w.scenario with
  | select | select8 | filter | filter8 | innerJoin | outerJoin | blockedSelect
  | blockedFilter =>
    rw [hs] at hsteps
    cases hsteps
  | baseDeltaSelect | baseDeltaFilter =>
    rw [hs] at hone
    cases hone
  | filteredSum | filteredSum8 | blockedFilteredSum =>
    simp only [query, hs] at hfit
    simp only [overrun, hop, hs] at hover
    simp only [query, outputLayout, overrun, hop, hs]
    exact h.overruns_filteredWindows hwindow hready (first_shape hs rfl) hfit hover
  | average =>
    simp only [query, hs] at hfit
    simp only [overrun, hop, hs] at hover
    simp only [query, outputLayout, overrun, hop, hs]
    exact h.overruns_average hwindow hready (first_shape hs rfl) hfit hover
  | variance =>
    simp only [query, hs] at hfit
    simp only [overrun, hop, hs] at hover
    simp only [query, outputLayout, overrun, hop, hs]
    exact h.overruns_variance hwindow hready (first_shape hs rfl) hfit hover
  | slidingSum =>
    obtain ⟨v, -, hv⟩ := h.gives_full hready (first_shape hs rfl)
    simp only [query, outputLayout, hs]
    exact h.overruns_windows hv hpos hwindow h.hop_pos hover
  | _ =>
    obtain ⟨v, -, hv⟩ := h.gives_full hready (first_shape hs rfl)
    simp only [overrun, hop, hs] at hover
    simp only [query, outputLayout, overrun, hop, hs]
    exact h.overruns_windows hv hpos hwindow hpos hover

omit hwindow hready in
/-- A base stream that goes on past 64 bits cannot be made. -/
theorem Admitted.inputs_overrun [RandomSource] (hfits : ∀ shape ∈ w.inputShapes, w.InputFits shape)
    (htwo : w.scenario.isTwoStream = true) (hover : maxInt64 < w.overrun) :
    w.inputs = .error (.generator (.time w.overrun)) := by
  have hpos := h.window_pos
  have hlast : ((w.endTime / w.window).toNat : Int) * w.window ≤ maxInt64 := by
    have hnonneg := Int.ediv_nonneg (Int.le_of_lt h.endTime_pos) (Int.le_of_lt hpos)
    rw [Int.toNat_of_nonneg hnonneg]
    exact Int.le_trans (Int.ediv_mul_le _ (Int.ne_of_gt hpos)) h.endTime_le
  -- The base comes first, so the deltas are not asked for.
  have hbase (hshapes : ⟨w.window, w.baseLength⟩ ∈ w.inputShapes)
      (hplain : w.scenario.isBlocked = false) (hhop : w.hop = w.window) :
      uniformInput .i64 w.window w.baseLength w.seed = .error (.generator (.time w.overrun)) := by
    have hfit := hfits _ hshapes
    rw [InputFits, hplain, if_neg Bool.false_ne_true] at hfit
    rw [overrun, hhop] at hover ⊢
    exact uniformInput_overruns (show Kind.i64 ≠ .u8 by decide) hpos hfit hlast hover w.seed
  cases hs : w.scenario with
  | baseDeltaSelect | baseDeltaFilter =>
    have hfailed := hbase (by simp [inputShapes, hs]) (by rw [hs]; rfl) (by simp only [hop, hs])
    simp only [inputs, hs, hfailed]
    rfl
  | _ =>
    rw [hs] at htwo
    cases htwo

end

end

end Workload

/-! ## Trials -/

namespace Trial

/-- The times of a trial of accepted settings, whatever their scenario, seed and instance. The size
has to be a signed 64-bit number.

* The query reads as far as the last element of an input goes.
* All times are within 64 bits if and only if the first step past the end of the workload is, or
  if the scenario has no steps.
* If there are buffers, and this step is within 64 bits, the trial runs to the end.
* If there are buffers, and it is not, the trial stops because of this time: if it belongs to a base
  stream, the input is not made; if it is a tick, the routine stops there. -/
theorem times_fit_iff [TextHash] [RandomSource] (s : Settings) (number serial : Nat)
    (hcheck : s.check = .ok ()) (hsize : (s.size.toNat : Int) ≤ maxInt64) :
    ∃ w, Workload.ofSettings s number = .ok w ∧
      w.endTime = w.size.toNat * w.period.toInt ∧ (w.TimesFit ↔ w.StepFits) ∧
      (w.BuffersFit → ∃ routine, Backend.interpreter serial w.query = .ok routine ∧
        (w.StepFits → ∃ t t', (ofWorkload w).init = (t, .ok ()) ∧
          t.execute routine = (t', .ok ())) ∧
        (¬ w.StepFits → w.scenario.isTwoStream = true →
          (ofWorkload w).init = (ofWorkload w, .error (.generator (.time w.overrun)))) ∧
        (¬ w.StepFits → w.scenario.isTwoStream = false →
          ∃ t t', (ofWorkload w).init = (t, .ok ()) ∧
            t.execute routine = (t', .error (.exec (.fault (.time w.overrun)))))) := by
  obtain ⟨w, hw, h⟩ := Workload.ofSettings_admitted hcheck hsize number
  have hwindow : w.window ≤ maxInt64 := by
    rw [Workload.ofSettings, hcheck] at hw
    cases hw
    exact s.window_le
  have htimes := h.timesFit_iff hwindow
  refine ⟨w, hw, h.endTime_eq, htimes, fun hbuffers => ?_⟩
  have hroom : 0 + w.outputLayout.2 ≤ slotCapacity w.outputLayout.2 := by
    have := le_leastPowerOfTwo w.outputLayout.2
    unfold slotCapacity
    omega
  let out := PlainRegion.allocate w.outputLayout.1 w.outputLayout.2 0
  have hout : out.Valid := PlainRegion.valid_allocate w.outputLayout.1 w.outputLayout.2 0
  obtain ⟨routine, hcompile⟩ := exists_routine h serial
  -- Either way the inputs are made, and the trial ends as its query does.
  have hends : (∀ shape ∈ w.inputShapes, shape.length * shape.period ≤ maxInt64) →
      ∀ ended : Except ExecError Unit, (∀ inputs, w.inputs = .ok inputs → w.InputsReady inputs →
        (w.query.run inputs 0 w.endTime out).2 = ended) →
      ∃ t t', (ofWorkload w).init = (t, .ok ()) ∧
        t.execute routine = (t', ended.mapError .exec) := by
    intro hshapes ended hrun
    obtain ⟨inputs, hinputs, hready⟩ := h.inputs_ready hshapes hbuffers.inputs
    obtain ⟨hinit, hexecute⟩ := steps_of_ready hcompile hinputs hready hbuffers.output
    rw [hrun inputs hinputs hready] at hexecute
    exact ⟨_, _, hinit, hexecute⟩
  refine ⟨routine, hcompile, fun hfits => ?_, fun hnot htwo => ?_, fun hnot hone => ?_⟩
  · obtain ⟨hshapes, hquery⟩ := htimes.mpr hfits
    refine hends hshapes (.ok ()) fun inputs hinputs hready => ?_
    have hemits := h.emits hready hquery (hbuffers.nested inputs hinputs)
    obtain ⟨out', hrun, -⟩ := hemits.run hout rfl (Int.le_of_lt h.endTime_pos) hroom
    rw [hrun]
  · have hover := (Decidable.not_imp_iff_and_not.mp hnot).2
    simp only [init, ofWorkload, h.inputs_overrun hbuffers.inputs htwo (Int.not_le.mp hover)]
  · obtain ⟨hsteps, hover⟩ := Decidable.not_imp_iff_and_not.mp hnot
    have hshapes := h.inputs_timesFit_iff.mpr fun htwo => by
      rw [hone] at htwo
      cases htwo
    refine hends hshapes (.error (.fault (.time w.overrun))) fun inputs hinputs hready => ?_
    exact h.overruns hwindow hready (hbuffers.nested inputs hinputs) hsteps hone
      (Int.not_le.mp hover) out hout (Int.le_refl 0) hroom

/-- One element and one window of the same length, half of what 64 bits hold. The window is there;
the tick after it is not. -/
theorem times_fit_iff_of_window :
    let hash : TextHash := ⟨fun text => UInt64.ofNat text.length⟩
    let _ : RandomSource := KeyStream.source
    let s : Settings :=
      { scenario := .sum, size := 1, period := 4611686018427387904,
        window? := some 4611686018427387904 }
    let w : Workload := ⟨.sum, 1, 4611686018427387904, 4611686018427387904, 64, 42⟩
    s.check = .ok () ∧ Workload.ofSettings s 0 = .ok w ∧ w.BuffersFit ∧ ¬ w.TimesFit ∧
      ∃ routine t t', @Backend.interpreter hash 0 w.query = .ok routine ∧
        (ofWorkload w).init = (t, .ok ()) ∧
        t.execute routine = (t', .error (.exec (.fault (.time 9223372036854775808)))) := by
  intro hash _ s w
  have hdefect : s.defect? = none := by decide
  have hcheck : s.check = .ok () := by rw [Settings.check, hdefect]
  have hof : Workload.ofSettings s 0 = .ok w := by rw [Workload.ofSettings, hcheck]; decide
  obtain ⟨_, hw, -, htimes, hsteps⟩ := times_fit_iff s 0 0 hcheck (by decide)
  cases hof.symm.trans hw
  have hbuffers : w.BuffersFit := ⟨by decide, by decide, fun _ _ => trivial⟩
  have hnot : ¬ w.StepFits := by decide
  have hover : w.overrun = 9223372036854775808 := by decide
  obtain ⟨routine, hcompile, -, -, hfails⟩ := hsteps hbuffers
  obtain ⟨t, t', hinit, hexecute⟩ := hfails hnot rfl
  rw [hover] at hexecute
  exact ⟨hcheck, hof, hbuffers, mt htimes.mp hnot, routine, t, t', hcompile, hinit, hexecute⟩

end Trial

end StreamGauge
