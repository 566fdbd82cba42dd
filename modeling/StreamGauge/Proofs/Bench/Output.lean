import StreamGauge.Proofs.Bench.Trial
import StreamGauge.Proofs.Exec.Committed

/-!
# What a trial leaves

`Workload.Leaves` says that a trial runs to the end, and which elements its output has then. They
are those that its query commits (`Workload.Admitted.leaves`).

`Workload.PlainInput` is shared by the scenarios over one input of evenly spread values. Windows
over such an input are known in full, be they the query itself (`PlainInput.committed_windows`) or
the source of another operator (`PlainInput.gives_windows`).
-/

namespace StreamGauge

/-! ## Elements and when they start -/

namespace View

variable {v : View} {start stop period : Int} {n : Nat}

theorem elementsIn_eq_elements
    (h : ∀ e ∈ v.elements, start ≤ e.span.start ∧ e.span.start < stop) :
    v.elementsIn start stop = v.elements := by
  refine List.filter_eq_self.mpr fun e he => ?_
  obtain ⟨hlo, hhi⟩ := h e he
  simp [Element.startsIn, hlo, hhi]

theorem Steady.exists_span (h : v.Steady period n) {e : Element} (he : e ∈ v.elements) :
    ∃ i < n, e.span = ⟨i * period, period⟩ := by
  obtain ⟨i, hi, rfl⟩ := List.mem_iff_getElem.mp he
  have hlt : i < n := by rwa [length_elements h.sound.valid, h.size] at hi
  have hspan := (getElem_elements h.sound.valid hi).1
  rw [h.span? i hlt, Option.some.injEq] at hspan
  exact ⟨i, hlt, hspan.symm⟩

theorem Steady.exists_element (h : v.Steady period n) {i : Nat} (hi : i < n) :
    ∃ e ∈ v.elements, e.span = ⟨i * period, period⟩ := by
  have hlt : i < v.elements.length := by rwa [length_elements h.sound.valid, h.size]
  have hspan := (getElem_elements h.sound.valid hlt).1
  rw [h.span? i hi, Option.some.injEq] at hspan
  exact ⟨_, List.getElem_mem hlt, hspan.symm⟩

theorem Steady.value?_isSome (h : v.Steady period n) : ∀ e ∈ v.elements, e.value?.isSome :=
  h.sound.noOverflow.value?_isSome h.sound.valid

end View

namespace Workload

variable {w : Workload}

/-! ## The output -/

/-- The trial of a workload runs to the end. Its output then has these elements. -/
def Leaves [TextHash] [RandomSource] (w : Workload) (es : List Element) : Prop :=
  ∀ serial, ∃ routine t output, Backend.interpreter serial w.query = .ok routine ∧
    (Trial.ofWorkload w).init = (t, .ok ()) ∧
    t.execute routine = ({ t with output? := some output }, .ok ()) ∧
    output.elements = es ∧ output.count = es.length

/-- A trial leaves what its query commits. -/
theorem Admitted.leaves [TextHash] [RandomSource] (h : w.Admitted) {inputs : List View}
    (hinputs : w.inputs = .ok inputs) (hready : w.InputsReady inputs) (htimes : w.TimesFit)
    (hbuffers : w.BuffersFit) :
    w.Leaves (w.query.committed inputs 0 w.endTime w.outputLayout.1 0) := by
  intro serial
  let out := PlainRegion.allocate w.outputLayout.1 w.outputLayout.2 0
  have hout : out.Valid := PlainRegion.valid_allocate w.outputLayout.1 w.outputLayout.2 0
  have hroom : 0 + w.outputLayout.2 ≤ slotCapacity w.outputLayout.2 := by
    have := le_leastPowerOfTwo w.outputLayout.2
    unfold slotCapacity
    omega
  obtain ⟨routine, hcompile⟩ := Trial.exists_routine h serial
  obtain ⟨hinit, hexecute⟩ := Trial.steps_of_ready hcompile hinputs hready hbuffers.output
  have hemits := h.emits hready htimes.query (hbuffers.nested inputs hinputs)
  obtain ⟨out', hrun, hvalid, -⟩ := hemits.run hout rfl (Int.le_of_lt h.endTime_pos) hroom
  have helements : out'.elements = w.query.committed inputs 0 w.endTime w.outputLayout.1 0 :=
    (Query.extends_committed hrun hout).elements
  rw [hrun] at hexecute
  refine ⟨routine, _, out', hcompile, hinit, hexecute, helements, ?_⟩
  rw [← helements, hvalid.length_elements]

/-- There is a buffer for what windows over an input produce, if there is one for their ticks. -/
theorem buffersFit_windows {slot n : Nat} {start stop length : Int} {reducer : Reducer}
    {kind : Kind} (hbound : tickBound start stop length = .ok n)
    (hfits : SpanLog.fits (slotCapacity n) = true) (inputs : List View) :
    (Source.query (Query.tumbling (.input slot) length reducer kind)).BuffersFit inputs start
      stop := by
  refine ⟨trivial, fun m hm => ?_⟩
  cases hbound.symm.trans hm
  exact hfits

/-! ## One plain input -/

/-- The only input has all the elements and does not lie in blocks. -/
structure PlainInput [RandomSource] (w : Workload) (v : View) : Prop where
  inputs : w.inputs = .ok [v]
  ready : w.InputsReady [v]
  first : w.inputShapes[0]? = some w.fullShape
  plain : v.blocks? = none
  steady : v.Steady w.period.toInt w.size.toNat

theorem plain_of_uniformInput [RandomSource] {kind : Kind} {period : Int} {n : Nat} {seed : UInt64}
    {v : View}
    (h : uniformInput kind period n seed = .ok v) : v.blocks? = none := by
  unfold uniformInput at h
  split at h
  · cases h
  split at h
  · cases h
  split at h
  · cases h
    rfl
  · cases h

section

variable (hs : w.scenario ∈ [.average, .averageOnePass, .variance, .varianceOnePass])

include hs

/-- The averages and variances of plain elements have one input. -/
theorem inputs_of_plain [RandomSource] :
    w.inputs = uniformInput w.scenario.uniformKind w.period.toInt w.size.toNat w.seed >>=
      (fun v => .ok [v]) ∧ w.inputShapes = [w.fullShape] ∧ w.scenario.isBlocked = false := by
  simp only [List.mem_cons, List.not_mem_nil, or_false] at hs
  unfold Workload.inputs inputShapes
  rcases hs with hs | hs | hs | hs <;> rw [hs] <;> exact ⟨rfl, rfl, rfl⟩

/-- There are no buffers for more elements than a signed 64-bit number counts. -/
theorem BuffersFit.size_le [RandomSource] (h : w.BuffersFit) : (w.size.toNat : Int) ≤ maxInt64 := by
  obtain ⟨-, hshapes, hplain⟩ := inputs_of_plain hs
  have hfits := h.inputs w.fullShape (hshapes ▸ List.mem_cons_self)
  rw [InputFits, hplain, if_neg Bool.false_ne_true, SpanLog.fits, decide_eq_true_eq] at hfits
  have hroom : w.size.toNat ≤ slotCapacity w.fullShape.length := le_leastPowerOfTwo _
  unfold SpanLog.entryBytes maxBufferBytes at hfits
  unfold maxInt64
  omega

theorem Admitted.plainInput [RandomSource] (h : w.Admitted)
    (htimes : ∀ shape ∈ w.inputShapes, shape.length * shape.period ≤ maxInt64)
    (hfits : ∀ shape ∈ w.inputShapes, w.InputFits shape) : ∃ v, w.PlainInput v := by
  obtain ⟨hone, hshapes, -⟩ := inputs_of_plain hs
  obtain ⟨inputs, hinputs, hready⟩ := h.inputs_ready htimes hfits
  obtain ⟨v, hv, hmade⟩ := eq_ok_of_bind (hone.symm.trans hinputs)
  cases hmade
  have hfirst : w.inputShapes[0]? = some w.fullShape := by rw [hshapes]; rfl
  obtain ⟨u, hu, hsteady⟩ := hready.steady 0 _ hfirst
  cases hu
  exact ⟨v, hinputs, hready, hfirst, plain_of_uniformInput hv, hsteady⟩

end

namespace PlainInput

variable [RandomSource] {v : View} (hv : w.PlainInput v) (h : w.Admitted)

include hv

theorem inOrder : InOrder v.elements := hv.steady.sound.wellFormed.inOrder hv.steady.sound.valid

include h

/-- An element lasts a period and starts at a multiple of it. -/
theorem times {e : Element} (he : e ∈ v.elements) :
    0 ≤ e.span.start ∧ w.period.toInt ∣ e.span.start ∧
      e.span.stop = e.span.start + w.period.toInt := by
  obtain ⟨i, -, hspan⟩ := hv.steady.exists_span he
  rw [hspan]
  exact ⟨Int.mul_nonneg (Int.natCast_nonneg i) (Int.le_of_lt h.period_pos), Int.dvd_mul_left ..,
    rfl⟩

/-- The elements go from zero to the end without a gap. -/
theorem exists_during {t : Int} (hstart : 0 ≤ t) (hend : t < w.endTime) :
    ∃ e ∈ v.elements, e.span.start ≤ t ∧ t < e.span.stop := by
  have hperiod := h.period_pos
  obtain ⟨i, hi⟩ := Int.eq_ofNat_of_zero_le (Int.ediv_nonneg hstart (Int.le_of_lt hperiod))
  have hle : (i : Int) * w.period.toInt ≤ t := hi ▸ Int.ediv_mul_le _ (Int.ne_of_gt hperiod)
  have hlt : t < ((i : Int) + 1) * w.period.toInt := hi ▸ Int.lt_ediv_add_one_mul_self _ hperiod
  rw [h.endTime_eq] at hend
  have hsize : (i : Int) < w.size.toNat :=
    Int.lt_of_mul_lt_mul_right (a := w.period.toInt) (by omega) (Int.le_of_lt hperiod)
  obtain ⟨e, he, hspan⟩ := hv.steady.exists_element (Int.ofNat_lt.mp hsize)
  rw [Int.add_mul, Int.one_mul] at hlt
  exact ⟨e, he, by rw [hspan]; exact hle, by rw [hspan]; exact hlt⟩

theorem elementsIn_eq : v.elementsIn 0 w.endTime = v.elements := by
  refine View.elementsIn_eq_elements fun e he => ?_
  obtain ⟨hstart, -, hstop⟩ := hv.times h he
  have hlast := (hv.steady.times h.period_pos he).2.2
  have hperiod := h.period_pos
  rw [h.endTime_eq]
  omega

theorem mem_windowAt {length tick : Int} {e : Element} :
    e ∈ windowAt v.elements 0 w.endTime length tick ↔
      e ∈ v.elements ∧ tick - length < e.span.stop ∧ e.span.stop ≤ tick := by
  rw [windowAt, List.mem_filter, Element.inWindow_iff]
  constructor
  · rintro ⟨he, -, hin⟩
    exact ⟨he, hin⟩
  · rintro ⟨he, hin⟩
    have hstarts := hv.elementsIn_eq h ▸ he
    exact ⟨he, by simpa [Element.startsIn] using (List.mem_filter.mp hstarts).2, hin⟩

theorem gives : (Source.input 0).Gives [v] 0 w.endTime (w.GridTime w.period.toInt) v := by
  refine .input rfl hv.steady.sound fun e he => ?_
  have htimes := hv.steady.times h.period_pos (List.mem_filter.mp he).1
  rwa [← h.endTime_eq] at htimes

/-- What windows over the input commit. -/
theorem committed_windows {reducer : Reducer} {output : Kind}
    (htimes : (Query.tumbling (.input 0) w.window reducer output).TimesFit 0 w.endTime)
    (kind : Kind) :
    (Query.tumbling (.input 0) w.window reducer output).committed [v] 0 w.endTime kind 0 =
      reducer.windows v.elements 0 w.endTime w.window w.window kind :=
  Query.committed_window (hv.gives h) hv.plain (Int.le_of_lt h.endTime_pos) h.window_pos
    h.window_pos htimes kind

/-- What a trial of windows over the input leaves. -/
theorem leaves_windows [TextHash] (htimes : w.TimesFit) (hbuffers : w.BuffersFit)
    {reducer : Reducer} {output : Kind}
    (hquery : w.query = Query.tumbling (.input 0) w.window reducer output) :
    w.Leaves (reducer.windows v.elements 0 w.endTime w.window w.window w.outputLayout.1) := by
  have hleaves := h.leaves hv.inputs hv.ready htimes hbuffers
  rwa [hquery, hv.committed_windows h (hquery ▸ htimes.query)] at hleaves

/-- What an operator around windows over the input reads. -/
theorem gives_windows {reducer : Reducer} {kind : Kind}
    (htimes : (Query.tumbling (.input 0) w.window reducer kind).TimesFit 0 w.endTime)
    (hfit : (Source.query (Query.tumbling (.input 0) w.window reducer kind)).BuffersFit [v] 0
      w.endTime) :
    ∃ u, (Source.query (Query.tumbling (.input 0) w.window reducer kind)).Gives [v] 0 w.endTime
        (w.GridTime w.window) u ∧
      u.elementsIn 0 w.endTime = reducer.windows v.elements 0 w.endTime w.window w.window kind := by
  obtain ⟨u, hu⟩ := h.gives_windows hv.ready hv.first htimes hfit
  have helements := (hu.committed rfl).2
  rw [hv.committed_windows h htimes] at helements
  refine ⟨u, hu, ?_⟩
  rw [← helements]
  refine View.elementsIn_eq_elements fun e he => ?_
  rw [helements] at he
  obtain ⟨k, hk, x, -, rfl⟩ := Reducer.mem_windows.mp he
  have hwindow := h.window_pos
  obtain ⟨hone, hlast⟩ := (mem_tickNumbers hwindow k).mp hk
  have hbefore : ((k - 1 : Nat) : Int) * w.window < k * w.window :=
    Int.mul_lt_mul_of_pos_right (by omega) hwindow
  have hnonneg : 0 ≤ ((k - 1 : Nat) : Int) * w.window :=
    Int.mul_nonneg (Int.natCast_nonneg _) (Int.le_of_lt hwindow)
  change 0 ≤ 0 + ((k - 1 : Nat) : Int) * w.window ∧ 0 + ((k - 1 : Nat) : Int) * w.window < _
  omega

end PlainInput

/-! ### One pass instead of two -/

end Workload

/-- The scenario that reduces each window once. -/
def Scenario.onePass : Scenario → Scenario
  | average => averageOnePass
  | variance => varianceOnePass
  | s => s

namespace Workload

/-- The same workload in one pass. -/
def inOnePass (w : Workload) : Workload := { w with scenario := w.scenario.onePass }

section

variable {w : Workload} {v : View} (hs : w.scenario = .average ∨ w.scenario = .variance)

include hs

theorem TimesFit.inOnePass (h : w.TimesFit) : w.inOnePass.TimesFit := by
  obtain ⟨scenario, size, period, window, blockSize, seed⟩ := w
  rcases hs with rfl | rfl
  · exact ⟨h.inputs, h.query.1⟩
  · exact ⟨h.inputs, trivial, h.query.2⟩

theorem BuffersFit.inOnePass [RandomSource] (h : w.BuffersFit) : w.inOnePass.BuffersFit := by
  obtain ⟨scenario, size, period, window, blockSize, seed⟩ := w
  rcases hs with rfl | rfl
  · exact ⟨h.inputs, h.output, fun _ _ => trivial⟩
  · exact ⟨h.inputs, h.output, fun _ _ => trivial⟩

/-- It has the same input. -/
theorem PlainInput.inOnePass [RandomSource] (h : w.PlainInput v) : w.inOnePass.PlainInput v := by
  obtain ⟨scenario, size, period, window, blockSize, seed⟩ := w
  rcases hs with rfl | rfl
  · exact ⟨h.inputs, ⟨h.ready.length, h.ready.steady⟩, h.first, h.plain, h.steady⟩
  · exact ⟨h.inputs, ⟨h.ready.length, h.ready.steady⟩, h.first, h.plain, h.steady⟩

end

end Workload

end StreamGauge
