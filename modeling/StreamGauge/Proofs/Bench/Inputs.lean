import StreamGauge.Bench.Workload
import StreamGauge.Proofs.Exec.Run
import StreamGauge.Proofs.Generator.BlockTotals
import StreamGauge.Proofs.Generator.Uniform

/-!
# The inputs of a workload

* `Settings.Accepted` says what the check of settings asks, `Workload.Admitted` what follows for
  their instances: times and sizes are not cut to 64 bits.
* `View.Steady` is what every generator makes of an empty region: elements that last one period
  each, from time zero on.
* `Workload.Admitted.inputs_ready`: all inputs of an instance can be made, as long and as coarse as
  `Workload.inputShapes` says, if their times are within 64 bits and there are buffers for them.
-/

namespace StreamGauge

/-! ## Settings -/

/-- What the check of settings asks. -/
structure Settings.Accepted (s : Settings) : Prop where
  size : s.size ≠ 0
  period : ¬ s.period ≤ 0
  window : ¬ s.window ≤ 0
  blockSize : s.blockSize ≠ 0
  duration : saturate (s.duration s.size) = s.duration s.size
  blockSpan : s.scenario.isBlocked = true → 0 ≤ s.blockSpan ∧ s.blockSpan < UInt32.size

theorem ite_some_eq_none_iff {α : Type} {p : Prop} [Decidable p] {a : α} {rest : Option α} :
    (if p then some a else rest) = none ↔ ¬ p ∧ rest = none := by
  split <;> simp_all

/-- Settings are accepted if each of the conditions holds that the check goes through. -/
theorem Settings.check_eq_ok_iff {s : Settings} :
    s.check = .ok () ↔ s.Accepted ∧ s.threads ≠ 0 ∧
      (s.scenario.isTwoStream = true → s.period.toInt ≤ s.window) := by
  have hnone : s.check = .ok () ↔ s.defect? = none := by
    unfold check
    split <;> simp_all
  rw [hnone]
  simp only [defect?, ite_some_eq_none_iff, and_true, Decidable.not_not,
    Decidable.not_and_not_right]
  simp only [not_and, Int.not_lt]
  constructor
  · rintro ⟨hsize, hthreads, hperiod, hwindow, hblockSize, hduration, hcoarse, hspan⟩
    exact ⟨⟨hsize, hperiod, hwindow, hblockSize, hduration, hspan⟩, hthreads, hcoarse⟩
  · rintro ⟨⟨hsize, hperiod, hwindow, hblockSize, hduration, hspan⟩, hthreads, hcoarse⟩
    exact ⟨hsize, hthreads, hperiod, hwindow, hblockSize, hduration, hcoarse, hspan⟩

theorem Settings.accepted_of_check {s : Settings} (h : s.check = .ok ()) : s.Accepted :=
  (check_eq_ok_iff.mp h).1

/-- A 64-bit number below `2 ^ 63` reads as itself as a signed one, any other as a negative one. -/
theorem toInt_toInt64 (n : UInt64) :
    n.toInt64.toInt = if (n.toNat : Int) ≤ maxInt64 then (n.toNat : Int)
      else n.toNat - 18446744073709551616 := by
  have hbits : n.toInt64.toInt = n.toBitVec.toInt := rfl
  have hnat : n.toBitVec.toNat = n.toNat := rfl
  rw [hbits, BitVec.toInt_eq_toNat_cond, hnat]
  unfold maxInt64
  split <;> split <;> omega

theorem Settings.Accepted.period_pos {s : Settings} (h : s.Accepted) : 0 < s.period.toInt := by
  have := h.period
  rw [Int64.le_iff_toInt_le] at this
  exact Int.not_le.mp this

/-- A block of accepted settings lasts no longer than a 32-bit offset says. A block size that reads
as a negative number has no span at all. -/
theorem Settings.Accepted.blockSpan_lt {s : Settings} (h : s.Accepted)
    (hblocked : s.scenario.isBlocked = true) :
    s.blockSize.toNat * s.period.toInt < UInt32.size := by
  obtain ⟨hnonneg, hlt⟩ := h.blockSpan hblocked
  have hmax : (UInt32.size : Int) ≤ maxInt64 := by decide
  unfold Settings.blockSpan Settings.duration at hnonneg hlt
  rw [toInt_toInt64] at hnonneg hlt
  split at hnonneg
  case isTrue hsmall =>
    rw [if_pos hsmall] at hlt
    unfold saturate at hlt
    rw [Int.mul_comm]
    omega
  case isFalse hlarge =>
    have hnegative : s.period.toInt * ((s.blockSize.toNat : Int) - 18446744073709551616) < 0 :=
      Int.mul_neg_of_pos_of_neg h.period_pos (by have := s.blockSize.toNat_lt; omega)
    unfold saturate minInt64 at hnonneg
    omega

namespace Workload

/-- What the instances of accepted settings keep to, if the size is a signed 64-bit number. -/
structure Admitted (w : Workload) : Prop where
  size_pos : 0 < w.size.toNat
  period_pos : 0 < w.period.toInt
  window_pos : 0 < w.window
  size_le : (w.size.toNat : Int) ≤ maxInt64
  time_le : w.size.toNat * w.period.toInt ≤ maxInt64
  blockSize_pos : 0 < w.blockSize.toNat
  blockSpan_lt : w.scenario.isBlocked = true →
    w.blockSize.toNat * w.period.toInt < UInt32.size

theorem toNat_pos {n : UInt64} (h : n ≠ 0) : 0 < n.toNat := by
  refine Nat.pos_of_ne_zero fun hzero => h ?_
  exact UInt64.toNat_inj.mp hzero

theorem admitted_of_accepted {s : Settings} (h : s.Accepted)
    (hsize : (s.size.toNat : Int) ≤ maxInt64) (seed : UInt64) :
    Admitted ⟨s.scenario, s.size, s.period, s.window, s.blockSize, seed⟩ := by
  have hduration := saturate_le_maxInt64 (s.duration s.size)
  rw [h.duration, Settings.duration, toInt_toInt64, if_pos hsize, Int.mul_comm] at hduration
  exact ⟨toNat_pos h.size, h.period_pos, Int.not_le.mp h.window, hsize, hduration,
    toNat_pos h.blockSize, h.blockSpan_lt⟩

/-- Accepted settings have an instance of every number. -/
theorem ofSettings_admitted {s : Settings} (hcheck : s.check = .ok ())
    (hsize : (s.size.toNat : Int) ≤ maxInt64) (number : Nat) :
    ∃ w, ofSettings s number = .ok w ∧ w.Admitted := by
  refine ⟨_, ?_, admitted_of_accepted (Settings.accepted_of_check hcheck) hsize
    (s.seed + UInt64.ofNat number)⟩
  rw [ofSettings, hcheck]

/-- Every instance of settings is admitted. -/
theorem admitted_of_ofSettings {s : Settings} {number : Nat} {w : Workload}
    (h : ofSettings s number = .ok w) (hsize : (s.size.toNat : Int) ≤ maxInt64) : w.Admitted := by
  cases hcheck : s.check with
  | error e =>
    rw [ofSettings, hcheck] at h
    cases h
  | ok _ =>
    obtain ⟨_, hw, hadmitted⟩ := ofSettings_admitted hcheck hsize number
    cases h.symm.trans hw
    exact hadmitted

/-- The query reads as far as the last element of an input goes. -/
theorem Admitted.endTime_eq {w : Workload} (h : w.Admitted) :
    w.endTime = w.size.toNat * w.period.toInt := by
  have hnonneg : 0 ≤ (w.size.toNat : Int) * w.period.toInt :=
    Int.mul_nonneg (Int.natCast_nonneg _) (Int.le_of_lt h.period_pos)
  have hle := h.time_le
  unfold maxInt64 at hle
  rw [endTime, Int64.toInt_mul, toInt_toInt64, if_pos h.size_le, Int.mul_comm,
    Int.bmod_eq_of_le (by omega) (by omega)]

theorem Admitted.endTime_pos {w : Workload} (h : w.Admitted) : 0 < w.endTime := by
  rw [h.endTime_eq]
  exact Int.mul_pos (Int.ofNat_lt.mpr h.size_pos) h.period_pos

end Workload

/-! ## Evenly timed elements -/

/-- The view has `n` elements that last one period each, from time zero on. -/
structure View.Steady (v : View) (period : Int) (n : Nat) : Prop where
  sound : v.Sound
  size : v.size = n
  span? : ∀ i < n, v.span? i = some ⟨i * period, period⟩

namespace View

variable {v : View} {period : Int} {n : Nat}

theorem wellFormed_of_span? (hperiod : 0 < period)
    (hspan : ∀ i < v.size, v.span? i = some ⟨i * period, period⟩) : v.WellFormed where
  length_pos i hi s hs := by
    rw [hspan i hi] at hs
    cases hs
    exact hperiod
  ordered i hi s t hs ht := by
    rw [hspan i (by omega)] at hs
    rw [hspan (i + 1) hi] at ht
    cases hs
    cases ht
    show (i : Int) * period + period ≤ ((i + 1 : Nat) : Int) * period
    rw [Int.natCast_add, Int.add_mul]
    omega

/-- An element begins and ends at a multiple of the period. -/
theorem Steady.times (h : v.Steady period n) (hperiod : 0 < period) {e : Element}
    (he : e ∈ v.elements) :
    (period ∣ e.span.start ∧ e.span.start ≤ n * period) ∧
      period ∣ e.span.stop ∧ e.span.stop ≤ n * period := by
  obtain ⟨i, hi, rfl⟩ := List.mem_iff_getElem.mp he
  have hlt : i < n := by rwa [length_elements h.sound.valid, h.size] at hi
  have hspan := (getElem_elements h.sound.valid hi).1
  rw [h.span? i hlt, Option.some.injEq] at hspan
  have hnext : ((i + 1 : Nat) : Int) * period ≤ n * period :=
    Int.mul_le_mul_of_nonneg_right (Int.ofNat_le.mpr hlt) (Int.le_of_lt hperiod)
  rw [Int.natCast_add, Int.add_mul] at hnext
  rw [← hspan, Span.stop]
  refine ⟨⟨Int.dvd_mul_left .., ?_⟩, ?_, ?_⟩
  · show (i : Int) * period ≤ n * period
    omega
  · exact Int.dvd_add (Int.dvd_mul_left ..) (Int.dvd_refl period)
  · show (i : Int) * period + period ≤ n * period
    omega

end View

/-- A stream of evenly spread values fills an empty region steadily. -/
theorem PlainRegion.Continued.steady {kind : Kind} {expected n : Nat} {period : Int}
    {r : PlainRegion} (h : (PlainRegion.allocate kind expected 0).Continued period n r) :
    (View.plain r).Steady period n where
  sound := ⟨h.reachable.valid, h.reachable.valid.wellFormed, trivial⟩
  size := h.count.trans (Nat.zero_add n)
  span? i hi := by
    have hlater := h.later i hi
    have hzero : (PlainRegion.allocate kind expected 0).stop + i * period = i * period :=
      Int.zero_add _
    rw [hzero] at hlater
    rw [← hlater]
    exact congrArg r.span? (Nat.zero_add i).symm

/-- No scenario has inputs of unsigned bytes. -/
theorem Scenario.uniformKind_ne (s : Scenario) : s.uniformKind ≠ .u8 := by cases s <;> decide

namespace Workload

/-- Every kind but unsigned bytes holds the values of a stream of the default range. -/
theorem checkFits_default {kind : Kind} (hkind : kind ≠ .u8) :
    checkFits .value kind (-50) 49 = .ok () := by
  cases kind with
  | u8 => exact absurd rfl hkind
  | _ => rfl

/-- An input is what a stream makes of an empty region that it fits, if the fill succeeds. -/
theorem exists_uniformInput_fill [RandomSource] {kind : Kind} (hkind : kind ≠ .u8) {period : Int}
    (hperiod : 0 < period) {n : Nat} (hfits : SpanLog.fits (slotCapacity n) = true)
    (seed : UInt64) :
    ∃ g : UniformStream, g.period = period ∧ g.length = n ∧
      (PlainRegion.allocate kind n 0).Reachable ∧ g.check (.allocate kind n 0) = .ok () ∧
      (∀ filled, g.fill (.allocate kind n 0) = (filled, .ok ()) →
        uniformInput kind period n seed = .ok (.plain filled.2)) ∧
      ∀ filled e, g.fill (.allocate kind n 0) = (filled, .error e) →
        uniformInput kind period n seed = .error (.generator e) := by
  let g : UniformStream := ⟨period, n, UniformStream.defaultRange, .ofSeed seed⟩
  have hmake : UniformStream.make period n UniformStream.defaultRange seed = .ok g := by
    rw [UniformStream.make, if_neg (by omega), if_neg (by decide)]
  have hallocate : PlainRegion.allocate? kind n 0 = some (.allocate kind n 0) := if_pos hfits
  have hroom := le_leastPowerOfTwo n
  have hcapacity : ¬ slotCapacity n - 0 < n := by
    unfold slotCapacity
    omega
  refine ⟨g, rfl, rfl, .allocate hallocate,
    (if_neg hcapacity).trans (checkFits_default hkind), fun filled hfill => ?_,
    fun filled e hfill => ?_⟩
  · simp only [uniformInput, hmake, hallocate, hfill]
  · simp only [uniformInput, hmake, hallocate, hfill]

theorem uniformInput_steady [RandomSource] {kind : Kind} (hkind : kind ≠ .u8) {period : Int}
    (hperiod : 0 < period) {n : Nat} (hfits : SpanLog.fits (slotCapacity n) = true)
    (htime : n * period ≤ maxInt64) (seed : UInt64) :
    ∃ v, uniformInput kind period n seed = .ok v ∧ v.Steady period n := by
  obtain ⟨g, rfl, rfl, hempty, hcheck, hinput, -⟩ :=
    exists_uniformInput_fill hkind hperiod hfits seed
  have hbase : minInt64 ≤ (PlainRegion.allocate kind g.length 0).stop := show minInt64 ≤ 0 by decide
  have hlast : (PlainRegion.allocate kind g.length 0).stop + g.length * g.period ≤ maxInt64 := by
    show 0 + g.length * g.period ≤ maxInt64
    omega
  rcases UniformStream.fill_cases hperiod hempty hbase htime hlast with
    ⟨e, herror, -⟩ | ⟨-, draws, r, hfill, hdone⟩
  · rw [hcheck] at herror
    cases herror
  · exact ⟨.plain r, hinput _ hfill, hdone.steady⟩

/-- The layout of blocked inputs passes its check. -/
theorem Admitted.layout_check {w : Workload} (h : w.Admitted)
    (hblocked : w.scenario.isBlocked = true) : w.layout.check = .ok () := by
  have hpos := h.blockSize_pos
  have hspan := h.blockSpan_lt hblocked
  have hle : w.blockSize.toNat * 1 ≤ w.blockSize.toNat * w.period.toInt :=
    Int.mul_le_mul_of_nonneg_left h.period_pos (Int.natCast_nonneg _)
  have hsize : ¬ (w.layout.blockSize = 0 ∨ UInt32.size ≤ w.layout.blockSize) := by
    show ¬ (w.blockSize.toNat = 0 ∨ UInt32.size ≤ w.blockSize.toNat)
    omega
  unfold Layout.check
  rw [if_neg hsize]
  rfl

/-- An empty region of this layout is one that the stream can fill. -/
theorem Admitted.check_blocked [RandomSource] {w : Workload} (h : w.Admitted)
    (hblocked : w.scenario.isBlocked = true) (seed : UInt64) {r : BlockedRegion}
    (hlayout : r.layout = w.layout) (hcount : r.count = 0) :
    CorrelatedStream.check ⟨w.period.toInt, w.size.toNat, -100, 100, 100, .ofSeed seed⟩ r =
      .ok () := by
  have hspan := h.blockSpan_lt hblocked
  have hshort : ¬ (UInt32.size : Int) ≤ min (w.layout.blockSize * w.period.toInt) maxInt64 := by
    show ¬ (UInt32.size : Int) ≤ min (w.blockSize.toNat * w.period.toInt) maxInt64
    omega
  have hlength : w.layout.length = w.size.toNat := rfl
  have hdelta : checkFits .delta w.layout.delta 0 (100 - 1) = .ok () := rfl
  have hvalue : checkFits .value w.layout.base (-100) (-100 + (100 - 1) + (100 - 1)) = .ok () := rfl
  simp only [CorrelatedStream.check, CorrelatedStream.minValue, CorrelatedStream.maxValue,
    CorrelatedStream.maxBase, hlayout, hcount, hlength, hdelta, hvalue, hshort, ne_eq,
    not_true_eq_false, ↓reduceIte, bind, Except.bind, pure, Except.pure]

theorem Admitted.blockedInput_steady [RandomSource] {w : Workload} (h : w.Admitted)
    (hblocked : w.scenario.isBlocked = true) (hfits : w.layout.fits = true) (seed : UInt64) :
    ∃ v, w.blockedInput seed = .ok v ∧ v.Steady w.period.toInt w.size.toNat := by
  have hperiod := h.period_pos
  let g : CorrelatedStream := ⟨w.period.toInt, w.size.toNat, -100, 100, 100, .ofSeed seed⟩
  have hmake : CorrelatedStream.make w.period.toInt w.size.toNat seed = .ok g := by
    rw [CorrelatedStream.make, if_neg (by omega)]
  have hranged : g.Ranged := (CorrelatedStream.Configured.make hmake).ranged
  obtain ⟨r, hr⟩ : ∃ r, BlockedRegion.allocate w.layout = .ok r := by
    rw [BlockedRegion.allocate, h.layout_check hblocked]
    exact ⟨_, rfl⟩
  have hempty := (BlockedRegion.of_allocate hr).2
  have hlayout : r.layout = w.layout := by rw [hempty]
  have hcount : r.count = 0 := by rw [hempty]
  have hblocks : r.blocks.size = 0 := by
    rw [hempty]
    rfl
  have hcheck : g.check r = .ok () := h.check_blocked hblocked seed hlayout hcount
  obtain ⟨hok, hfilled⟩ :=
    CorrelatedStream.fill_of_check hranged (.allocate hr) hcheck hblocks h.time_le
  have hfit := (CorrelatedStream.of_check (BlockedRegion.valid_allocate hr) hcheck).1
  rw [hlayout] at hfilled hfit
  have hspans : ∀ i < w.size.toNat, (View.blocked (g.fill r).1.2).span? i =
      some ⟨i * w.period.toInt, w.period.toInt⟩ := fun i hi =>
    hfilled.span?_eq hranged hfit hi
  have hsize : (View.blocked (g.fill r).1.2).size = w.size.toNat := hfilled.count
  have hno := hfilled.noOverflow hranged hfit (show (-2147483648 : Int) ≤ -100 by decide)
    (show (-100 : Int) + (100 - 1) + (100 - 1) ≤ 2147483647 by decide)
  refine ⟨.blocked (g.fill r).1.2, ?_, ⟨hfilled.tiled.valid,
    View.wellFormed_of_span? hperiod (by rw [hsize]; exact hspans), hno⟩, hsize, hspans⟩
  cases hfill : g.fill r with
  | mk state ended =>
    rw [hfill] at hok
    subst hok
    simp only [blockedInput, hfits, hr, hmake, hfill, Bool.not_true, Bool.false_eq_true, ↓reduceIte]

/-! ## All inputs -/

/-- How the elements of an input are spread. -/
structure InputShape where
  period : Int
  length : Nat

/-- An input of all the elements. -/
def fullShape (w : Workload) : InputShape := ⟨w.period.toInt, w.size.toNat⟩

/-- The inputs of the scenario, by slot. -/
def inputShapes (w : Workload) : List InputShape :=
  match w.scenario with
  | .innerJoin => [w.fullShape, w.fullShape]
  | .baseDeltaSelect | .baseDeltaFilter => [⟨w.window, w.baseLength⟩, w.fullShape]
  | .outerJoin => [w.fullShape, ⟨w.period.toInt, w.rightLength⟩]
  | _ => [w.fullShape]

/-- There are buffers for an input. -/
def InputFits (w : Workload) (shape : InputShape) : Prop :=
  if w.scenario.isBlocked then w.layout.fits = true
  else SpanLog.fits (slotCapacity shape.length) = true

instance (w : Workload) (shape : InputShape) : Decidable (w.InputFits shape) :=
  inferInstanceAs (Decidable (if w.scenario.isBlocked then w.layout.fits = true
    else SpanLog.fits (slotCapacity shape.length) = true))

/-- The inputs of the scenario, each with its shape. -/
structure InputsReady (w : Workload) (inputs : List View) : Prop where
  length : inputs.length = w.inputShapes.length
  steady : ∀ (i : Nat) (shape : InputShape), w.inputShapes[i]? = some shape →
    ∃ v : View, inputs[i]? = some v ∧ v.Steady shape.period shape.length

section

variable {w : Workload} {shape shape' : InputShape}

theorem InputsReady.sound {inputs : List View} (h : w.InputsReady inputs) :
    ∀ v ∈ inputs, v.Sound := by
  intro v hv
  obtain ⟨i, hi, rfl⟩ := List.mem_iff_getElem.mp hv
  obtain ⟨v, hv, hsteady⟩ := h.steady i _ (List.getElem?_eq_getElem (h.length ▸ hi))
  rw [List.getElem?_eq_getElem hi, Option.some.injEq] at hv
  rw [hv]
  exact hsteady.sound

/-- A scenario with one input. -/
theorem ready_of_one [RandomSource] {made : Except BenchError View}
    (hinputs : w.inputs = made >>= fun v => .ok [v]) (hshapes : w.inputShapes = [shape])
    (hmade : ∃ v, made = .ok v ∧ v.Steady shape.period shape.length) :
    ∃ inputs, w.inputs = .ok inputs ∧ w.InputsReady inputs := by
  obtain ⟨v, rfl, hv⟩ := hmade
  refine ⟨[v], hinputs, by rw [hshapes]; rfl, fun i s hs => ?_⟩
  rw [hshapes] at hs
  match i with
  | 0 =>
    cases hs
    exact ⟨v, rfl, hv⟩
  | i + 1 => cases hs

/-- A scenario with two inputs. -/
theorem ready_of_two [RandomSource] {made made' : Except BenchError View}
    (hinputs : w.inputs = made >>= fun v => made' >>= fun v' => .ok [v, v'])
    (hshapes : w.inputShapes = [shape, shape'])
    (hmade : ∃ v, made = .ok v ∧ v.Steady shape.period shape.length)
    (hmade' : ∃ v, made' = .ok v ∧ v.Steady shape'.period shape'.length) :
    ∃ inputs, w.inputs = .ok inputs ∧ w.InputsReady inputs := by
  obtain ⟨v, rfl, hv⟩ := hmade
  obtain ⟨v', rfl, hv'⟩ := hmade'
  refine ⟨[v, v'], hinputs, by rw [hshapes]; rfl, fun i s hs => ?_⟩
  rw [hshapes] at hs
  match i with
  | 0 =>
    cases hs
    exact ⟨v, rfl, hv⟩
  | 1 =>
    cases hs
    exact ⟨v', rfl, hv'⟩
  | i + 2 => cases hs

/-- The inputs can be made if their times are within 64 bits and there are buffers for them. -/
theorem Admitted.inputs_ready [RandomSource] (h : w.Admitted)
    (htimes : ∀ shape ∈ w.inputShapes, shape.length * shape.period ≤ maxInt64)
    (hfits : ∀ shape ∈ w.inputShapes, w.InputFits shape) :
    ∃ inputs, w.inputs = .ok inputs ∧ w.InputsReady inputs := by
  have hblocked : w.scenario.isBlocked = true → w.fullShape ∈ w.inputShapes → ∀ seed,
      ∃ v, w.blockedInput seed = .ok v ∧ v.Steady w.fullShape.period w.fullShape.length := by
    intro hblocked hshape seed
    have hfit := hfits _ hshape
    rw [InputFits, if_pos hblocked] at hfit
    exact h.blockedInput_steady hblocked hfit seed
  have huniform : w.scenario.isBlocked = false → ∀ shape ∈ w.inputShapes, 0 < shape.period →
      ∀ kind, kind ≠ Kind.u8 → ∀ seed, ∃ v,
        uniformInput kind shape.period shape.length seed = .ok v ∧
          v.Steady shape.period shape.length := by
    intro hplain shape hshape hperiod kind hkind seed
    have hfit := hfits shape hshape
    rw [InputFits, hplain, if_neg Bool.false_ne_true] at hfit
    exact uniformInput_steady hkind hperiod hfit (htimes shape hshape) seed
  cases hs : w.scenario with
  | innerJoin =>
    have hshapes : w.inputShapes = [w.fullShape, w.fullShape] := by simp only [inputShapes, hs]
    rw [hs, hshapes] at hblocked
    exact ready_of_two (by simp only [inputs, hs]; rfl) hshapes
      (hblocked rfl List.mem_cons_self w.seed) (hblocked rfl List.mem_cons_self w.secondSeed)
  | baseDeltaSelect | baseDeltaFilter =>
    have hshapes : w.inputShapes = [⟨w.window, w.baseLength⟩, w.fullShape] := by
      simp only [inputShapes, hs]
    rw [hs, hshapes] at huniform
    exact ready_of_two (by simp only [inputs, hs]; rfl) hshapes
      (huniform rfl _ List.mem_cons_self h.window_pos .i64 nofun w.seed)
      (huniform rfl _ (List.mem_cons_of_mem _ List.mem_cons_self) h.period_pos .i8 nofun
        w.secondSeed)
  | outerJoin =>
    have hshapes : w.inputShapes = [w.fullShape, ⟨w.period.toInt, w.rightLength⟩] := by
      simp only [inputShapes, hs]
    rw [hs, hshapes] at huniform
    exact ready_of_two (by simp only [inputs, hs]; rfl) hshapes
      (huniform rfl _ List.mem_cons_self h.period_pos .f32 nofun w.seed)
      (huniform rfl _ (List.mem_cons_of_mem _ List.mem_cons_self) h.period_pos .f32 nofun
        w.secondSeed)
  | blockedSelect | blockedFilter | blockedSum | blockedFilteredSum | blockedAverage
  | blockedDeviation =>
    have hshapes : w.inputShapes = [w.fullShape] := by simp only [inputShapes, hs]
    rw [hs, hshapes] at hblocked
    exact ready_of_one (by simp only [inputs, hs]; rfl) hshapes
      (hblocked rfl List.mem_cons_self w.seed)
  | _ =>
    have hshapes : w.inputShapes = [w.fullShape] := by simp only [inputShapes, hs]
    rw [hs, hshapes] at huniform
    exact ready_of_one (by simp only [inputs, hs]; rfl) hshapes
      (huniform rfl _ List.mem_cons_self h.period_pos _ w.scenario.uniformKind_ne w.seed)

end

end Workload

end StreamGauge
