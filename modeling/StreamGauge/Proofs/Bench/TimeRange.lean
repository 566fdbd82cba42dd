import StreamGauge.Proofs.Bench.Inputs

/-!
# The time range of accepted settings

The check of settings multiplies the period by the size, which it reads as a signed number. A size
of `2 ^ 63` or more is a negative one then, and a small period keeps the product within 64 bits.

* `Settings.Accepted.endTime_eq`: with any other size, accepted settings end at the time that all
  elements of an instance take.
* `Settings.Accepted.endTime_neg`: with such a size they end before time zero.
* `Settings.Accepted.workload_endTime`: an instance of accepted settings ends when they do.
-/

namespace StreamGauge.Settings

/-- The time that all elements of an instance take. -/
def timeRange (s : Settings) : Int := s.size.toNat * s.period.toInt

theorem endTime_le (s : Settings) : s.endTime ≤ maxInt64 := saturate_le_maxInt64 _

namespace Accepted

variable {s : Settings}

theorem endTime_eq_duration (h : s.Accepted) :
    s.endTime = s.period.toInt * s.size.toInt64.toInt := h.duration

theorem endTime_eq (h : s.Accepted) (hsize : (s.size.toNat : Int) ≤ maxInt64) :
    s.endTime = s.timeRange := by
  rw [h.endTime_eq_duration, toInt_toInt64, if_pos hsize, timeRange, Int.mul_comm]

theorem timeRange_pos (h : s.Accepted) : 0 < s.timeRange :=
  Int.mul_pos (Int.ofNat_lt.mpr (Workload.toNat_pos h.size)) h.period_pos

/-- A size that reads as a negative number moves the end back by `2 ^ 64` periods. -/
theorem endTime_wraps (h : s.Accepted) (hsize : maxInt64 < s.size.toNat) :
    s.endTime = s.timeRange - 18446744073709551616 * s.period.toInt := by
  rw [h.endTime_eq_duration, toInt_toInt64, if_neg (by omega), Int.mul_sub, timeRange, Int.mul_comm,
    Int.mul_comm s.period.toInt]

theorem endTime_neg (h : s.Accepted) (hsize : maxInt64 < s.size.toNat) : s.endTime < 0 := by
  rw [h.endTime_eq_duration, toInt_toInt64, if_neg (by omega)]
  exact Int.mul_neg_of_pos_of_neg h.period_pos (by have := s.size.toNat_lt; omega)

/-- Each element takes a unit of time at least, so that too many of them leave 64 bits. -/
theorem timeRange_gt (h : s.Accepted) (hsize : maxInt64 < s.size.toNat) :
    maxInt64 < s.timeRange := by
  have hmul : (s.size.toNat : Int) * 1 ≤ s.size.toNat * s.period.toInt :=
    Int.mul_le_mul_of_nonneg_left h.period_pos (Int.natCast_nonneg _)
  unfold timeRange
  omega

/-- The product that an instance computes does not wrap: the check has computed it before. -/
theorem workload_endTime (h : s.Accepted) (seed : UInt64) :
    (⟨s.scenario, s.size, s.period, s.window, s.blockSize, seed⟩ : Workload).endTime =
      s.endTime := by
  have hle := endTime_le s
  have hge : minInt64 ≤ s.endTime := minInt64_le_saturate _
  rw [h.endTime_eq_duration] at hle hge ⊢
  unfold minInt64 at hge
  unfold maxInt64 at hle
  change (s.period * s.size.toInt64).toInt = s.period.toInt * s.size.toInt64.toInt
  rw [Int64.toInt_mul]
  exact Int.bmod_eq_of_le (by omega) (by omega)

end Accepted

/-- What the check of settings says about times.

The window is not empty, a block lasts less than `2 ^ 32`, and a delta stream is no coarser than
its base stream. Each instance ends when the settings say. If the size is a signed 64-bit number,
this is when its last element stops, within 64 bits. A larger size is accepted too, if the period
times the size less `2 ^ 64` is within 64 bits: then the settings end before time zero, although
the elements take longer than 64 bits say. -/
theorem times_of_check {s : Settings} (h : s.check = .ok ()) :
    (0 < s.window ∧
      (s.scenario.isBlocked = true → s.blockSize.toNat * s.period.toInt < UInt32.size) ∧
      (s.scenario.isTwoStream = true → s.period.toInt ≤ s.window)) ∧
    (∀ number, ∃ w, Workload.ofSettings s number = .ok w ∧ w.endTime = s.endTime) ∧
    ((s.size.toNat : Int) ≤ maxInt64 →
      s.timeRange ≤ maxInt64 ∧ s.endTime = s.timeRange ∧ 0 < s.endTime) ∧
    (maxInt64 < s.size.toNat →
      maxInt64 < s.timeRange ∧ s.endTime = s.timeRange - 18446744073709551616 * s.period.toInt ∧
        s.endTime < 0) := by
  obtain ⟨haccepted, -, hcoarse⟩ := check_eq_ok_iff.mp h
  refine ⟨⟨Int.not_le.mp haccepted.window, haccepted.blockSpan_lt, hcoarse⟩, fun number => ?_,
    fun hsize => ?_, fun hsize => ?_⟩
  · exact ⟨_, by rw [Workload.ofSettings, h], haccepted.workload_endTime _⟩
  · have hend := haccepted.endTime_eq hsize
    have hle := endTime_le s
    have hpos := haccepted.timeRange_pos
    exact ⟨by omega, hend, by omega⟩
  · exact ⟨haccepted.timeRange_gt hsize, haccepted.endTime_wraps hsize,
      haccepted.endTime_neg hsize⟩

/-- The largest size there is, with an element in each unit of time: the check accepts it, and a
run would go from time zero to the time before it. -/
theorem times_of_largest_size :
    let s : Settings := { size := 18446744073709551615 }
    s.check = .ok () ∧ maxInt64 < s.timeRange ∧ s.endTime = -1 ∧
      ∃ w, Workload.ofSettings s 0 = .ok w ∧ w.endTime = -1 := by
  intro s
  have hcheck : s.check = .ok () := by decide
  obtain ⟨-, hworkload, -, hlarge⟩ := times_of_check hcheck
  obtain ⟨hrange, hend, -⟩ := hlarge (by decide)
  have hminus : s.endTime = -1 := by
    rw [hend]
    decide
  obtain ⟨w, hw, hsame⟩ := hworkload 0
  exact ⟨hcheck, hrange, hminus, w, hw, hsame.trans hminus⟩

end StreamGauge.Settings
