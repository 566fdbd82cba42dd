import Mathlib
import StreamGauge.Decimal.Digits

/-!
# The shortest digits of a double

`Digits.shortest` writes a double with digits that denote a number nearest to that double, so the
digits tell doubles apart.

* `Basin.Holds` says which numbers are nearest to a double; `Basin.contains_iff` is its decision on
  a grid of decimals.
* On the grid of seventeen digits there is always one of them (`Dyadic.onGrid?_seventeen`), so the
  search ends with digits that denote one (`Dyadic.holds_shortest`).
* No number is nearest to two doubles (`Dyadic.Canonical.eq_of_holds`).
-/

namespace StreamGauge.Decimal

/-! ## Exact values -/

theorem cast_twoTo (n : Nat) : (twoTo n : ℚ) = 2 ^ n := Nat.cast_pow 2 n

theorem cast_tenTo (n : Nat) : (tenTo n : ℚ) = 10 ^ n := Nat.cast_pow 10 n

theorem tenTo_add (m n : Nat) : tenTo (m + n) = tenTo m * tenTo n := Nat.pow_add 10 m n

/-- The two parts of a whole exponent, of which one is zero. -/
theorem zpow_mul_pow_toNat {a : ℚ} (ha : a ≠ 0) (z : ℤ) : a ^ z * a ^ (-z).toNat = a ^ z.toNat := by
  rw [← zpow_natCast, ← zpow_natCast, ← zpow_add₀ ha]
  congr 1
  omega

/-- The number that digits denote. -/
def Digits.value (d : Digits) : ℚ := d.coefficient * 10 ^ d.exponent

/-- The number that a mantissa and an exponent denote. -/
def Dyadic.value (v : Dyadic) : ℚ := v.mantissa * 2 ^ v.exponent

theorem Dyadic.value_quotient (v : Dyadic) : (v.quotient.1 : ℚ) / v.quotient.2 = v.value := by
  have hsplit := zpow_mul_pow_toNat (two_ne_zero (α := ℚ)) v.exponent
  have hpos : (0 : ℚ) < 2 ^ (-v.exponent).toNat := by positivity
  simp only [quotient, value, Nat.cast_mul, cast_twoTo]
  rw [div_eq_iff hpos.ne', mul_assoc, hsplit]

theorem inUnits_snd_pos {den : Nat} (num : Nat) (hden : 0 < den) (unit : ℤ) :
    0 < (inUnits num den unit).2 :=
  Nat.mul_pos hden (tenTo_pos _)

theorem value_inUnits (num den : Nat) (unit : ℤ) :
    ((inUnits num den unit).1 : ℚ) / (inUnits num den unit).2 = num / den / 10 ^ unit := by
  have hsplit := zpow_mul_pow_toNat (show (10 : ℚ) ≠ 0 by norm_num) unit
  simp only [inUnits, Nat.cast_mul, cast_tenTo]
  rw [← hsplit, div_div, ← mul_assoc]
  exact mul_div_mul_right _ _ (by positivity)

/-! ## The length of a number -/

/-- A positive number lies between the powers of ten that its length names. -/
theorem decimalLength_spec {n : Nat} (hn : 0 < n) :
    ∃ k, decimalLength n = k + 1 ∧ tenTo k ≤ n ∧ n < tenTo (k + 1) := by
  induction n using decimalLength.induct with
  | case1 => exact absurd hn (Nat.lt_irrefl 0)
  | case2 n hzero hlong ih =>
    obtain ⟨k, hk, hle, hlt⟩ := ih (Nat.div_pos hlong (tenTo_pos stride))
    rw [Nat.le_div_iff_mul_le (tenTo_pos stride), ← tenTo_add] at hle
    rw [Nat.div_lt_iff_lt_mul (tenTo_pos stride), ← tenTo_add, Nat.succ_add] at hlt
    refine ⟨k + stride, ?_, hle, hlt⟩
    rw [decimalLength, if_neg hzero, if_pos hlong, hk, Nat.succ_add]
  | case3 n hzero hshort ih =>
    rw [decimalLength, if_neg hzero, if_neg hshort]
    by_cases hlast : n / 10 = 0
    · refine ⟨0, ?_, hn, ?_⟩
      · rw [hlast, decimalLength, if_pos rfl]
      · rw [tenTo_succ, tenTo_zero]
        omega
    · obtain ⟨k, hk, hle, hlt⟩ := ih (by omega)
      refine ⟨k + 1, by rw [hk], ?_, ?_⟩
      · rw [tenTo_succ]
        omega
      · rw [tenTo_succ]
        omega

/-- The leading digit of a positive quotient is at its leading exponent or above. -/
theorem zpow_leadingExponent_le {num den : Nat} (hnum : 0 < num) (hden : 0 < den) :
    (10 : ℚ) ^ leadingExponent num den ≤ num / den := by
  have hdenQ : (0 : ℚ) < den := by exact_mod_cast hden
  unfold leadingExponent
  by_cases hle : den ≤ num
  · rw [if_pos hle]
    obtain ⟨k, hk, hlow, -⟩ := decimalLength_spec (Nat.div_pos hle hden)
    rw [hk, Nat.cast_succ, add_sub_cancel_right, zpow_natCast, ← cast_tenTo, le_div_iff₀ hdenQ]
    exact_mod_cast (Nat.le_div_iff_mul_le hden).mp hlow
  · rw [if_neg hle]
    have hhigh : den ≤ num * tenTo (decimalLength ((den - 1) / num)) := by
      by_cases hzero : (den - 1) / num = 0
      · rw [Nat.div_eq_zero_iff] at hzero
        have := Nat.le_mul_of_pos_right num (tenTo_pos (decimalLength ((den - 1) / num)))
        omega
      · obtain ⟨k, hk, -, hlt⟩ := decimalLength_spec (Nat.pos_of_ne_zero hzero)
        rw [Nat.div_lt_iff_lt_mul hnum, Nat.mul_comm] at hlt
        rw [hk]
        omega
    rw [zpow_neg, zpow_natCast, ← cast_tenTo, inv_le_comm₀ (by exact_mod_cast tenTo_pos _)
      (by positivity), inv_div, div_le_iff₀ (by exact_mod_cast hnum), mul_comm]
    exact_mod_cast hhigh

/-! ## The numbers nearest to a double -/

/-- The number lies between the ends of the basin, or on one that belongs to it. -/
def Basin.Holds (basin : Basin) (x : ℚ) : Prop :=
  if basin.closed then
    (basin.low : ℚ) * 2 ^ basin.quarter ≤ x ∧ x ≤ basin.high * 2 ^ basin.quarter
  else (basin.low : ℚ) * 2 ^ basin.quarter < x ∧ x < basin.high * 2 ^ basin.quarter

theorem Basin.holds_of_lt {basin : Basin} {x : ℚ} (hlow : (basin.low : ℚ) * 2 ^ basin.quarter < x)
    (hhigh : x < basin.high * 2 ^ basin.quarter) : basin.Holds x := by
  unfold Holds
  split
  · exact ⟨hlow.le, hhigh.le⟩
  · exact ⟨hlow, hhigh⟩

theorem Basin.contains_iff (basin : Basin) (count : Nat) (unit : ℤ) :
    basin.contains count unit = true ↔ basin.Holds (Digits.value ⟨count, unit⟩) := by
  have hten := zpow_mul_pow_toNat (show (10 : ℚ) ≠ 0 by norm_num) unit
  have htwo := zpow_mul_pow_toNat (two_ne_zero (α := ℚ)) basin.quarter
  -- Both sides are multiplied by the denominators of the two powers.
  have hscale : (0 : ℚ) < 10 ^ (-unit).toNat * 2 ^ (-basin.quarter).toNat := by positivity
  have hpoint : ((count * tenTo unit.toNat * twoTo (-basin.quarter).toNat : Nat) : ℚ) =
      Digits.value ⟨count, unit⟩ * (10 ^ (-unit).toNat * 2 ^ (-basin.quarter).toNat) := by
    simp only [Digits.value, Nat.cast_mul, cast_twoTo, cast_tenTo, ← hten]
    ring
  have hend : ∀ e : Nat, ((e * (tenTo (-unit).toNat * twoTo basin.quarter.toNat) : Nat) : ℚ) =
      e * 2 ^ basin.quarter * (10 ^ (-unit).toNat * 2 ^ (-basin.quarter).toNat) := by
    intro e
    simp only [Nat.cast_mul, cast_twoTo, cast_tenTo, ← htwo]
    ring
  have hle : ∀ e : Nat, e * (tenTo (-unit).toNat * twoTo basin.quarter.toNat) ≤
      count * tenTo unit.toNat * twoTo (-basin.quarter).toNat ↔
        (e : ℚ) * 2 ^ basin.quarter ≤ Digits.value ⟨count, unit⟩ := by
    intro e
    rw [← Nat.cast_le (α := ℚ), hpoint, hend, mul_le_mul_iff_left₀ hscale]
  have hge : ∀ e : Nat, count * tenTo unit.toNat * twoTo (-basin.quarter).toNat ≤
      e * (tenTo (-unit).toNat * twoTo basin.quarter.toNat) ↔
        Digits.value ⟨count, unit⟩ ≤ (e : ℚ) * 2 ^ basin.quarter := by
    intro e
    rw [← Nat.cast_le (α := ℚ), hpoint, hend, mul_le_mul_iff_left₀ hscale]
  unfold contains Holds
  split
  case isTrue => simp only [Bool.and_eq_true, decide_eq_true_eq, hle, hge]
  case isFalse =>
    simp only [Bool.and_eq_true, decide_eq_true_eq, ← not_le, hle, hge]

namespace Dyadic

variable {v w : Dyadic} {x : ℚ}

/-- Four quarters are one unit. -/
theorem zpow_quarter (v : Dyadic) : (2 : ℚ) ^ v.basin.quarter = 2 ^ v.exponent / 4 := by
  change (2 : ℚ) ^ (v.exponent - 2) = _
  rw [zpow_sub₀ two_ne_zero]
  norm_num

/-- The upper end is half a unit above the double. -/
theorem basin_high (v : Dyadic) :
    (v.basin.high : ℚ) * 2 ^ v.basin.quarter = v.value + 2 ^ v.exponent / 2 := by
  rw [zpow_quarter]
  simp only [basin, value]
  push_cast
  ring

/-- The lower end is half a unit below it, or a quarter of one if the unit changes there. -/
theorem basin_low (hpos : 0 < v.mantissa) :
    (v.basin.low : ℚ) * 2 ^ v.basin.quarter = v.value -
      if v.mantissa = leadingOne ∧ v.exponent ≠ -1074 then 2 ^ v.exponent / 4
      else 2 ^ v.exponent / 2 := by
  rw [zpow_quarter]
  simp only [basin, value]
  split
  · rw [Nat.cast_sub (by omega)]
    push_cast
    ring
  · rw [Nat.cast_sub (by omega)]
    push_cast
    ring

/-! ## Digits are found -/

theorem roundQuotient_cases (tie : Tie) (num den : Nat) :
    roundQuotient tie num den = num / den ∨ roundQuotient tie num den = num / den + 1 := by
  unfold roundQuotient
  simp only
  split
  · exact .inl rfl
  · exact .inr rfl
  · split
    · exact .inr rfl
    · exact ite_eq_or_eq ..

/-- What the search finds on a grid is nearest to the double. -/
theorem holds_onGrid {tie : Tie} {places : Nat} {d : Digits} (h : v.onGrid? tie places = some d) :
    v.basin.Holds d.value := by
  unfold onGrid? at h
  simp only at h
  split at h
  case h_1 hlow hhigh =>
    cases h
    rcases roundQuotient_cases tie _ _ with heq | heq
    · rw [heq]
      exact (Basin.contains_iff ..).mp hlow
    · rw [heq]
      exact (Basin.contains_iff ..).mp hhigh
  case h_2 hlow _ =>
    cases h
    exact (Basin.contains_iff ..).mp hlow
  case h_3 _ hhigh =>
    cases h
    exact (Basin.contains_iff ..).mp hhigh
  case h_4 => cases h

/-- The double lies between its neighbours on a grid. -/
theorem between_grid (v : Dyadic) (unit : ℤ) :
    let scaled := inUnits v.quotient.1 v.quotient.2 unit
    Digits.value ⟨scaled.1 / scaled.2, unit⟩ ≤ v.value ∧
      v.value < Digits.value ⟨scaled.1 / scaled.2 + 1, unit⟩ := by
  intro scaled
  have hunit : (0 : ℚ) < 10 ^ unit := by positivity
  have hden : 0 < scaled.2 := inUnits_snd_pos _ (quotient_snd_pos v) unit
  have hscaled : (scaled.1 : ℚ) / scaled.2 = v.value / 10 ^ unit := by
    rw [← value_quotient, ← value_inUnits]
  simp only [Digits.value]
  rw [← le_div_iff₀ hunit, ← div_lt_iff₀ hunit, ← hscaled, div_lt_iff₀ (by exact_mod_cast hden)]
  refine ⟨Nat.cast_div_le, ?_⟩
  rw [mul_comm]
  exact_mod_cast Nat.lt_mul_div_succ scaled.1 hden

/-- Seventeen digits are always enough: the grid is finer than the unit of the double. -/
theorem onGrid?_seventeen (tie : Tie) (hpos : 0 < v.mantissa) (hlt : v.mantissa < 2 * leadingOne) :
    ∃ d, v.onGrid? tie 17 = some d := by
  have hu : (0 : ℚ) < 2 ^ v.exponent := by positivity
  have hnum : 0 < v.quotient.1 := Nat.mul_pos hpos (twoTo_pos _)
  have hleading := zpow_leadingExponent_le hnum v.quotient_snd_pos
  rw [value_quotient] at hleading
  unfold onGrid?
  simp only
  generalize hunit : leadingExponent v.quotient.1 v.quotient.2 - ((17 - 1 : Nat) : ℤ) = unit
  have hexp : leadingExponent v.quotient.1 v.quotient.2 = unit + 16 := by omega
  rw [hexp, zpow_add₀ (by norm_num)] at hleading
  obtain ⟨hbelow, habove⟩ := v.between_grid unit
  generalize inUnits v.quotient.1 v.quotient.2 unit = scaled at hbelow habove ⊢
  have hstep : Digits.value ⟨scaled.1 / scaled.2 + 1, unit⟩ =
      Digits.value ⟨scaled.1 / scaled.2, unit⟩ + 10 ^ unit := by
    simp only [Digits.value]
    push_cast
    ring
  suffices h : v.basin.contains (scaled.1 / scaled.2) unit = true ∨
      v.basin.contains (scaled.1 / scaled.2 + 1) unit = true by
    split
    case h_4 hlow hhigh => simp [hlow, hhigh] at h
    all_goals exact ⟨_, rfl⟩
  rw [Basin.contains_iff, Basin.contains_iff]
  have hlow := basin_low hpos
  have hhigh := v.basin_high
  by_cases hnarrow : v.mantissa = leadingOne ∧ v.exponent ≠ -1074
  · -- Below, the basin is half as wide, but the grid is fine enough for its upper half.
    rw [if_pos hnarrow] at hlow
    have hvalue : v.value = 4503599627370496 * 2 ^ v.exponent := by
      rw [value, hnarrow.1, show leadingOne = 4503599627370496 from rfl]
      norm_num
    refine .inr (Basin.holds_of_lt ?_ ?_)
    · linarith
    · linarith
  · rw [if_neg hnarrow] at hlow
    have hvalue : v.value ≤ 9007199254740991 * 2 ^ v.exponent := by
      have hmantissa : v.mantissa ≤ 9007199254740991 := by
        have : leadingOne = 4503599627370496 := rfl
        omega
      exact mul_le_mul_of_nonneg_right (by exact_mod_cast hmantissa) hu.le
    -- The grid is finer than a unit: one neighbour is less than half a unit away.
    by_cases hnear : v.value - Digits.value ⟨scaled.1 / scaled.2, unit⟩ < 2 ^ v.exponent / 2
    · exact .inl (Basin.holds_of_lt (by linarith) (by linarith))
    · exact .inr (Basin.holds_of_lt (by linarith) (by linarith))

/-- Dropped zeros do not change the number. -/
theorem value_trim (d : Digits) : d.trim.value = d.value := by
  induction d using Digits.trim.induct with
  | case1 d h => rw [Digits.trim, dif_pos h]
  | case2 d h hlong ih =>
    rw [Digits.trim, dif_neg h, if_pos hlong, ih]
    have hcoefficient : (d.coefficient : ℚ) =
        (d.coefficient / tenTo stride : Nat) * 10 ^ stride := by
      rw [← cast_tenTo, ← Nat.cast_mul, Nat.div_mul_cancel (Nat.dvd_of_mod_eq_zero hlong)]
    rw [Digits.value, Digits.value, hcoefficient, zpow_add₀ (by norm_num), zpow_natCast]
    ring
  | case3 d h hlong hshort ih =>
    rw [Digits.trim, dif_neg h, if_neg hlong, if_pos hshort, ih]
    have hcoefficient : (d.coefficient : ℚ) = (d.coefficient / 10 : Nat) * 10 := by
      exact_mod_cast (Nat.div_mul_cancel (Nat.dvd_of_mod_eq_zero hshort)).symm
    rw [Digits.value, Digits.value, hcoefficient, zpow_add₀ (by norm_num), zpow_one]
    ring
  | case4 d h hlong hshort => rw [Digits.trim, dif_neg h, if_neg hlong, if_neg hshort]

/-- The shortest digits of a double denote a number that is nearest to it. -/
theorem holds_shortest (tie : Tie) (hpos : 0 < v.mantissa) (hlt : v.mantissa < 2 * leadingOne) :
    v.basin.Holds (Digits.shortest tie v).value := by
  unfold Digits.shortest
  rw [value_trim]
  cases hfound : (List.range 17).findSome? fun i => v.onGrid? tie (i + 1) with
  | none =>
    obtain ⟨d, hd⟩ := onGrid?_seventeen tie hpos hlt
    rw [List.findSome?_eq_none_iff] at hfound
    have hnone := hfound 16 (by simp)
    rw [hd] at hnone
    cases hnone
  | some d =>
    obtain ⟨i, -, hi⟩ := List.exists_of_findSome?_eq_some hfound
    exact holds_onGrid hi

/-! ## Doubles are told apart -/

/-- The mantissas and exponents that doubles have: of 53 bits, the first one set unless the
exponent is the least. -/
structure Canonical (v : Dyadic) : Prop where
  lt : v.mantissa < 2 * leadingOne
  le : -1074 ≤ v.exponent
  leading : leadingOne ≤ v.mantissa ∨ v.exponent = -1074

/-- A number nearest to a double is below its upper end; it is not that end if the mantissa is
odd. -/
theorem lt_high_of_holds (h : v.basin.Holds x) :
    x ≤ v.value + 2 ^ v.exponent / 2 ∧
      (v.mantissa % 2 = 1 → x < v.value + 2 ^ v.exponent / 2) := by
  rw [← basin_high]
  unfold Basin.Holds at h
  split at h
  case isTrue hclosed =>
    have heven : v.mantissa % 2 = 0 := of_decide_eq_true hclosed
    exact ⟨h.2, fun hodd => by omega⟩
  case isFalse => exact ⟨h.2.le, fun _ => h.2⟩

/-- It is above the lower end, and not that end if the mantissa is odd. -/
theorem low_lt_of_holds (hpos : 0 < v.mantissa) (h : v.basin.Holds x) :
    let reach : ℚ := if v.mantissa = leadingOne ∧ v.exponent ≠ -1074 then 2 ^ v.exponent / 4
      else 2 ^ v.exponent / 2
    v.value - reach ≤ x ∧ (v.mantissa % 2 = 1 → v.value - reach < x) := by
  intro reach
  rw [show v.value - reach = v.basin.low * 2 ^ v.basin.quarter from (basin_low hpos).symm]
  unfold Basin.Holds at h
  split at h
  case isTrue hclosed =>
    have heven : v.mantissa % 2 = 0 := of_decide_eq_true hclosed
    exact ⟨h.1, fun hodd => by omega⟩
  case isFalse => exact ⟨h.1.le, fun _ => h.1⟩

/-- With one exponent, the basin of a smaller mantissa ends before the next one begins; their
common end belongs to the even one. -/
theorem Canonical.not_holds_of_mantissa_lt (hv : v.Canonical) (hexp : v.exponent = w.exponent)
    (hlt : v.mantissa < w.mantissa) (h : v.basin.Holds x) : ¬ w.basin.Holds x := by
  intro h'
  have hu : (0 : ℚ) < 2 ^ w.exponent := by positivity
  -- The basin above is not the narrow one: only the least mantissa has it, and `v` is below.
  have hwide : ¬ (w.mantissa = leadingOne ∧ w.exponent ≠ -1074) := by
    rintro ⟨hm, he⟩
    rcases hv.leading with hleading | hleast
    · omega
    · omega
  obtain ⟨hhigh, hhigh'⟩ := lt_high_of_holds h
  obtain ⟨hlow, hlow'⟩ := low_lt_of_holds (by omega) h'
  rw [if_neg hwide] at hlow hlow'
  rw [hexp] at hhigh hhigh'
  have hvalues : v.value + (w.mantissa - v.mantissa : Nat) * 2 ^ w.exponent = w.value := by
    rw [value, value, hexp, Nat.cast_sub hlt.le]
    ring
  by_cases hnext : w.mantissa - v.mantissa = 1
  · rw [hnext, Nat.cast_one, one_mul] at hvalues
    -- Next to each other, one of the two mantissas is odd, and the common end is not of its basin.
    by_cases hodd : v.mantissa % 2 = 1
    · linarith [hhigh' hodd]
    · linarith [hlow' (by omega)]
  · have htwo : (2 : ℚ) ≤ (w.mantissa - v.mantissa : Nat) := by
      exact_mod_cast (show 2 ≤ w.mantissa - v.mantissa by omega)
    have hgap := mul_le_mul_of_nonneg_right htwo hu.le
    linarith

/-- The basins of a smaller exponent end before those of a greater one begin; where the unit
changes, the common end does not belong to the last odd mantissa. -/
theorem Canonical.not_holds_of_exponent_lt (hv : v.Canonical) (hw : w.Canonical)
    (hlt : v.exponent < w.exponent) (h : v.basin.Holds x) : ¬ w.basin.Holds x := by
  intro h'
  have hone : leadingOne = 4503599627370496 := rfl
  have hleast := hv.le
  have hnormal : leadingOne ≤ w.mantissa := hw.leading.resolve_right (by omega)
  have hu : (0 : ℚ) < 2 ^ v.exponent := by positivity
  have hunits : 2 * (2 : ℚ) ^ v.exponent ≤ 2 ^ w.exponent := by
    rw [← zpow_one_add₀ two_ne_zero]
    exact zpow_le_zpow_right₀ one_le_two (by omega)
  obtain ⟨hhigh, hhigh'⟩ := lt_high_of_holds h
  obtain ⟨hlow, -⟩ := low_lt_of_holds (by omega) h'
  have hupper : ∀ n : Nat, v.mantissa ≤ n → v.value ≤ n * 2 ^ v.exponent := fun n hn =>
    mul_le_mul_of_nonneg_right (by exact_mod_cast hn) hu.le
  have hlower : ∀ n : Nat, n ≤ w.mantissa → n * 2 ^ w.exponent ≤ w.value := fun n hn =>
    mul_le_mul_of_nonneg_right (by exact_mod_cast hn) (by positivity)
  have hlast := hupper 9007199254740991 (by have := hv.lt; omega)
  by_cases hnarrow : w.mantissa = leadingOne ∧ w.exponent ≠ -1074
  · rw [if_pos hnarrow] at hlow
    have hfirst := hlower 4503599627370496 (by omega)
    push_cast at hlast hfirst
    -- The last mantissa is odd, and its basin is open. An even one is a unit further down.
    by_cases hodd : v.mantissa % 2 = 1
    · linarith [hhigh' hodd]
    · have hbefore := hupper 9007199254740990 (by have := hv.lt; omega)
      push_cast at hbefore
      linarith
  · rw [if_neg hnarrow] at hlow
    have hnext : 4503599627370497 ≤ w.mantissa := by
      have : w.mantissa ≠ leadingOne := fun hm => hnarrow ⟨hm, by omega⟩
      omega
    have hfirst := hlower 4503599627370497 hnext
    push_cast at hlast hfirst
    linarith

/-- No number is nearest to two doubles. -/
theorem Canonical.eq_of_holds (hv : v.Canonical) (hw : w.Canonical) (h : v.basin.Holds x)
    (h' : w.basin.Holds x) : v = w := by
  rcases lt_trichotomy v.exponent w.exponent with hlt | hexp | hgt
  · exact absurd h' (hv.not_holds_of_exponent_lt hw hlt h)
  · rcases lt_trichotomy v.mantissa w.mantissa with hlt | hm | hgt
    · exact absurd h' (hv.not_holds_of_mantissa_lt hexp hlt h)
    · cases v
      cases w
      cases hexp
      cases hm
      rfl
    · exact absurd h (hw.not_holds_of_mantissa_lt hexp.symm hgt h')
  · exact absurd h (hw.not_holds_of_exponent_lt hv hgt h')

end Dyadic

end StreamGauge.Decimal
