import StreamGauge.Proofs.Decimal.Shortest

/-!
# Rounding to a number of digits

`Digits.rounded` keeps a number of digits, `Digits.fixed` those up to a place after the point. Both
round an exact quotient, each on its own.

* `Nearest` says which natural number a number is rounded to, a half going to the even one. There is
  only one (`Nearest.unique`), and `roundQuotient` finds it (`nearest_roundQuotient`).
* `IsLeading` says at which power of ten a number has its first digit; `RoundsTo` says which number
  another one is rounded to, if so many digits are kept from there on.
* `isRounded_rounded`: the digits that `Digits.rounded` keeps are as many as asked for, and denote
  this number. They are also the nearest ones at the place where they end, even if a carry has moved
  it, so rounding at this place gives the same digits (`IsRounded.fixed_eq`).
-/

namespace StreamGauge.Decimal

/-! ## The nearest natural number -/

/-- The natural number next to a number; of two that are as near, the even one. -/
structure Nearest (x : ℚ) (n : ℕ) : Prop where
  near : |x - n| ≤ 1 / 2
  even : |x - n| = 1 / 2 → n % 2 = 0

namespace Nearest

variable {x : ℚ} {m n : ℕ}

theorem not_lt (h : Nearest x m) (h' : Nearest x n) : ¬ m < n := by
  intro hlt
  have hm := abs_le.mp h.near
  have hn := abs_le.mp h'.near
  have hstep : (m : ℚ) + 1 ≤ n := by exact_mod_cast hlt
  -- The number is half way between both, so both are even.
  have hm' : x - m = 1 / 2 := by linarith
  have hn' : x - n = -(1 / 2) := by linarith
  have hnext : n = m + 1 := by
    have : (n : ℚ) = m + 1 := by linarith
    exact_mod_cast this
  have hmeven := h.even (by rw [hm']; norm_num)
  have hneven := h'.even (by rw [hn', abs_neg]; norm_num)
  omega

theorem unique (h : Nearest x m) (h' : Nearest x n) : m = n := by
  have := h.not_lt h'
  have := h'.not_lt h
  omega

/-- Rounding does not go below a natural number. -/
theorem ge_of_le (h : Nearest x n) (hm : (m : ℚ) ≤ x) : m ≤ n := by
  have hn := abs_le.mp h.near
  have : (m : ℚ) < n + 1 := by linarith
  exact Nat.lt_succ_iff.mp (by exact_mod_cast this)

/-- Rounding does not go above a natural number. -/
theorem le_of_ge (h : Nearest x n) (hm : x ≤ m) : n ≤ m := by
  have hn := abs_le.mp h.near
  have : (n : ℚ) < m + 1 := by linarith
  exact Nat.lt_succ_iff.mp (by exact_mod_cast this)

/-- A number that is rounded to a multiple of ten is much nearer to it than the half of ten. -/
theorem div_ten (h : Nearest x (10 * n)) : Nearest (x / 10) n := by
  have hnear := abs_le.mp h.near
  push_cast at hnear
  have hlt : |x / 10 - n| < 1 / 2 := by
    rw [abs_lt]
    constructor
    · linarith
    · linarith
  exact ⟨hlt.le, fun heq => absurd heq hlt.ne⟩

variable {rest : ℚ}

theorem below (hpos : 0 ≤ rest) (hhalf : rest < 1 / 2) : Nearest (n + rest) n := by
  have hdistance : |(n : ℚ) + rest - n| = rest := by rw [add_sub_cancel_left, abs_of_nonneg hpos]
  constructor
  · rw [hdistance]
    exact hhalf.le
  · rw [hdistance]
    exact fun heq => absurd heq hhalf.ne

theorem above (hhalf : 1 / 2 < rest) (hlt : rest < 1) : Nearest (n + rest) (n + 1) := by
  have hdistance : |(n : ℚ) + rest - (n + 1 : ℕ)| = 1 - rest := by
    rw [Nat.cast_succ, add_sub_add_left_eq_sub, abs_sub_comm, abs_of_pos (by linarith)]
  constructor
  · rw [hdistance]
    linarith
  · rw [hdistance]
    exact fun heq => by linarith

theorem half (n : ℕ) : Nearest (n + 1 / 2) (if n % 2 = 0 then n else n + 1) := by
  split
  case isTrue heven =>
    refine ⟨?_, fun _ => heven⟩
    rw [add_sub_cancel_left]
    norm_num
  case isFalse hodd =>
    refine ⟨?_, fun _ => by omega⟩
    rw [Nat.cast_succ, add_sub_add_left_eq_sub]
    norm_num

end Nearest

theorem nearest_roundQuotient (num : ℕ) {den : ℕ} (hden : 0 < den) :
    Nearest (num / den) (roundQuotient .toEven num den) := by
  have hdenQ : (0 : ℚ) < den := by exact_mod_cast hden
  have hsplit : (num : ℚ) / den = (num / den : ℕ) + (num % den : ℕ) / den := by
    rw [div_eq_iff hdenQ.ne', add_mul, div_mul_cancel₀ _ hdenQ.ne']
    exact_mod_cast (Nat.div_add_mod' num den).symm
  have hdouble : ((2 * (num % den) : ℕ) : ℚ) = 2 * ((num % den : ℕ) / den) * den := by
    rw [mul_assoc, div_mul_cancel₀ _ hdenQ.ne', Nat.cast_mul, Nat.cast_ofNat]
  have hlt : ((num % den : ℕ) : ℚ) / den < 1 := by
    rw [div_lt_one hdenQ]
    exact_mod_cast Nat.mod_lt num hden
  rw [hsplit]
  unfold roundQuotient
  simp only
  split
  case h_1 hcompare =>
    refine .below (by positivity) ?_
    have := (Nat.cast_lt (α := ℚ)).mpr (Nat.compare_eq_lt.mp hcompare)
    rw [hdouble, mul_lt_iff_lt_one_left hdenQ] at this
    linarith
  case h_2 hcompare =>
    refine .above ?_ hlt
    have := (Nat.cast_lt (α := ℚ)).mpr (Nat.compare_eq_gt.mp hcompare)
    rw [hdouble, lt_mul_iff_one_lt_left hdenQ] at this
    linarith
  case h_3 hcompare =>
    have := congrArg (Nat.cast (R := ℚ)) (Nat.compare_eq_eq.mp hcompare)
    rw [hdouble, mul_eq_right₀ hdenQ.ne'] at this
    rw [show ((num % den : ℕ) : ℚ) / den = 1 / 2 by linarith]
    exact .half _

/-! ## The leading digit -/

/-- The first digit of `x` stands at `10 ^ e`. -/
def IsLeading (x : ℚ) (e : ℤ) : Prop := (10 : ℚ) ^ e ≤ x ∧ x < 10 ^ (e + 1)

theorem IsLeading.unique {x : ℚ} {e e' : ℤ} (h : IsLeading x e) (h' : IsLeading x e') : e = e' := by
  have hten : (1 : ℚ) < 10 := by norm_num
  have hlt := (zpow_lt_zpow_iff_right₀ hten).mp (h.1.trans_lt h'.2)
  have hlt' := (zpow_lt_zpow_iff_right₀ hten).mp (h'.1.trans_lt h.2)
  omega

theorem isLeading_leadingExponent {num den : ℕ} (hnum : 0 < num) (hden : 0 < den) :
    IsLeading (num / den) (leadingExponent num den) := by
  refine ⟨zpow_leadingExponent_le hnum hden, ?_⟩
  have hdenQ : (0 : ℚ) < den := by exact_mod_cast hden
  unfold leadingExponent
  by_cases hle : den ≤ num
  · obtain ⟨k, hk, -, hlt⟩ := decimalLength_spec (Nat.div_pos hle hden)
    rw [if_pos hle, hk, Nat.cast_succ, add_sub_cancel_right, ← Nat.cast_succ, zpow_natCast,
      ← cast_tenTo, div_lt_iff₀ hdenQ]
    exact_mod_cast (Nat.div_lt_iff_lt_mul hden).mp hlt
  · have hpos : 0 < (den - 1) / num := Nat.div_pos (by omega) hnum
    obtain ⟨k, hk, hlow, -⟩ := decimalLength_spec hpos
    have hscaled := (Nat.le_div_iff_mul_le hnum).mp hlow
    have hscaledQ : (10 : ℚ) ^ k * num < den := by
      rw [← cast_tenTo]
      exact_mod_cast (show tenTo k * num < den by omega)
    rw [if_neg hle, hk, Nat.cast_succ, neg_add_rev, neg_add_cancel_comm, zpow_neg, zpow_natCast,
      div_lt_iff₀ hdenQ, ← div_eq_inv_mul, lt_div_iff₀ (by positivity), mul_comm]
    exact hscaledQ

/-- `r` is `x` rounded to `places` digits, the first one of `x` included. -/
def RoundsTo (places : ℕ) (x r : ℚ) : Prop :=
  ∃ (e : ℤ) (n : ℕ), IsLeading x e ∧ Nearest (x / 10 ^ (e + 1 - places)) n ∧
    r = n * 10 ^ (e + 1 - places)

theorem RoundsTo.unique {places : ℕ} {x r r' : ℚ} (h : RoundsTo places x r)
    (h' : RoundsTo places x r') : r = r' := by
  obtain ⟨e, n, hlead, hnear, rfl⟩ := h
  obtain ⟨e', n', hlead', hnear', rfl⟩ := h'
  cases hlead.unique hlead'
  rw [hnear.unique hnear']

/-! ## Digits of a rounded number -/

theorem decimalLength_eq {n k : ℕ} (hlow : tenTo k ≤ n) (hhigh : n < tenTo (k + 1)) :
    decimalLength n = k + 1 := by
  obtain ⟨m, hm, hlow', hhigh'⟩ := decimalLength_spec (Nat.lt_of_lt_of_le (tenTo_pos k) hlow)
  have h1 := (Nat.pow_lt_pow_iff_right (by decide : 1 < 10)).mp (Nat.lt_of_le_of_lt hlow hhigh')
  have h2 := (Nat.pow_lt_pow_iff_right (by decide : 1 < 10)).mp (Nat.lt_of_le_of_lt hlow' hhigh)
  omega

namespace Digits

/-- The digits are those of `x` rounded to `places` digits, and as many. -/
structure IsRounded (d : Digits) (places : ℕ) (x : ℚ) : Prop where
  low : tenTo (places - 1) ≤ d.coefficient
  high : d.coefficient < tenTo places
  nearest : Nearest (x / 10 ^ d.exponent) d.coefficient
  roundsTo : RoundsTo places x d.value

variable {places num den : ℕ}

theorem isRounded_rounded (hplaces : 1 ≤ places) (hnum : 0 < num) (hden : 0 < den) :
    (rounded places num den).IsRounded places (num / den) := by
  obtain ⟨hlow, hhigh⟩ := isLeading_leadingExponent hnum hden
  unfold rounded
  simp only
  generalize hunit : leadingExponent num den - (places - 1 : ℕ) = unit
  have hexp : leadingExponent num den + 1 - places = unit := by omega
  have hnear := nearest_roundQuotient (inUnits num den unit).1 (inUnits_snd_pos num hden unit)
  rw [value_inUnits] at hnear
  generalize roundQuotient .toEven (inUnits num den unit).1 (inUnits num den unit).2 = n at hnear ⊢
  have hrounds : RoundsTo places (num / den) (n * 10 ^ unit) :=
    ⟨_, n, isLeading_leadingExponent hnum hden, by rwa [hexp], by rw [hexp]⟩
  have hten : tenTo places = 10 * tenTo (places - 1) := by
    rw [← tenTo_succ, Nat.sub_add_cancel hplaces]
  have hge : tenTo (places - 1) ≤ n := by
    refine hnear.ge_of_le ?_
    rw [le_div_iff₀ (by positivity), cast_tenTo, ← zpow_natCast, ← zpow_add₀ (by norm_num),
      ← hunit, add_sub_cancel]
    exact hlow
  have hle : n ≤ tenTo places := by
    refine hnear.le_of_ge ?_
    rw [div_le_iff₀ (by positivity), cast_tenTo, ← zpow_natCast, ← zpow_add₀ (by norm_num),
      ← hexp, add_sub_cancel]
    exact hhigh.le
  have hpos := tenTo_pos (places - 1)
  split
  case isTrue hcarry =>
    rw [hcarry, hten] at hnear hrounds
    have hnear' := hnear.div_ten
    rw [div_div, ← zpow_add_one₀ (by norm_num)] at hnear'
    refine ⟨le_rfl, by simp only; omega, hnear', ?_⟩
    rw [value, zpow_add_one₀ (by norm_num)]
    convert hrounds using 1
    push_cast
    ring
  case isFalse hfits => exact ⟨hge, by simp only; omega, hnear, hrounds⟩

namespace IsRounded

variable {d : Digits} {x : ℚ}

/-- Rounding at the place where the digits end gives the same digits. -/
theorem fixed_eq (h : d.IsRounded places (num / den)) (hden : 0 < den) (hexp : d.exponent ≤ 0) :
    fixed (-d.exponent).toNat num den = d := by
  have hnear := nearest_roundQuotient (num * tenTo (-d.exponent).toNat) hden
  have hscaled : ((num * tenTo (-d.exponent).toNat : ℕ) : ℚ) / den =
      num / den / 10 ^ d.exponent := by
    have hten := zpow_mul_pow_toNat (show (10 : ℚ) ≠ 0 by norm_num) d.exponent
    rw [show d.exponent.toNat = 0 by omega, pow_zero] at hten
    rw [Nat.cast_mul, cast_tenTo, mul_div_right_comm, eq_div_iff (by positivity), mul_assoc,
      mul_comm (10 ^ _), hten, mul_one]
  rw [hscaled] at hnear
  unfold fixed
  rw [hnear.unique h.nearest]
  obtain ⟨coefficient, exponent⟩ := d
  simp only at hexp ⊢
  congr 1
  omega

theorem leading_eq (h : d.IsRounded places x) (hplaces : 1 ≤ places) :
    d.leading = d.exponent + places - 1 := by
  have hhigh := h.high
  rw [← Nat.sub_add_cancel hplaces] at hhigh
  rw [leading, decimalLength_eq h.low hhigh, Nat.sub_add_cancel hplaces]

theorem isLeading (h : d.IsRounded places x) (hplaces : 1 ≤ places) :
    IsLeading d.value d.leading := by
  have hlow : ((tenTo (places - 1) : ℕ) : ℚ) ≤ d.coefficient := by exact_mod_cast h.low
  have hhigh : (d.coefficient : ℚ) < (tenTo places : ℕ) := by exact_mod_cast h.high
  rw [cast_tenTo, ← zpow_natCast] at hlow hhigh
  rw [h.leading_eq hplaces, IsLeading, value]
  constructor
  · calc (10 : ℚ) ^ (d.exponent + places - 1)
        = 10 ^ ((places - 1 : ℕ) : ℤ) * 10 ^ d.exponent := by
          rw [← zpow_add₀ (by norm_num)]
          congr 1
          omega
      _ ≤ d.coefficient * 10 ^ d.exponent := mul_le_mul_of_nonneg_right hlow (by positivity)
  · calc (d.coefficient : ℚ) * 10 ^ d.exponent
        < 10 ^ (places : ℤ) * 10 ^ d.exponent := mul_lt_mul_of_pos_right hhigh (by positivity)
      _ = 10 ^ (d.exponent + places - 1 + 1) := by
          rw [← zpow_add₀ (by norm_num)]
          congr 1
          omega

end IsRounded

end Digits

end StreamGauge.Decimal
