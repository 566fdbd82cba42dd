import StreamGauge.Proofs.Decimal.Numeral
import StreamGauge.Proofs.Decimal.Rounding

/-!
# A double with a fixed count of digits

`significantOfBits` rounds a double to a number of digits and writes them with the point in place,
if the exponent is moderate, or with an exponent. It rounds twice: once to learn the exponent, and
once more to write the digits up to a place after the point.

* Either way the digits before and behind the point are those of the rounded number
  (`exists_spread_positional`, `exists_spread_leadingText`), since both roundings agree
  (`Digits.IsRounded.fixed_eq`).
* `Numeral.General` says how many digits a numeral has, and when and how it has an exponent;
  `exists_general` finds such a numeral in the text, which denotes the rounded number.
* `significant_denotes` puts this together for doubles.
-/

namespace StreamGauge.Decimal

/-! ## Digits of a natural number -/

theorem digitText_of_ten_le {n : ℕ} (h : 10 ≤ n) :
    (digitText n).toList = (digitText (n / 10)).toList ++ [(n % 10).digitChar] := by
  simp only [digitText, Nat.toString_eq_ofList_toDigits, String.toList_ofList]
  exact Nat.toDigits_of_base_le (by decide) h

theorem length_digitText_le_iff {n k : ℕ} (hk : 0 < k) :
    (digitText n).toList.length ≤ k ↔ n < tenTo k := by
  rw [digitText, Nat.toString_eq_ofList_toDigits, String.toList_ofList]
  exact Nat.length_toDigits_le_iff (by decide) hk

theorem length_digitText_pos (n : ℕ) : 0 < (digitText n).toList.length :=
  List.length_pos_of_ne_nil (digitText_ne_nil n)

theorem length_digitText {n k : ℕ} (hlow : tenTo k ≤ n) (hhigh : n < tenTo (k + 1)) :
    (digitText n).toList.length = k + 1 := by
  have hle := (length_digitText_le_iff (Nat.succ_pos k)).mpr hhigh
  have hpos := length_digitText_pos n
  cases k with
  | zero => omega
  | succ k =>
    have := mt (length_digitText_le_iff (n := n) (Nat.succ_pos k)).mp (Nat.not_lt.mpr hlow)
    omega

/-- Without its last `k` digits, a number is divided by `10 ^ k`. -/
theorem take_digitText {n k : ℕ} (h : k < (digitText n).toList.length) :
    (digitText n).toList.take ((digitText n).toList.length - k) =
      (digitText (n / tenTo k)).toList := by
  induction k generalizing n with
  | zero => rw [Nat.sub_zero, List.take_length, tenTo_zero, Nat.div_one]
  | succ k ih =>
    have hten : 10 ≤ n := by
      have := mt (length_digitText_le_iff (n := n) (k := 1) Nat.one_pos).mpr (by omega)
      exact Nat.not_lt.mp this
    have hdigits := digitText_of_ten_le hten
    have hlength := congrArg List.length hdigits
    rw [List.length_append, List.length_singleton] at hlength
    rw [tenTo_succ, ← Nat.div_div_eq_div_mul, ← ih (by omega), hdigits, List.length_append,
      List.length_singleton, Nat.add_sub_add_right, List.take_append_of_le_length (by omega)]

theorem head?_digitText {n : ℕ} (h : 0 < n) : (digitText n).toList.head? ≠ some '0' := by
  induction n using Nat.strong_induction_on with
  | h n ih =>
    by_cases hten : 10 ≤ n
    · rw [digitText_of_ten_le hten, List.head?_append_of_ne_nil _ (digitText_ne_nil _)]
      exact ih (n / 10) (by omega) (by omega)
    · have hdigit : ∀ m < 10, 0 < m → m.digitChar ≠ '0' := by decide
      rw [digitText, Nat.toString_eq_ofList_toDigits, String.toList_ofList,
        Nat.toDigits_of_lt_base (by omega)]
      exact fun heq => hdigit n (by omega) h (Option.some.inj heq)

/-! ## The point -/

theorem positional_of_neg {d : Digits} (h : d.exponent < 0) :
    positional false d = positional true d := by
  unfold positional
  simp only [if_neg (Int.not_le.mpr h)]

/-- Where the point is put into a number, the digits before it are those of the whole part, and
there are as many behind it as places. -/
theorem exists_spread_positional {d : Digits} (h : d.exponent ≤ 0) :
    let places := (-d.exponent).toNat
    let whole := (digitText (d.coefficient / tenTo places)).toList
    ∃ fraction, (positional false d).toList = whole ++ fractionText fraction ∧
      fraction.length = places ∧ Spread d.coefficient whole fraction := by
  intro places whole
  have hwhole : whole ≠ [] := digitText_ne_nil _
  have hpointed : ∀ {fraction : List Char}, d.exponent < 0 → fraction.length = places →
      fractionText fraction = '.' :: fraction := fun hneg hlength =>
    if_neg fun hnil => by rw [hnil, List.length_nil] at hlength; omega
  by_cases hzero : d.exponent = 0
  · have hplaces : places = 0 := by omega
    have hall : whole = (digitText d.coefficient).toList := by
      simp only [whole, hplaces, tenTo_zero, Nat.div_one]
    refine ⟨[], ?_, hplaces.symm, hwhole, 0, ?_⟩
    · simp [positional, hzero, hall, fractionText, zeros]
    · simp [hall]
  have hneg : d.exponent < 0 := by omega
  -- Either the point falls between the digits, or zeros have to come before them.
  by_cases hinner : places < (digitText d.coefficient).toList.length
  · have htake : _ = whole := take_digitText hinner
    generalize hdigits : (digitText d.coefficient).toList = digits at hinner htake
    have hlength : (digits.drop (digits.length - places)).length = places := by
      rw [List.length_drop]
      omega
    refine ⟨digits.drop (digits.length - places), ?_, hlength, hwhole, 0, ?_⟩
    · rw [positional_of_neg hneg, (split_inner hneg (by rwa [hdigits])).text, hdigits, htake,
        hpointed hneg hlength]
    · rw [← htake, List.take_append_drop, hdigits]
      rfl
  · have hsmall : d.coefficient < tenTo places :=
      (length_digitText_le_iff (by omega)).mp (Nat.not_lt.mp hinner)
    have hnone : whole = ['0'] := by
      simp only [whole, Nat.div_eq_of_lt hsmall]
      decide
    have hlength : (List.replicate (places - (digitText d.coefficient).toList.length) '0' ++
        (digitText d.coefficient).toList).length = places := by
      rw [List.length_append, List.length_replicate]
      omega
    refine ⟨_, ?_, hlength, hwhole, places - (digitText d.coefficient).toList.length + 1, ?_⟩
    · rw [positional_of_neg hneg, (split_small hneg (Nat.not_lt.mp hinner)).text, hnone,
        hpointed hneg hlength]
    · rw [hnone, List.singleton_append, ← List.cons_append, ← List.replicate_succ]

/-- A point behind the first digit. -/
theorem exists_spread_leadingText {n k : ℕ} (hlow : tenTo k ≤ n) (hhigh : n < tenTo (k + 1)) :
    ∃ first fraction, (leadingText n).toList = [first] ++ fractionText fraction ∧
      fraction.length = k ∧ first ≠ '0' ∧ Spread n [first] fraction := by
  have hlength := length_digitText hlow hhigh
  have hhead := head?_digitText (Nat.lt_of_lt_of_le (tenTo_pos k) hlow)
  obtain ⟨first, fraction, hdigits⟩ := List.exists_cons_of_ne_nil (digitText_ne_nil n)
  rw [hdigits] at hlength hhead
  refine ⟨first, fraction, ?_, by simpa using hlength, fun heq => hhead (by rw [heq]; rfl),
    by simp, 0, ?_⟩
  · unfold leadingText fractionText
    rw [hdigits]
    cases fraction with
    | nil => simp
    | cons c rest => simp
  · rw [hdigits]
    rfl

/-! ## The exponent -/

/-- The digits of an exponent, at least two. -/
def exponentDigits (n : ℕ) : List Char := (if n < 10 then ['0'] else []) ++ (digitText n).toList

theorem toList_paddedExponent (e : ℤ) : (paddedExponent e).toList =
    (if e < 0 then '-' else '+') :: exponentDigits e.natAbs := by
  unfold paddedExponent exponentDigits digitText
  split <;> split <;> simp

theorem reading_exponentDigits (n : ℕ) : Nat.ofDigitChars 10 (exponentDigits n) 0 = n := by
  unfold exponentDigits
  rw [Nat.ofDigitChars_append]
  split
  · exact ofDigitChars_digitText n
  · exact ofDigitChars_digitText n

theorem isDigit_exponentDigits (n : ℕ) : ∀ c ∈ exponentDigits n, c.isDigit = true := by
  intro c hc
  unfold exponentDigits at hc
  rw [List.mem_append] at hc
  rcases hc with hc | hc
  · split at hc
    · rw [List.mem_singleton.mp hc]
      decide
    · cases hc
  · exact isDigit_of_mem_digitText hc

/-- There are two digits, or as many as it takes. -/
theorem length_exponentDigits (n : ℕ) : 2 ≤ (exponentDigits n).length ∧
    (2 < (exponentDigits n).length → (exponentDigits n).head? ≠ some '0') := by
  unfold exponentDigits
  by_cases hlt : n < 10
  · have hone : (digitText n).toList.length = 1 :=
      Nat.le_antisymm ((length_digitText_le_iff Nat.one_pos).mpr hlt) (length_digitText_pos n)
    rw [if_pos hlt, List.length_append, hone]
    exact ⟨Nat.le_refl _, fun h => absurd h (Nat.lt_irrefl _)⟩
  · have htwo : ¬ (digitText n).toList.length ≤ 1 :=
      mt (length_digitText_le_iff Nat.one_pos).mp hlt
    rw [if_neg hlt, List.nil_append]
    exact ⟨by omega, fun _ => head?_digitText (by omega)⟩

/-! ## The general form -/

/-- How a number of at most `digits` significant digits, the first one at `10 ^ e`, is written. -/
structure Numeral.General (n : Numeral) (digits : ℕ) (e : ℤ) : Prop where
  /-- Zeros in front do not count. -/
  count_le : ((n.whole ++ n.fraction).dropWhile (· = '0')).length ≤ digits
  /-- No zero ends the fraction. -/
  trimmed : n.fraction.getLast? ≠ some '0'
  /-- A moderate exponent is not written. -/
  exponent?_eq_none_iff : n.exponent? = none ↔ -4 ≤ e ∧ e < digits
  /-- Then the whole part is there with all its digits. -/
  whole_eq : n.exponent? = none → n.whole = (digitText ⌊n.magnitude⌋₊).toList
  /-- Any other exponent is written with its sign and two digits or as many as it takes, and then
  one digit stands before the point, which is not zero. -/
  exponent_eq : ∀ negative ds, n.exponent? = some (negative, ds) →
    (∃ first, n.whole = [first] ∧ first ≠ '0') ∧ (negative = true ↔ e < 0) ∧
      Nat.ofDigitChars 10 ds 0 = e.natAbs ∧ 2 ≤ ds.length ∧
      (2 < ds.length → ds.head? ≠ some '0')

theorem isModerate_iff {places : ℕ} {e : ℤ} :
    isModerate places e = true ↔ -4 ≤ e ∧ e < places := by
  rw [isModerate, Bool.and_eq_true, decide_eq_true_eq, decide_eq_true_eq]

namespace Digits.IsRounded

variable {d : Digits} {places num den : ℕ} {x : ℚ}

theorem length_digitText (h : d.IsRounded places x) (hplaces : 1 ≤ places) :
    (digitText d.coefficient).toList.length = places := by
  have hhigh := h.high
  rw [← Nat.sub_add_cancel hplaces] at hhigh
  rw [Decimal.length_digitText h.low hhigh, Nat.sub_add_cancel hplaces]

/-- With the point in place. -/
theorem exists_positional (h : d.IsRounded places x) (hplaces : 1 ≤ places)
    (hmoderate : -4 ≤ d.leading ∧ d.leading < places) (negative : Bool) :
    ∃ n : Numeral, n.Proper ∧ n.negative = negative ∧
      n.text = Numeral.signText negative ++ trimZeros (positional false d).toList ∧
      n.magnitude = d.value ∧ n.General places d.leading := by
  have hleading := h.leading_eq hplaces
  obtain ⟨fraction, htext, hlength, hspread⟩ := exists_spread_positional (d := d) (by omega)
  generalize hdecimals : (-d.exponent).toNat = decimals at htext hlength hspread
  generalize hwhole : (digitText (d.coefficient / tenTo decimals)).toList = whole at htext hspread
  have hvalue : d.value = (d.coefficient : ℚ) / (tenTo decimals : ℕ) := by
    rw [Digits.value, show d.exponent = -(decimals : ℤ) by omega, zpow_neg, zpow_natCast,
      cast_tenTo, div_eq_mul_inv]
  -- Trimmed zeros do not change what is read, so the fraction may keep its full length here.
  have hmagnitude : Numeral.magnitude ⟨negative, whole, dropZeros fraction, none⟩ = d.value := by
    rw [Numeral.magnitude_trimmed, Numeral.magnitude, hspread.reading, hlength, Digits.value,
      show d.exponent = 0 - (decimals : ℤ) by omega]
    rfl
  refine ⟨⟨negative, whole, dropZeros fraction, none⟩,
    ⟨hspread.whole_ne_nil, hspread.isDigit_trimmed, by rintro _ _ ⟨⟩⟩, rfl, ?_, hmagnitude,
    ⟨?_, getLast?_dropZeros fraction, iff_of_true rfl hmoderate, fun _ => ?_,
      by rintro _ _ ⟨⟩⟩⟩
  · rw [htext, trimZeros_fractionText hspread.isDigit]
    simp [Numeral.text, Numeral.exponentText]
  · rw [← h.length_digitText hplaces]
    exact hspread.count_le
  · rw [hmagnitude, hvalue, Nat.floor_div_eq_div, hwhole]

/-- With an exponent. -/
theorem exists_scientific (h : d.IsRounded places x) (hplaces : 1 ≤ places)
    (hfar : ¬ (-4 ≤ d.leading ∧ d.leading < places)) (negative : Bool) :
    ∃ n : Numeral, n.Proper ∧ n.negative = negative ∧
      n.text = Numeral.signText negative ++ (trimZeros (leadingText d.coefficient).toList ++
        'e' :: (paddedExponent d.leading).toList) ∧
      n.magnitude = d.value ∧ n.General places d.leading := by
  have hhigh := h.high
  rw [← Nat.sub_add_cancel hplaces] at hhigh
  obtain ⟨first, fraction, htext, hlength, hfirst, hspread⟩ :=
    exists_spread_leadingText h.low hhigh
  have hexponent := length_exponentDigits d.leading.natAbs
  have hscale : Numeral.scale ⟨negative, [first], fraction,
      some (decide (d.leading < 0), exponentDigits d.leading.natAbs)⟩ = d.leading := by
    by_cases hneg : d.leading < 0
    · simp only [Numeral.scale, hneg, decide_true, reading_exponentDigits]
      omega
    · simp only [Numeral.scale, hneg, decide_false, reading_exponentDigits]
      omega
  refine ⟨⟨negative, [first], dropZeros fraction,
    some (decide (d.leading < 0), exponentDigits d.leading.natAbs)⟩,
    ⟨hspread.whole_ne_nil, hspread.isDigit_trimmed, ?_⟩, rfl, ?_, ?_,
    ⟨?_, getLast?_dropZeros fraction, iff_of_false (Option.some_ne_none _) hfar,
      fun hnone => absurd hnone (Option.some_ne_none _), ?_⟩⟩
  · rintro negative ds ⟨⟩
    exact ⟨List.ne_nil_of_length_pos (by omega), isDigit_exponentDigits _⟩
  · rw [htext, trimZeros_fractionText hspread.isDigit, toList_paddedExponent]
    simp [Numeral.text, Numeral.exponentText]
  · rw [Numeral.magnitude_trimmed, Numeral.magnitude, hspread.reading, hscale, hlength,
      Digits.value, h.leading_eq hplaces]
    congr 2
    omega
  · rw [← h.length_digitText hplaces]
    exact hspread.count_le
  · rintro negative ds ⟨⟩
    exact ⟨⟨first, rfl, hfirst⟩, decide_eq_true_iff, reading_exponentDigits _, hexponent.1,
      hexponent.2⟩

end Digits.IsRounded

/-- The text of a quotient, after its sign, is a numeral in general form. It denotes the number that
the quotient is rounded to. -/
theorem exists_general {places num den : ℕ} (hplaces : 1 ≤ places) (hnum : 0 < num) (hden : 0 < den)
    (negative : Bool) :
    ∃ n : Numeral, n.Proper ∧ n.negative = negative ∧
      n.text = Numeral.signText negative ++ (significantQuotient places num den).toList ∧
      n.magnitude = (Digits.rounded places num den).value ∧
      n.General places (Digits.rounded places num den).leading := by
  have hrounded := Digits.isRounded_rounded hplaces hnum hden
  have hleading := hrounded.leading_eq hplaces
  unfold significantQuotient
  generalize Digits.rounded places num den = d at hrounded hleading ⊢
  by_cases hmoderate : -4 ≤ d.leading ∧ d.leading < places
  · have hdecimals : ((places - 1 : ℕ) - d.leading).toNat = (-d.exponent).toNat := by omega
    simp only [if_pos (isModerate_iff.mpr hmoderate), hdecimals, String.toList_ofList]
    -- The digits are rounded a second time, with places after the point. It is the same number.
    rw [hrounded.fixed_eq hden (by omega)]
    exact hrounded.exists_positional hplaces hmoderate negative
  · simp only [if_neg (mt isModerate_iff.mp hmoderate), String.toList_append, String.toList_ofList,
      List.append_assoc]
    exact hrounded.exists_scientific hplaces hmoderate negative

/-! ## Doubles -/

theorem placesFit_iff {places num den : ℕ} :
    let leading := (Digits.rounded places num den).leading
    placesFit places num den = true ↔ places - 1 ≤ maxPlaces ∧
      (-4 ≤ leading → leading < places → (places : ℤ) - 1 - leading ≤ maxPlaces) := by
  intro leading
  unfold placesFit
  rw [Bool.and_eq_true, decide_eq_true_eq, Bool.or_eq_true, Bool.not_eq_true', decide_eq_true_eq,
    ← Bool.not_eq_true, isModerate_iff, ← imp_iff_not_or, and_imp]

/-- A double that is not zero, written with `digits` significant digits. Let `r` be its magnitude
rounded to so many digits, of two numbers that are as near the one with the even last digit, and
`10 ^ e` the place of the first digit of `r`.

The text is a numeral, in general form for `e`, and denotes `r` with the sign of the double. It can
be written unless there are more than 65535 places behind the point, zeros at the end included:
those behind the first digit, or as many as it takes with the point in place. -/
theorem significant_denotes {bits : UInt64} {negative : Bool} {v : Dyadic} {digits : ℕ}
    (hbits : Reading.ofBits bits = .finite negative v) (hpos : 0 < v.mantissa)
    (hdigits : 1 ≤ digits) :
    ∃ (r : ℚ) (e : ℤ) (n : Numeral),
      (∀ r', RoundsTo digits v.value r' ↔ r' = r) ∧ (∀ e', IsLeading r e' ↔ e' = e) ∧
      Numeral.read? (significantOfBits bits digits).toList = some n ∧
      n.value = (if negative then -r else r) ∧ n.General digits e ∧
      significantOfBits? bits digits =
        if digits - 1 ≤ maxPlaces ∧ (-4 ≤ e → e < digits → (digits : ℤ) - 1 - e ≤ maxPlaces)
        then some (significantOfBits bits digits) else none := by
  have hnum : 0 < v.quotient.1 := Nat.mul_pos hpos (twoTo_pos _)
  have hrounded := Digits.isRounded_rounded hdigits hnum v.quotient_snd_pos
  obtain ⟨n, hproper, hnegative, htext, hmagnitude, hgeneral⟩ :=
    exists_general hdigits hnum v.quotient_snd_pos negative
  have hleading := hrounded.isLeading hdigits
  have hfit := @placesFit_iff digits v.quotient.1 v.quotient.2
  have hbody : (significantOfBits bits digits).toList = Numeral.signText negative ++
      (significantQuotient digits v.quotient.1 v.quotient.2).toList := by
    unfold significantOfBits Numeral.signText
    simp only [hbits, if_neg hpos.ne', Nat.max_eq_left hdigits]
    cases negative <;> simp
  rw [Dyadic.value_quotient] at hrounded
  generalize Digits.rounded digits v.quotient.1 v.quotient.2 = d at *
  refine ⟨d.value, d.leading, n, fun r' => ⟨fun h => h.unique hrounded.roundsTo, ?_⟩,
    fun e' => ⟨fun h => h.unique hleading, ?_⟩, ?_, ?_, hgeneral, ?_⟩
  · rintro rfl
    exact hrounded.roundsTo
  · rintro rfl
    exact hleading
  · rw [hbody, ← htext]
    exact Numeral.read?_text hproper
  · rw [Numeral.value, hnegative, hmagnitude]
  · unfold significantOfBits?
    simp only [hbits, decide_eq_false hpos.ne', Bool.false_or, Nat.max_eq_left hdigits]
    exact if_congr hfit rfl rfl

/-- One place too many: of the number one, 65536 digits behind the first. -/
example : significantOfBits? 0x3FF0000000000000 65537 = none := by decide

/-- A carry: rounded to three digits, the double next to -9.996 has two digits before the point, so
that the second rounding is at another place than the first one. -/
theorem significant_denotes_of_carry : ∃ n : Numeral,
    Numeral.read? (significantOfBits 0xC023FDF3B645A1CB 3).toList = some n ∧
    n.value = -10 ∧ n.General 3 1 ∧
    significantOfBits? 0xC023FDF3B645A1CB 3 = some (significantOfBits 0xC023FDF3B645A1CB 3) := by
  obtain ⟨r, e, n, hr, he, hread, hvalue, hgeneral, hfits⟩ :=
    @significant_denotes 0xC023FDF3B645A1CB true ⟨5627247734399435, -49⟩ 3 (by decide)
      (by decide) (by decide)
  have hten : RoundsTo 3 (Dyadic.value ⟨5627247734399435, -49⟩) 10 := by
    refine ⟨0, 1000, ⟨?_, ?_⟩, ⟨?_, fun _ => rfl⟩, ?_⟩
    · norm_num [Dyadic.value]
    · norm_num [Dyadic.value]
    · norm_num [Dyadic.value, abs_le]
    · norm_num
  have hr10 : (10 : ℚ) = r := (hr 10).mp hten
  have he1 : 1 = e := (he 1).mp (by rw [← hr10, IsLeading]; norm_num)
  subst hr10 he1
  exact ⟨n, hread, hvalue, hgeneral, by rw [hfits]; exact if_pos (by decide)⟩

example : significantOfBits 0xC023FDF3B645A1CB 3 = "-10" := by decide +kernel

end StreamGauge.Decimal
