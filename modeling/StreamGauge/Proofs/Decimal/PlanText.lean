import StreamGauge.Decimal.Notation
import StreamGauge.Scalar.Double
import StreamGauge.Proofs.Decimal.Shortest

/-!
# Doubles in the text of a plan

Different doubles are written differently in a plan, non-numbers apart (`eq_of_planText`). The text
is a sign and a magnitude (`textOfBits_plan`); of a number, the magnitude shows the digits with a
point or with an exponent, and either way it says which number the digits denote
(`value_eq_of_planDigits`). These are the shortest digits, which tell doubles apart.

No integer and no truth value is written like a double: `mem_planText` lists the characters, and
`exists_mark` finds one among them that no integer has.
-/

namespace StreamGauge.Decimal

/-! ## Bits and readings -/

/-- The bits of a double are its three fields. -/
theorem toNat_eq_fields (bits : UInt64) :
    bits.toNat = (if signField bits then twoTo 63 else 0) + exponentField bits * leadingOne +
      fractionField bits := by
  have hlt := bits.toNat_lt
  simp only [signField, exponentField, fractionField, leadingOne,
    show twoTo 63 = 9223372036854775808 from rfl, show twoTo 52 = 4503599627370496 from rfl,
    show twoTo 11 = 2048 from rfl, decide_eq_true_eq]
  split <;> omega

theorem fractionField_lt (bits : UInt64) : fractionField bits < leadingOne :=
  Nat.mod_lt _ (twoTo_pos 52)

theorem exponentField_lt (bits : UInt64) : exponentField bits < 2048 :=
  Nat.mod_lt _ (twoTo_pos 11)

theorem eq_of_fields {a b : UInt64} (hsign : signField a = signField b)
    (hexponent : exponentField a = exponentField b)
    (hfraction : fractionField a = fractionField b) :
    a = b := by
  rw [← UInt64.toNat_inj, toNat_eq_fields a, toNat_eq_fields b, hsign, hexponent, hfraction]

namespace Reading

/-- A double denotes a number with a mantissa and an exponent of doubles. -/
theorem canonical_of_finite {bits : UInt64} {negative : Bool} {v : Dyadic}
    (h : ofBits bits = .finite negative v) : v.Canonical := by
  have hfraction := fractionField_lt bits
  have hexponent := exponentField_lt bits
  unfold ofBits at h
  simp only at h
  split at h
  · split at h <;> cases h
  split at h
  · cases h
    exact ⟨by simp only; omega, Int.le_refl _, .inr rfl⟩
  · cases h
    exact ⟨by simp only; omega, by simp only; omega, .inl (Nat.le_add_right _ _)⟩

theorem fields_of_infinite {bits : UInt64} {negative : Bool}
    (h : ofBits bits = .infinite negative) :
    signField bits = negative ∧ exponentField bits = 2047 ∧ fractionField bits = 0 := by
  unfold ofBits at h
  simp only at h
  split at h
  case isTrue hfield =>
    split at h
    case isTrue hfraction =>
      cases h
      exact ⟨rfl, hfield, hfraction⟩
    case isFalse => cases h
  case isFalse => split at h <;> cases h

/-- The fields of a number, from its mantissa and exponent. -/
theorem fields_of_finite {bits : UInt64} {negative : Bool} {v : Dyadic}
    (h : ofBits bits = .finite negative v) :
    signField bits = negative ∧
      exponentField bits = (if v.mantissa < leadingOne then 0 else (v.exponent + 1075).toNat) ∧
      fractionField bits = v.mantissa % leadingOne := by
  have hfraction := fractionField_lt bits
  unfold ofBits at h
  simp only at h
  split at h
  case isTrue => split at h <;> cases h
  case isFalse =>
    split at h
    case isTrue hfield =>
      cases h
      exact ⟨rfl, by rw [if_pos hfraction, hfield], (Nat.mod_eq_of_lt hfraction).symm⟩
    case isFalse =>
      cases h
      refine ⟨rfl, ?_, ?_⟩
      · rw [if_neg (Nat.not_lt.mpr (Nat.le_add_right _ _))]
        simp only
        omega
      · rw [Nat.add_mod_left, Nat.mod_eq_of_lt hfraction]

/-- Two doubles that denote the same have the same bits, unless they denote no number. -/
theorem eq_of_ofBits {a b : UInt64} (h : ofBits a = ofBits b) (hnumber : ofBits a ≠ .notANumber) :
    a = b := by
  -- The fields can be read off, except for the fraction of a non-number.
  cases ha : ofBits a with
  | notANumber => exact absurd ha hnumber
  | infinite negative =>
    obtain ⟨hsign, hexponent, hfraction⟩ := fields_of_infinite ha
    obtain ⟨hsign', hexponent', hfraction'⟩ := fields_of_infinite (h ▸ ha)
    exact eq_of_fields (hsign.trans hsign'.symm) (hexponent.trans hexponent'.symm)
      (hfraction.trans hfraction'.symm)
  | finite negative v =>
    obtain ⟨hsign, hexponent, hfraction⟩ := fields_of_finite ha
    obtain ⟨hsign', hexponent', hfraction'⟩ := fields_of_finite (h ▸ ha)
    exact eq_of_fields (hsign.trans hsign'.symm) (hexponent.trans hexponent'.symm)
      (hfraction.trans hfraction'.symm)

end Reading

/-! ## Digits with a point or an exponent -/

/-- Digits as the plan style writes them. -/
def planDigits (d : Digits) : String :=
  if Style.plan.isPositional d.leading then positional true d else scientific false d

/-- A natural number is read back from its digits. -/
theorem ofDigitChars_digitText (n : Nat) : Nat.ofDigitChars 10 (digitText n).toList 0 = n := by
  rw [digitText, Nat.toString_eq_ofList_toDigits, String.toList_ofList]
  exact Nat.ofDigitChars_ten_toDigits

theorem digitText_inj {m n : Nat} (h : digitText m = digitText n) : m = n := by
  rw [← ofDigitChars_digitText m, h, ofDigitChars_digitText]

theorem isDigit_of_mem_digitText {n : Nat} {c : Char} (h : c ∈ (digitText n).toList) :
    c.isDigit = true := by
  rw [digitText, Nat.toString_eq_ofList_toDigits, String.toList_ofList] at h
  exact Nat.isDigit_of_mem_toDigits (by decide) (by decide) h

theorem digitText_ne_nil (n : Nat) : (digitText n).toList ≠ [] := by
  rw [digitText, Nat.toString_eq_ofList_toDigits, String.toList_ofList]
  exact Nat.toDigits_ne_nil

theorem toList_zeros (n : Nat) : (zeros n).toList = List.replicate n '0' := by
  rw [zeros, String.toList_ofList]

theorem isDigit_of_mem_zeros {n : Nat} {c : Char} (h : c ∈ List.replicate n '0') :
    c.isDigit = true := by
  rw [(List.mem_replicate.mp h).2]
  decide

/-- The positional text has the digits `front` before the point and `back` after it. Read without
the point, they are the number in units of the last place. -/
structure PointSplit (d : Digits) (front back : List Char) : Prop where
  text : (positional true d).toList = front ++ '.' :: back
  front_ne_nil : front ≠ []
  digits : ∀ c ∈ front ++ back, c.isDigit = true
  value : (Nat.ofDigitChars 10 (front ++ back) 0 : ℚ) = d.value * 10 ^ back.length

section Positional

variable {d : Digits}

/-- A whole number ends in zeros, and one more zero stands after the point. -/
theorem split_whole (h : 0 ≤ d.exponent) :
    PointSplit d ((digitText d.coefficient).toList ++ List.replicate d.exponent.toNat '0')
      ['0'] where
  text := by simp [positional, if_pos h, toList_zeros]
  front_ne_nil h := digitText_ne_nil d.coefficient (List.append_eq_nil_iff.mp h).1
  digits c hc := by
    rw [List.append_assoc, List.mem_append, ← List.replicate_succ'] at hc
    exact hc.elim isDigit_of_mem_digitText isDigit_of_mem_zeros
  value := by
    have hten := zpow_mul_pow_toNat (show (10 : ℚ) ≠ 0 by norm_num) d.exponent
    rw [show (-d.exponent).toNat = 0 by omega, pow_zero, mul_one] at hten
    rw [List.append_assoc, ← List.replicate_succ', Nat.ofDigitChars_append,
      ofDigitChars_digitText, Nat.ofDigitChars_replicate_zero, Digits.value, hten]
    push_cast
    rw [pow_succ, List.length_singleton, pow_one]
    ring

/-- In units of the last place the number is its coefficient. -/
theorem value_mul_places (h : d.exponent < 0) :
    d.value * 10 ^ (-d.exponent).toNat = d.coefficient := by
  have hten := zpow_mul_pow_toNat (show (10 : ℚ) ≠ 0 by norm_num) d.exponent
  rw [show d.exponent.toNat = 0 by omega, pow_zero] at hten
  rw [Digits.value, mul_assoc, hten, mul_one]

/-- The point lies between the digits. -/
theorem split_inner (h : d.exponent < 0)
    (hplaces : (-d.exponent).toNat < (digitText d.coefficient).toList.length) :
    let digits := (digitText d.coefficient).toList
    let whole := digits.length - (-d.exponent).toNat
    PointSplit d (digits.take whole) (digits.drop whole) where
  text := by
    unfold positional
    simp only
    rw [if_neg (by omega), if_pos hplaces]
    simp
  front_ne_nil htake := by
    rcases List.take_eq_nil_iff.mp htake with hwhole | hnil
    · omega
    · exact digitText_ne_nil _ hnil
  digits := by
    rw [List.take_append_drop]
    exact fun c hc => isDigit_of_mem_digitText hc
  value := by
    rw [List.take_append_drop, ofDigitChars_digitText, List.length_drop,
      Nat.sub_sub_self (Nat.le_of_lt hplaces), value_mul_places h]

/-- All digits stand after the point, and zeros fill the places before them. -/
theorem split_small (h : d.exponent < 0)
    (hplaces : (digitText d.coefficient).toList.length ≤ (-d.exponent).toNat) :
    let digits := (digitText d.coefficient).toList
    PointSplit d ['0']
      (List.replicate ((-d.exponent).toNat - digits.length) '0' ++ digits) where
  text := by
    unfold positional
    simp only
    rw [if_neg (by omega), if_neg (by omega)]
    simp [toList_zeros]
  front_ne_nil := by simp
  digits c hc := by
    rw [← List.append_assoc, List.mem_append, List.singleton_append, ← List.replicate_succ] at hc
    exact hc.elim isDigit_of_mem_zeros isDigit_of_mem_digitText
  value := by
    rw [← List.append_assoc, List.singleton_append, ← List.replicate_succ,
      Nat.ofDigitChars_append, Nat.ofDigitChars_replicate_zero, Nat.mul_zero,
      ofDigitChars_digitText, List.length_append, List.length_replicate,
      Nat.sub_add_cancel hplaces, value_mul_places h]

end Positional

theorem positional_split (d : Digits) : ∃ front back : List Char, PointSplit d front back := by
  by_cases hwhole : 0 ≤ d.exponent
  · exact ⟨_, _, split_whole hwhole⟩
  · by_cases hplaces : (-d.exponent).toNat < (digitText d.coefficient).toList.length
    · exact ⟨_, _, split_inner (by omega) hplaces⟩
    · exact ⟨_, _, split_small (by omega) (by omega)⟩

theorem mem_positional {d : Digits} {c : Char} (h : c ∈ (positional true d).toList) :
    c.isDigit = true ∨ c = '.' := by
  obtain ⟨front, back, htext, -, hdigit, -⟩ := positional_split d
  rw [htext, List.mem_append, List.mem_cons] at h
  rcases h with h | h | h
  · exact .inl (hdigit c (List.mem_append_left _ h))
  · exact .inr h
  · exact .inl (hdigit c (List.mem_append_right _ h))

/-- The digits of a coefficient are left when the point is taken out. -/
theorem filter_leadingText (n : Nat) :
    (leadingText n).toList.filter (· ≠ '.') = (digitText n).toList := by
  have hdigit : ∀ c ∈ (digitText n).toList, decide (c ≠ '.') = true := fun c hc => by
    rw [decide_eq_true_eq]
    rintro rfl
    exact absurd (isDigit_of_mem_digitText hc) (by decide)
  unfold leadingText
  split
  case h_1 hnil => simp [hnil]
  case h_2 first hsingle =>
    rw [hsingle] at hdigit ⊢
    rw [String.toList_ofList, List.filter_eq_self.mpr hdigit]
  case h_3 first rest _ hcons =>
    rw [hcons] at hdigit ⊢
    rw [String.toList_ofList]
    simpa [List.filter_cons] using List.filter_eq_self.mpr hdigit

theorem mem_leadingText {n : Nat} {c : Char} (h : c ∈ (leadingText n).toList) :
    c.isDigit = true ∨ c = '.' := by
  by_cases hc : c = '.'
  · exact .inr hc
  · left
    apply isDigit_of_mem_digitText (n := n)
    rw [← filter_leadingText, List.mem_filter]
    exact ⟨h, decide_eq_true hc⟩

theorem exists_first_leadingText (n : Nat) :
    ∃ c rest, (leadingText n).toList = c :: rest ∧ c.isDigit = true := by
  unfold leadingText
  split
  case h_1 hnil => exact absurd hnil (digitText_ne_nil n)
  case h_2 first hsingle =>
    exact ⟨first, [], String.toList_ofList,
      isDigit_of_mem_digitText (n := n) (by simp [hsingle])⟩
  case h_3 first rest _ hcons =>
    refine ⟨first, '.' :: rest, String.toList_ofList, isDigit_of_mem_digitText (n := n) ?_⟩
    rw [hcons]
    exact List.mem_cons_self

theorem toString_text (s : String) : toString s = s := rfl

theorem mem_intText {z : Int} {c : Char} (h : c ∈ (toString z).toList) :
    c.isDigit = true ∨ c = '-' := by
  rw [Int.toString_eq_repr, Int.repr_eq_if] at h
  split at h
  · exact .inl (isDigit_of_mem_digitText h)
  · rw [String.toList_append, List.mem_append] at h
    rcases h with h | h
    · exact .inr (List.mem_singleton.mp h)
    · exact .inl (isDigit_of_mem_digitText h)

theorem intText_ne_nil (z : Int) : (toString z).toList ≠ [] := by
  rw [Int.toString_eq_repr, Int.repr_eq_if]
  split
  · exact digitText_ne_nil z.toNat
  · simp

theorem toList_scientific (d : Digits) : (scientific false d).toList =
    (leadingText d.coefficient).toList ++ 'e' :: (toString d.leading).toList := by
  simp [scientific]

theorem mem_scientific {d : Digits} {c : Char} (h : c ∈ (scientific false d).toList) :
    c.isDigit = true ∨ c ∈ ['.', 'e', '-'] := by
  rw [toList_scientific, List.mem_append, List.mem_cons] at h
  rcases h with h | rfl | h
  · rcases mem_leadingText h with h | rfl
    · exact .inl h
    · exact .inr (by decide)
  · exact .inr (by decide)
  · rcases mem_intText h with h | rfl
    · exact .inl h
    · exact .inr (by decide)

/-- Digits with the same coefficient and leading exponent are the same. -/
theorem Digits.eq_of_leading {d d' : Digits} (hcoefficient : d.coefficient = d'.coefficient)
    (hleading : d.leading = d'.leading) : d = d' := by
  unfold Digits.leading at hleading
  rw [hcoefficient] at hleading
  obtain ⟨coefficient, exponent⟩ := d
  obtain ⟨coefficient', exponent'⟩ := d'
  simp only at hcoefficient hleading
  rw [hcoefficient, show exponent = exponent' by omega]

theorem value_eq_of_positional {d d' : Digits} (h : positional true d = positional true d') :
    d.value = d'.value := by
  obtain ⟨front, back, htext, -, hdigit, hread⟩ := positional_split d
  obtain ⟨front', back', htext', -, -, hread'⟩ := positional_split d'
  -- Neither side has a second point, so the two texts split at the same place.
  have hpoint : '.' ∉ front ++ back := fun hmem => absurd (hdigit _ hmem) (by decide)
  rw [List.mem_append, not_or] at hpoint
  rw [h, htext'] at htext
  obtain ⟨rfl, -, rfl⟩ := (List.append_cons_inj_of_notMem hpoint.1 hpoint.2).mp htext.symm
  exact mul_right_cancel₀ (by positivity) (hread.symm.trans hread')

theorem value_eq_of_scientific {d d' : Digits} (h : scientific false d = scientific false d') :
    d.value = d'.value := by
  have hmark : 'e' ∉ (leadingText d.coefficient).toList := fun hmem => by
    rcases mem_leadingText hmem with hc | hc <;> exact absurd hc (by decide)
  have hmark' : 'e' ∉ (toString d.leading).toList := fun hmem => by
    rcases mem_intText hmem with hc | hc <;> exact absurd hc (by decide)
  have htext := congrArg String.toList h
  rw [toList_scientific, toList_scientific, List.append_cons_inj_of_notMem hmark hmark'] at htext
  obtain ⟨hdigits, -, hleading⟩ := htext
  have hcoefficient : d.coefficient = d'.coefficient := by
    apply digitText_inj
    rw [← String.toList_inj, ← filter_leadingText, ← filter_leadingText, hdigits]
  rw [Digits.eq_of_leading hcoefficient (Int.repr_inj.mp (String.toList_inj.mp hleading))]

theorem positional_ne_scientific (d d' : Digits) : positional true d ≠ scientific false d' := by
  intro h
  have hmark : 'e' ∈ (positional true d).toList := by
    rw [h, toList_scientific]
    exact List.mem_append_right _ List.mem_cons_self
  rcases mem_positional hmark with hc | hc <;> exact absurd hc (by decide)

/-- The text of digits says which number they denote. -/
theorem value_eq_of_planDigits {d d' : Digits} (h : planDigits d = planDigits d') :
    d.value = d'.value := by
  unfold planDigits at h
  split at h <;> split at h
  · exact value_eq_of_positional h
  · exact absurd h (positional_ne_scientific d d')
  · exact absurd h.symm (positional_ne_scientific d' d)
  · exact value_eq_of_scientific h

theorem mem_planDigits {d : Digits} {c : Char} (h : c ∈ (planDigits d).toList) :
    c.isDigit = true ∨ c ∈ ['.', 'e', '-'] := by
  unfold planDigits at h
  split at h
  · rcases mem_positional h with hc | rfl
    · exact .inl hc
    · exact .inr (by decide)
  · exact mem_scientific h

/-- A point or an exponent marks the text of digits. -/
theorem mark_mem_planDigits (d : Digits) :
    '.' ∈ (planDigits d).toList ∨ 'e' ∈ (planDigits d).toList := by
  unfold planDigits
  split
  · obtain ⟨front, back, htext, -⟩ := positional_split d
    left
    rw [htext]
    exact List.mem_append_right _ List.mem_cons_self
  · right
    rw [toList_scientific]
    exact List.mem_append_right _ List.mem_cons_self

theorem exists_first_planDigits (d : Digits) :
    ∃ c rest, (planDigits d).toList = c :: rest ∧ c.isDigit = true := by
  unfold planDigits
  split
  · obtain ⟨front, back, htext, hnil, hdigit, -⟩ := positional_split d
    obtain ⟨c, rest, rfl⟩ := List.exists_cons_of_ne_nil hnil
    exact ⟨c, rest ++ '.' :: back, htext, hdigit c (by simp)⟩
  · obtain ⟨c, rest, hleading, hdigit⟩ := exists_first_leadingText d.coefficient
    refine ⟨c, rest ++ 'e' :: (toString d.leading).toList, ?_, hdigit⟩
    rw [toList_scientific, hleading, List.cons_append]

/-! ## Doubles -/

/-- The digits of a number in a plan: the shortest ones; zero has one. -/
def Dyadic.planned (v : Dyadic) : Digits :=
  if v.mantissa = 0 then ⟨0, 0⟩ else Digits.shortest .upward v

theorem Dyadic.holds_planned {v : Dyadic} (h : v.Canonical) : v.basin.Holds v.planned.value := by
  unfold planned
  split
  case isTrue hzero =>
    have hlow : v.basin.low = 0 := by simp [basin, hzero, leadingOne]
    have hclosed : v.basin.closed = true := by simp [basin, hzero]
    rw [Basin.Holds, if_pos hclosed, hlow, Digits.value, Nat.cast_zero, zero_mul, zero_mul]
    exact ⟨le_rfl, by positivity⟩
  case isFalse hnonzero => exact holds_shortest .upward (Nat.pos_of_ne_zero hnonzero) h.lt

/-- Digits tell the numbers of doubles apart. -/
theorem Dyadic.Canonical.eq_of_planned {v w : Dyadic} (hv : v.Canonical) (hw : w.Canonical)
    (h : planDigits v.planned = planDigits w.planned) : v = w := by
  have hheld := holds_planned hw
  rw [← value_eq_of_planDigits h] at hheld
  exact hv.eq_of_holds hw (holds_planned hv) hheld

namespace Reading

/-- Whether a reading is written with a minus sign. -/
def isNegative : Reading → Bool
  | notANumber => false
  | infinite negative => negative
  | finite negative _ => negative

/-- The text of a reading in a plan, without the sign. -/
def magnitudeText : Reading → String
  | notANumber => "NaN"
  | infinite _ => "inf"
  | finite _ v => planDigits v.planned

end Reading

/-- A double in a plan is a sign and a magnitude. -/
theorem textOfBits_plan (bits : UInt64) : Style.plan.textOfBits bits =
    (if (Reading.ofBits bits).isNegative then "-" else "") ++
      (Reading.ofBits bits).magnitudeText := by
  have hzero : planDigits ⟨0, 0⟩ = Style.plan.zero := by
    simp [planDigits, Style.plan, Style.zero, Digits.leading, decimalLength, positional, digitText,
      zeros]
  unfold Style.textOfBits
  split
  case h_1 h =>
    rw [h]
    rfl
  case h_2 negative h =>
    rw [h]
    rfl
  case h_3 negative v h =>
    rw [h, Reading.isNegative, Reading.magnitudeText, Dyadic.planned]
    by_cases hm : v.mantissa = 0
    · rw [if_pos hm, if_pos hm, hzero]
    · rw [if_neg hm, if_neg hm]
      rfl

/-- Digits do not begin like a text that does not begin with a digit. -/
theorem planDigits_ne (d : Digits) {s : String} {c : Char} {rest : List Char}
    (hs : s.toList = c :: rest) (hc : c.isDigit = false) : planDigits d ≠ s := by
  rintro rfl
  obtain ⟨c', rest', hfirst, hdigit⟩ := exists_first_planDigits d
  rw [hs] at hfirst
  cases hfirst
  rw [hc] at hdigit
  cases hdigit

theorem magnitudeText_ne_minus (r : Reading) (rest : List Char) :
    r.magnitudeText.toList ≠ '-' :: rest := by
  intro h
  cases r with
  | notANumber => exact absurd h (by simp [Reading.magnitudeText])
  | infinite negative => exact absurd h (by simp [Reading.magnitudeText])
  | finite negative v => exact planDigits_ne v.planned h (by decide) rfl

/-- A magnitude has no sign, so the text before it is the sign. -/
theorem sign_inj {negative negative' : Bool} {r r' : Reading}
    (h : (if negative then "-" else "") ++ r.magnitudeText =
      (if negative' then "-" else "") ++ r'.magnitudeText) :
    negative = negative' ∧ r.magnitudeText = r'.magnitudeText := by
  have hlist := congrArg String.toList h
  cases negative <;> cases negative'
  · exact ⟨rfl, String.toList_inj.mp (by simpa using hlist)⟩
  · exact absurd (by simpa using hlist) (magnitudeText_ne_minus r r'.magnitudeText.toList)
  · exact absurd (by simpa using hlist.symm) (magnitudeText_ne_minus r' r.magnitudeText.toList)
  · exact ⟨rfl, String.toList_inj.mp (by simpa using hlist)⟩

theorem toList_nan : "NaN".toList = ['N', 'a', 'N'] := by decide

theorem toList_inf : "inf".toList = ['i', 'n', 'f'] := by decide

/-- What a double denotes is what its text in a plan says. -/
theorem ofBits_eq_of_planText {a b : UInt64}
    (h : Style.plan.textOfBits a = Style.plan.textOfBits b) :
    Reading.ofBits a = Reading.ofBits b := by
  rw [textOfBits_plan, textOfBits_plan] at h
  obtain ⟨hsign, hmagnitude⟩ := sign_inj h
  -- Digits begin with a digit and the two names with a letter, so only readings of one form remain.
  cases ha : Reading.ofBits a with
  | notANumber =>
    rw [ha] at hmagnitude
    cases hb : Reading.ofBits b with
    | notANumber => rfl
    | infinite negative =>
      rw [hb] at hmagnitude
      exact absurd hmagnitude (show "NaN" ≠ "inf" by decide)
    | finite negative w =>
      rw [hb] at hmagnitude
      exact absurd hmagnitude.symm (planDigits_ne w.planned toList_nan (by decide))
  | infinite negative =>
    rw [ha] at hsign hmagnitude
    cases hb : Reading.ofBits b with
    | notANumber =>
      rw [hb] at hmagnitude
      exact absurd hmagnitude (show "inf" ≠ "NaN" by decide)
    | infinite negative' =>
      rw [hb] at hsign
      exact congrArg Reading.infinite hsign
    | finite negative' w =>
      rw [hb] at hmagnitude
      exact absurd hmagnitude.symm (planDigits_ne w.planned toList_inf (by decide))
  | finite negative v =>
    rw [ha] at hsign hmagnitude
    cases hb : Reading.ofBits b with
    | notANumber =>
      rw [hb] at hmagnitude
      exact absurd hmagnitude (planDigits_ne v.planned toList_nan (by decide))
    | infinite negative' =>
      rw [hb] at hmagnitude
      exact absurd hmagnitude (planDigits_ne v.planned toList_inf (by decide))
    | finite negative' w =>
      rw [hb] at hsign hmagnitude
      have hvw := (Reading.canonical_of_finite ha).eq_of_planned (Reading.canonical_of_finite hb)
        hmagnitude
      rw [show negative = negative' from hsign, hvw]

/-- Doubles with the same text in a plan have the same bits, unless neither is a number. -/
theorem eq_of_planText {a b : UInt64} (h : Style.plan.textOfBits a = Style.plan.textOfBits b) :
    a = b ∨ (Reading.ofBits a = .notANumber ∧ Reading.ofBits b = .notANumber) := by
  have hreading := ofBits_eq_of_planText h
  by_cases hnan : Reading.ofBits a = .notANumber
  · exact .inr ⟨hnan, hreading.symm.trans hnan⟩
  · exact .inl (Reading.eq_of_ofBits hreading hnan)

/-! ## The characters -/

/-- The characters of a double in a plan that are not digits. -/
def planMarks : List Char := ['.', 'e', '-', 'N', 'a', 'i', 'n', 'f']

theorem mem_planText {bits : UInt64} {c : Char} (h : c ∈ (Style.plan.textOfBits bits).toList) :
    c.isDigit = true ∨ c ∈ planMarks := by
  rw [textOfBits_plan, String.toList_append, List.mem_append] at h
  rcases h with h | h
  · split at h
    · rw [List.mem_singleton.mp h]
      exact .inr (by decide)
    · cases h
  · cases hr : Reading.ofBits bits with
    | notANumber =>
      rw [hr, Reading.magnitudeText, toList_nan] at h
      exact .inr ((by simp [planMarks] : ∀ c ∈ ['N', 'a', 'N'], c ∈ planMarks) c h)
    | infinite negative =>
      rw [hr, Reading.magnitudeText, toList_inf] at h
      exact .inr ((by simp [planMarks] : ∀ c ∈ ['i', 'n', 'f'], c ∈ planMarks) c h)
    | finite negative v =>
      rw [hr] at h
      refine (mem_planDigits h).imp_right ?_
      exact (by simp [planMarks] : ∀ c ∈ ['.', 'e', '-'], c ∈ planMarks) c

/-- The text of a double in a plan has a character that the text of an integer does not have. -/
theorem exists_mark (bits : UInt64) :
    ∃ c ∈ (Style.plan.textOfBits bits).toList, ¬ (c.isDigit = true ∨ c = '-') := by
  rw [textOfBits_plan, String.toList_append]
  cases Reading.ofBits bits with
  | notANumber =>
    refine ⟨'N', List.mem_append_right _ ?_, by decide⟩
    rw [Reading.magnitudeText, toList_nan]
    exact List.mem_cons_self
  | infinite negative =>
    refine ⟨'i', List.mem_append_right _ ?_, by decide⟩
    rw [Reading.magnitudeText, toList_inf]
    exact List.mem_cons_self
  | finite negative v =>
    rcases mark_mem_planDigits v.planned with hmark | hmark
    · exact ⟨'.', List.mem_append_right _ hmark, by decide⟩
    · exact ⟨'e', List.mem_append_right _ hmark, by decide⟩

end StreamGauge.Decimal

/-! ## One non-number -/

namespace StreamGauge.Double

open Decimal

/-- The double, with one choice of bits for every non-number. -/
def canonical (x : Double) : Double := if x.isNaN then ⟨0x7FF8000000000000⟩ else x

theorem isNaN_iff (x : Double) : x.isNaN = true ↔ Reading.ofBits x.bits = .notANumber := by
  -- Without the sign bit, the non-numbers are what lies above infinity.
  have hmagnitude : (x.bits &&& 0x7FFFFFFFFFFFFFFF).toNat = x.bits.toNat % 2 ^ 63 := by
    rw [UInt64.toNat_and]
    exact Nat.and_two_pow_sub_one_eq_mod x.bits.toNat 63
  have hfields : x.isNaN = true ↔ exponentField x.bits = 2047 ∧ fractionField x.bits ≠ 0 := by
    rw [isNaN, decide_eq_true_eq, UInt64.lt_iff_toNat_lt, hmagnitude, exponentField, fractionField,
      show leadingOne = 4503599627370496 from rfl, show twoTo 11 = 2048 from rfl,
      show (0x7FF0000000000000 : UInt64).toNat = 9218868437227405312 from rfl]
    omega
  rw [hfields]
  unfold Reading.ofBits
  simp only
  split
  case isTrue hexponent => split <;> simp [*]
  case isFalse hexponent => split <;> simp [*]

theorem canonical_of_isNaN {x : Double} (h : x.isNaN = true) : x.canonical = ⟨0x7FF8000000000000⟩ :=
  if_pos h

theorem canonical_of_isNumber {x : Double} (h : ¬ x.isNaN = true) : x.canonical = x := if_neg h

theorem planText_canonical (x : Double) :
    Style.plan.textOfBits x.canonical.bits = Style.plan.textOfBits x.bits := by
  by_cases hx : x.isNaN = true
  · have hbits : Reading.ofBits 0x7FF8000000000000 = .notANumber :=
      (isNaN_iff ⟨0x7FF8000000000000⟩).mp rfl
    rw [canonical_of_isNaN hx, textOfBits_plan, textOfBits_plan, (isNaN_iff x).mp hx, hbits]
  · rw [canonical_of_isNumber hx]

/-- Doubles have the same text in a plan just if they have the same bits or neither is a number. -/
theorem planText_eq_iff (x y : Double) :
    Style.plan.textOfBits x.bits = Style.plan.textOfBits y.bits ↔ x.canonical = y.canonical := by
  constructor
  · intro h
    rcases eq_of_planText h with hbits | ⟨hx, hy⟩
    · cases x
      cases y
      cases hbits
      rfl
    · rw [canonical_of_isNaN ((isNaN_iff x).mpr hx), canonical_of_isNaN ((isNaN_iff y).mpr hy)]
  · intro h
    rw [← planText_canonical x, h, planText_canonical y]

end StreamGauge.Double
