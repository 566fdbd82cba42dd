import StreamGauge.Proofs.Decimal.PlanText

/-!
# Numerals

A `Numeral` is a number in decimal as it is written: a sign, digits before the point and after it,
and an exponent. `Numeral.read?` reads one from a text, and `Numeral.value` is the number that it
denotes.

* A numeral whose digits are digits is read back from its text (`Numeral.read?_text`).
* Zeros at the end of the fraction do not change the number (`Numeral.magnitude_trimmed`).
* The other way round, the digits of a natural number are made a numeral by putting a point into
  them, after zeros where the point stands in front of them all (`Spread`). `trimZeros` leaves its
  text without the zeros at the end of the fraction, and touches no others
  (`trimZeros_fractionText`).
-/

namespace StreamGauge.Decimal

/-- A decimal numeral, digit by digit. An exponent has a sign, which is true for a minus. -/
structure Numeral where
  negative : Bool
  whole : List Char
  fraction : List Char
  exponent? : Option (Bool × List Char)
deriving DecidableEq, Repr

/-- A fraction behind its point; none has no point. -/
def fractionText (fraction : List Char) : List Char :=
  if fraction = [] then [] else '.' :: fraction

namespace Numeral

/-! ## Denotation -/

/-- The exponent of the power of ten that the number before it is multiplied with. -/
def scale (n : Numeral) : ℤ :=
  match n.exponent? with
  | none => 0
  | some (true, ds) => -Nat.ofDigitChars 10 ds 0
  | some (false, ds) => Nat.ofDigitChars 10 ds 0

/-- The number that a numeral denotes, without its sign. -/
def magnitude (n : Numeral) : ℚ :=
  Nat.ofDigitChars 10 (n.whole ++ n.fraction) 0 * 10 ^ (n.scale - n.fraction.length)

/-- The number that a numeral denotes. -/
def value (n : Numeral) : ℚ := if n.negative then -n.magnitude else n.magnitude

/-! ## Reading -/

/-- The digits in front of a text, at least one, and what follows them. -/
def readDigits? (cs : List Char) : Option (List Char × List Char) :=
  if cs.takeWhile Char.isDigit = [] then none
  else some (cs.takeWhile Char.isDigit, cs.dropWhile Char.isDigit)

/-- A minus sign in front of a text, and what follows it. -/
def readSign : List Char → Bool × List Char
  | '-' :: cs => (true, cs)
  | cs => (false, cs)

/-- The fraction in front of a text: a point with digits behind it, or nothing. -/
def readFraction? : List Char → Option (List Char × List Char)
  | '.' :: cs => readDigits? cs
  | cs => some ([], cs)

/-- The exponent that a text consists of: a mark, a sign and digits, or nothing. -/
def readExponent? : List Char → Option (Option (Bool × List Char))
  | [] => some none
  | 'e' :: '-' :: ds => if ds ≠ [] ∧ ds.all Char.isDigit then some (some (true, ds)) else none
  | 'e' :: '+' :: ds => if ds ≠ [] ∧ ds.all Char.isDigit then some (some (false, ds)) else none
  | _ => none

/-- The numeral that a text consists of. -/
def read? (cs : List Char) : Option Numeral := do
  let (negative, cs) := readSign cs
  let (whole, cs) ← readDigits? cs
  let (fraction, cs) ← readFraction? cs
  let exponent? ← readExponent? cs
  return ⟨negative, whole, fraction, exponent?⟩

/-! ## Writing -/

/-- A minus sign in front of a negative number. -/
def signText (negative : Bool) : List Char := if negative then ['-'] else []

/-- An exponent behind its mark. -/
def exponentText : Option (Bool × List Char) → List Char
  | none => []
  | some (negative, ds) => 'e' :: (if negative then '-' else '+') :: ds

/-- A numeral as text. -/
def text (n : Numeral) : List Char :=
  signText n.negative ++ n.whole ++ fractionText n.fraction ++ exponentText n.exponent?

/-- The digits are digits. There is one before the point, and there is one in an exponent. -/
structure Proper (n : Numeral) : Prop where
  whole_ne_nil : n.whole ≠ []
  digits : ∀ c ∈ n.whole ++ n.fraction, c.isDigit = true
  exponent : ∀ negative ds, n.exponent? = some (negative, ds) →
    ds ≠ [] ∧ ∀ c ∈ ds, c.isDigit = true

/-- Digits end where something else follows. -/
theorem readDigits?_append {ds rest : List Char} (hne : ds ≠ [])
    (hds : ∀ c ∈ ds, c.isDigit = true) (hrest : ∀ c ∈ rest.head?, c.isDigit = false) :
    readDigits? (ds ++ rest) = some (ds, rest) := by
  have htake : rest.takeWhile Char.isDigit = [] := by
    cases rest with
    | nil => rfl
    | cons c rest => rw [List.takeWhile_cons_of_neg (by rw [hrest c rfl]; decide)]
  have hdrop : rest.dropWhile Char.isDigit = rest := by
    cases rest with
    | nil => rfl
    | cons c rest => rw [List.dropWhile_cons_of_neg (by rw [hrest c rfl]; decide)]
  unfold readDigits?
  rw [List.takeWhile_append_of_pos hds, List.dropWhile_append_of_pos hds, htake, hdrop,
    List.append_nil, if_neg hne]

theorem exponentText_head? (exponent? : Option (Bool × List Char)) :
    ∀ c ∈ (exponentText exponent?).head?, c = 'e' := by
  intro c hc
  cases exponent? with
  | none => cases hc
  | some e =>
    cases hc
    rfl

theorem readExponent?_exponentText {exponent? : Option (Bool × List Char)}
    (h : ∀ negative ds, exponent? = some (negative, ds) → ds ≠ [] ∧ ∀ c ∈ ds, c.isDigit = true) :
    readExponent? (exponentText exponent?) = some exponent? := by
  cases exponent? with
  | none => rfl
  | some e =>
    obtain ⟨negative, ds⟩ := e
    obtain ⟨hne, hds⟩ := h negative ds rfl
    cases negative
    · exact if_pos ⟨hne, List.all_eq_true.mpr hds⟩
    · exact if_pos ⟨hne, List.all_eq_true.mpr hds⟩

theorem readFraction?_fractionText {fraction rest : List Char}
    (hfraction : ∀ c ∈ fraction, c.isDigit = true) (hrest : ∀ c ∈ rest.head?, c = 'e') :
    readFraction? (fractionText fraction ++ rest) = some (fraction, rest) := by
  unfold fractionText
  split
  case isTrue hnil =>
    subst hnil
    cases rest with
    | nil => rfl
    | cons c rest =>
      cases hrest c rfl
      rfl
  case isFalse hne =>
    refine readDigits?_append hne hfraction fun c hc => ?_
    cases hrest c hc
    rfl

theorem readSign_append {cs rest : List Char} (negative : Bool) (hne : cs ≠ [])
    (hcs : ∀ c ∈ cs, c.isDigit = true) :
    readSign (signText negative ++ (cs ++ rest)) = (negative, cs ++ rest) := by
  cases negative with
  | true => rfl
  | false =>
    obtain ⟨c, cs, rfl⟩ := List.exists_cons_of_ne_nil hne
    have hc : c ≠ '-' := by
      rintro rfl
      exact absurd (hcs '-' List.mem_cons_self) (by decide)
    change readSign (c :: (cs ++ rest)) = _
    unfold readSign
    split
    case h_1 heq =>
      cases heq
      exact absurd rfl hc
    case h_2 => rfl

/-- A numeral is read back from its text. -/
theorem read?_text {n : Numeral} (h : n.Proper) : read? n.text = some n := by
  have hwhole : ∀ c ∈ n.whole, c.isDigit = true := fun c hc =>
    h.digits c (List.mem_append_left _ hc)
  have hfraction : ∀ c ∈ n.fraction, c.isDigit = true := fun c hc =>
    h.digits c (List.mem_append_right _ hc)
  have hbehind : ∀ c ∈ (fractionText n.fraction ++ exponentText n.exponent?).head?,
      c.isDigit = false := by
    intro c hc
    unfold fractionText at hc
    split at hc
    · cases exponentText_head? n.exponent? c hc
      rfl
    · cases hc
      rfl
  unfold read? text
  rw [List.append_assoc, List.append_assoc, readSign_append n.negative h.whole_ne_nil hwhole]
  simp only
  rw [readDigits?_append h.whole_ne_nil hwhole hbehind]
  simp only [Option.bind_eq_bind, Option.bind_some]
  rw [readFraction?_fractionText hfraction (exponentText_head? n.exponent?)]
  simp only [Option.bind_some]
  rw [readExponent?_exponentText h.exponent]
  rfl

end Numeral

/-! ## Zeros at the end -/

/-- A fraction without the zeros at its end. -/
def dropZeros (fraction : List Char) : List Char := fraction.rdropWhile (· = '0')

theorem exists_zeros (fraction : List Char) :
    ∃ i, fraction = dropZeros fraction ++ List.replicate i '0' := by
  refine ⟨(fraction.rtakeWhile (· = '0')).length, ?_⟩
  have hzeros : ∀ c ∈ fraction.rtakeWhile (· = '0'), c = '0' := fun c hc =>
    of_decide_eq_true (List.mem_rtakeWhile_imp (p := (· = '0')) hc)
  rw [← List.eq_replicate_of_mem hzeros]
  exact (List.rdropWhile_append_rtakeWhile ..).symm

theorem getLast?_dropZeros (fraction : List Char) : (dropZeros fraction).getLast? ≠ some '0' := by
  intro h
  have hne : dropZeros fraction ≠ [] := fun hnil => by rw [hnil] at h; cases h
  have hlast := List.rdropWhile_last_not (· = '0') fraction hne
  rw [List.getLast?_eq_some_getLast hne, Option.some.injEq] at h
  exact hlast (decide_eq_true h)

/-- Zeros at the end of a fraction do not change the number. -/
theorem Numeral.magnitude_trimmed (negative : Bool) (whole fraction : List Char)
    (exponent? : Option (Bool × List Char)) :
    magnitude ⟨negative, whole, dropZeros fraction, exponent?⟩ =
      magnitude ⟨negative, whole, fraction, exponent?⟩ := by
  obtain ⟨i, hi⟩ := exists_zeros fraction
  have hscale : scale ⟨negative, whole, dropZeros fraction, exponent?⟩ =
      scale ⟨negative, whole, fraction, exponent?⟩ := rfl
  unfold magnitude
  rw [hscale]
  generalize scale ⟨negative, whole, fraction, exponent?⟩ = scale
  simp only
  conv =>
    rhs
    rw [hi, ← List.append_assoc, Nat.ofDigitChars_append, Nat.ofDigitChars_replicate_zero,
      List.length_append, List.length_replicate]
  have hsplit : scale - (dropZeros fraction).length =
      i + (scale - ((dropZeros fraction).length + i : ℕ)) := by
    push_cast
    ring
  rw [hsplit, zpow_add₀ (by norm_num), zpow_natCast]
  push_cast
  ring

theorem point_not_mem {cs : List Char} (h : ∀ c ∈ cs, c.isDigit = true) : '.' ∉ cs :=
  fun hmem => absurd (h '.' hmem) (by decide)

/-- Zeros at the end are taken off up to the first character that is none. -/
theorem rdropWhile_zeros {cs : List Char} (h : cs.getLast? ≠ some '0') (i : ℕ) :
    (cs ++ List.replicate i '0').rdropWhile (· = '0') = cs := by
  induction i with
  | zero =>
    rw [List.replicate_zero, List.append_nil, List.rdropWhile_eq_self_iff]
    intro hne hlast
    rw [List.getLast?_eq_some_getLast hne, of_decide_eq_true hlast] at h
    exact h rfl
  | succ i ih =>
    rw [List.replicate_succ', ← List.append_assoc, List.rdropWhile_concat_pos _ _ _ (by decide), ih]

/-- A point at the end is taken off, and no other one. -/
theorem rdropWhile_point {whole kept : List Char} (hwhole : '.' ∉ whole) (hkept : '.' ∉ kept) :
    (whole ++ '.' :: kept).rdropWhile (· = '.') = whole ++ fractionText kept := by
  have hself : ∀ {cs : List Char} (hne : cs ≠ []), cs.getLast hne ≠ '.' →
      cs.rdropWhile (· = '.') = cs := fun hne hlast =>
    List.rdropWhile_eq_self_iff.mpr fun _ heq => hlast (of_decide_eq_true heq)
  by_cases hnil : kept = []
  · rw [hnil, List.rdropWhile_concat_pos _ _ _ (by decide), fractionText, if_pos rfl,
      List.append_nil]
    by_cases hempty : whole = []
    · rw [hempty, List.rdropWhile_nil]
    · exact hself hempty fun heq => hwhole (heq ▸ List.getLast_mem hempty)
  · rw [fractionText, if_neg hnil]
    refine hself (by simp) fun heq => hkept ?_
    rw [List.getLast_append_of_ne_nil _ (by simp), List.getLast_cons hnil] at heq
    exact heq ▸ List.getLast_mem hnil

/-- Zeros are taken off behind the point only, and the point goes with the last digit behind it. -/
theorem trimZeros_fractionText {whole fraction : List Char}
    (h : ∀ c ∈ whole ++ fraction, c.isDigit = true) :
    trimZeros (whole ++ fractionText fraction) = whole ++ fractionText (dropZeros fraction) := by
  have hwhole := point_not_mem fun c hc => h c (List.mem_append_left _ hc)
  have hfraction := point_not_mem fun c hc => h c (List.mem_append_right _ hc)
  unfold trimZeros
  by_cases hnil : fraction = []
  · rw [hnil, dropZeros, List.rdropWhile_nil, fractionText, if_pos rfl, List.append_nil]
    exact if_neg hwhole
  have htext : fractionText fraction = '.' :: fraction := if_neg hnil
  obtain ⟨i, hi⟩ := exists_zeros fraction
  have hkept : '.' ∉ dropZeros fraction := fun hmem => hfraction <| by
    rw [hi]
    exact List.mem_append_left _ hmem
  have hlast : (whole ++ '.' :: dropZeros fraction).getLast? ≠ some '0' := by
    have hlast := getLast?_dropZeros fraction
    rw [List.getLast?_append_of_ne_nil _ (by simp), List.getLast?_cons]
    cases hcase : (dropZeros fraction).getLast? with
    | none => simp
    | some c => simpa [hcase] using hlast
  have hzeros : (whole ++ '.' :: fraction).rdropWhile (· = '0') =
      whole ++ '.' :: dropZeros fraction := by
    conv => lhs; rw [hi, ← List.cons_append, ← List.append_assoc]
    exact rdropWhile_zeros hlast i
  rw [htext, if_pos (List.mem_append_right _ List.mem_cons_self), ← rdropWhile_point hwhole hkept,
    ← hzeros]
  simp only [List.rdropWhile, List.reverse_reverse]

/-! ## A point among digits -/

/-- The digits before and behind a point are those of a number, after any zeros. -/
structure Spread (coefficient : ℕ) (whole fraction : List Char) : Prop where
  whole_ne_nil : whole ≠ []
  digits : ∃ j, whole ++ fraction = List.replicate j '0' ++ (digitText coefficient).toList

namespace Spread

variable {coefficient : ℕ} {whole fraction : List Char}

theorem isDigit (h : Spread coefficient whole fraction) :
    ∀ c ∈ whole ++ fraction, c.isDigit = true := by
  obtain ⟨j, hj⟩ := h.digits
  intro c hc
  rw [hj, List.mem_append] at hc
  exact hc.elim isDigit_of_mem_zeros isDigit_of_mem_digitText

theorem isDigit_trimmed (h : Spread coefficient whole fraction) :
    ∀ c ∈ whole ++ dropZeros fraction, c.isDigit = true := by
  obtain ⟨i, hi⟩ := exists_zeros fraction
  intro c hc
  apply h.isDigit
  rw [hi, ← List.append_assoc]
  exact List.mem_append_left _ hc

theorem reading (h : Spread coefficient whole fraction) :
    Nat.ofDigitChars 10 (whole ++ fraction) 0 = coefficient := by
  obtain ⟨j, hj⟩ := h.digits
  rw [hj, Nat.ofDigitChars_append, Nat.ofDigitChars_replicate_zero, Nat.mul_zero,
    ofDigitChars_digitText]

theorem length_dropWhile_le (p : Char → Bool) (cs rest : List Char) :
    (cs.dropWhile p).length ≤ ((cs ++ rest).dropWhile p).length := by
  rw [List.dropWhile_append]
  split
  case isTrue hempty =>
    rw [List.isEmpty_iff.mp hempty]
    exact Nat.zero_le _
  case isFalse =>
    rw [List.length_append]
    exact Nat.le_add_right _ _

/-- Without the zeros in front and those at the end of the fraction, there are no more digits. -/
theorem count_le (h : Spread coefficient whole fraction) :
    ((whole ++ dropZeros fraction).dropWhile (· = '0')).length ≤
      (digitText coefficient).toList.length := by
  obtain ⟨i, hi⟩ := exists_zeros fraction
  obtain ⟨j, hj⟩ := h.digits
  have hall : (whole ++ dropZeros fraction) ++ List.replicate i '0' =
      List.replicate j '0' ++ (digitText coefficient).toList := by
    rw [List.append_assoc, ← hi, hj]
  have hzeros : ∀ c ∈ List.replicate j '0', decide (c = '0') = true := fun c hc =>
    decide_eq_true (List.mem_replicate.mp hc).2
  calc ((whole ++ dropZeros fraction).dropWhile (· = '0')).length
      ≤ (((whole ++ dropZeros fraction) ++ List.replicate i '0').dropWhile (· = '0')).length :=
        length_dropWhile_le ..
    _ = ((digitText coefficient).toList.dropWhile (· = '0')).length := by
        rw [hall, List.dropWhile_append_of_pos hzeros]
    _ ≤ (digitText coefficient).toList.length := (List.dropWhile_sublist _).length_le

end Spread

end StreamGauge.Decimal
