import StreamGauge.Query.Basic

/-!
# Checked expressions

An expression that passes `Expr.checkSlots` reads only slots that are there. Its one failure is an
integer division by zero (`Expr.eval_checked`). One that divides by floating point numbers only
cannot fail at all (`Expr.eval_of_dividesByFloats`).
-/

namespace StreamGauge

theorem Operator.apply_error {op : Operator} {a b : Value} {x : EvalError}
    (h : op.apply a b = .error x) : x = .divisionByZero := by
  have hints : ∀ m n : Int64, op.onInts m n = .error x → x = .divisionByZero := by
    intro m n hmn
    cases op with
    | div =>
      simp only [onInts] at hmn
      split at hmn
      · cases hmn
        rfl
      · cases hmn
    | _ => cases hmn
  unfold apply at h
  split at h
  · cases h
  · cases h
  · split at h
    · cases h
    · exact hints _ _ h

/-- Only a division by an integer fails. -/
theorem Operator.apply_error_cases {op : Operator} {a b : Value} {x : EvalError}
    (h : op.apply a b = .error x) : op = .div ∧ b.isFloat = false := by
  cases op with
  | div =>
    refine ⟨rfl, ?_⟩
    cases hfloat : b.isFloat with
    | false => rfl
    | true => simp [apply, hfloat] at h
  | and => cases h
  | or => cases h
  | _ =>
    simp only [apply, onInts] at h
    split at h <;> cases h

namespace Expr

/-- The expression reads no slot from `n` on. -/
def ReadsBelow (n : Nat) : Expr → Prop
  | input slot => slot < n
  | const _ => True
  | binary _ lhs rhs => lhs.ReadsBelow n ∧ rhs.ReadsBelow n
  | not e => e.ReadsBelow n
  | cast _ e => e.ReadsBelow n

theorem readsBelow_of_maxSlot? {n : Nat} {e : Expr} (h : ∀ m, e.maxSlot? = some m → m < n) :
    e.ReadsBelow n := by
  induction e with
  | input slot => exact h slot rfl
  | const v => trivial
  | binary op lhs rhs ihl ihr =>
    simp only [maxSlot?] at h
    refine ⟨ihl fun m hm => ?_, ihr fun m hm => ?_⟩
    · cases hr : rhs.maxSlot? with
      | none => exact h m (by rw [hm, hr]; rfl)
      | some k =>
        have := h (max m k) (by rw [hm, hr]; rfl)
        omega
    · cases hl : lhs.maxSlot? with
      | none => exact h m (by rw [hm, hl]; rfl)
      | some k =>
        have := h (max k m) (by rw [hm, hl]; rfl)
        omega
  | not e ih => exact ih h
  | cast kind e ih => exact ih h

theorem readsBelow_of_check {n : Nat} {e : Expr} (h : e.checkSlots n = .ok ()) :
    e.ReadsBelow n := by
  refine readsBelow_of_maxSlot? fun m hm => ?_
  simp only [checkSlots, hm] at h
  split at h
  · cases h
  · omega

theorem lt_of_maxSlot? {n m : Nat} {e : Expr} (h : e.ReadsBelow n) (hm : e.maxSlot? = some m) :
    m < n := by
  induction e generalizing m with
  | input slot =>
    cases hm
    exact h
  | const v => cases hm
  | binary op lhs rhs ihl ihr =>
    rw [maxSlot?] at hm
    cases hl : lhs.maxSlot? with
    | none =>
      cases hr : rhs.maxSlot? with
      | none =>
        rw [hl, hr] at hm
        cases hm
      | some k =>
        rw [hl, hr] at hm
        cases hm
        exact ihr h.2 hr
    | some j =>
      cases hr : rhs.maxSlot? with
      | none =>
        rw [hl, hr] at hm
        cases hm
        exact ihl h.1 hl
      | some k =>
        rw [hl, hr] at hm
        cases hm
        exact Nat.max_lt.mpr ⟨ihl h.1 hl, ihr h.2 hr⟩
  | not e ih => exact ih h hm
  | cast kind e ih => exact ih h hm

/-- The check passes the expressions that read the bound slots only. -/
theorem checkSlots_iff {n : Nat} {e : Expr} : e.checkSlots n = .ok () ↔ e.ReadsBelow n := by
  refine ⟨readsBelow_of_check, fun h => ?_⟩
  unfold checkSlots
  cases hm : e.maxSlot? with
  | none => rfl
  | some m => exact if_neg (Nat.not_le.mpr (lt_of_maxSlot? h hm))

/-- An expression whose slots all have values can only fail by a division by zero. -/
theorem eval_error {slots : List Value} {e : Expr} (h : e.ReadsBelow slots.length) {x : EvalError}
    (hx : e.eval slots = .error x) : x = .divisionByZero := by
  induction e generalizing x with
  | input slot =>
    simp only [eval, List.getElem?_eq_getElem (show slot < slots.length from h)] at hx
    cases hx
  | const v => cases hx
  | binary op lhs rhs ihl ihr =>
    cases hl : lhs.eval slots with
    | error y =>
      rw [eval, hl] at hx
      cases hx
      exact ihl h.1 hl
    | ok a =>
      cases hr : rhs.eval slots with
      | error y =>
        rw [eval, hl, hr] at hx
        cases hx
        exact ihr h.2 hr
      | ok b =>
        rw [eval, hl, hr] at hx
        exact Operator.apply_error hx
  | not e ih =>
    cases he : e.eval slots with
    | error y =>
      rw [eval, he] at hx
      cases hx
      exact ih h he
    | ok a =>
      rw [eval, he] at hx
      cases hx
  | cast kind e ih =>
    cases he : e.eval slots with
    | error y =>
      rw [eval, he] at hx
      cases hx
      exact ih h he
    | ok a =>
      rw [eval, he] at hx
      cases hx

theorem eval_checked {slots : List Value} {e : Expr} (h : e.checkSlots slots.length = .ok ())
    {x : EvalError} (hx : e.eval slots = .error x) : x = .divisionByZero :=
  eval_error (readsBelow_of_check h) hx

/-! ## Expressions that cannot fail -/

/-- A cast to a floating point kind. -/
def isFloatCast : Expr → Bool
  | cast kind _ => kind.isFloat
  | _ => false

/-- The expression divides by floating point numbers only, which have a quotient by zero, too. -/
def dividesByFloats : Expr → Bool
  | input _ | const _ => true
  | binary op lhs rhs =>
    lhs.dividesByFloats && rhs.dividesByFloats && (op != .div || rhs.isFloatCast)
  | not e | cast _ e => e.dividesByFloats

theorem isFloat_of_cast {slots : List Value} {e : Expr} (h : e.isFloatCast = true) {v : Value}
    (hv : e.eval slots = .ok v) : v.isFloat = true := by
  cases e with
  | cast kind e =>
    cases he : e.eval slots with
    | error x =>
      rw [eval, he] at hv
      cases hv
    | ok a =>
      rw [eval, he] at hv
      cases hv
      cases kind with
      | f32 => rfl
      | f64 => rfl
      | _ => cases h
  | _ => cases h

/-- An expression whose slots all have values and that divides by floating point numbers only has a
value. -/
theorem eval_of_dividesByFloats {slots : List Value} {e : Expr} (h : e.ReadsBelow slots.length)
    (hdiv : e.dividesByFloats = true) : ∃ v, e.eval slots = .ok v := by
  induction e with
  | input slot =>
    have hslot : slot < slots.length := h
    exact ⟨slots[slot], by simp only [eval, List.getElem?_eq_getElem hslot]⟩
  | const v => exact ⟨v, rfl⟩
  | binary op lhs rhs ihl ihr =>
    simp only [dividesByFloats, Bool.and_eq_true] at hdiv
    obtain ⟨⟨hleft, hright⟩, hop⟩ := hdiv
    obtain ⟨a, ha⟩ := ihl h.1 hleft
    obtain ⟨b, hb⟩ := ihr h.2 hright
    have happly : ∃ v, op.apply a b = .ok v := by
      cases happly : op.apply a b with
      | ok v => exact ⟨v, rfl⟩
      | error x =>
        obtain ⟨rfl, hinteger⟩ := Operator.apply_error_cases happly
        rw [isFloat_of_cast (by simpa using hop) hb] at hinteger
        cases hinteger
    obtain ⟨v, hv⟩ := happly
    refine ⟨v, ?_⟩
    rw [eval, ha, hb]
    exact hv
  | not e ih =>
    obtain ⟨a, ha⟩ := ih h hdiv
    refine ⟨.bool !a.toBool, ?_⟩
    rw [eval, ha]
    rfl
  | cast kind e ih =>
    obtain ⟨a, ha⟩ := ih h hdiv
    refine ⟨kind.convert a, ?_⟩
    rw [eval, ha]
    rfl

end Expr

end StreamGauge
