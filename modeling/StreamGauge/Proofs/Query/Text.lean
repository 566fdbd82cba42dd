import Mathlib.Data.List.Basic
import StreamGauge.Compile.Routine
import StreamGauge.Proofs.Decimal.PlanText

/-!
# Queries are told apart by their text

Two queries with the same text are the same, node by node, up to the bits of non-numbers
(`Query.canonical`). The text is made of words with punctuation between them, and everything in it
ends where it ends whatever follows:

* a word ends at the next punctuation (`word_inj`);
* an expression begins with a mark of its own or with a word, and what follows it is no part of it
  (`Expr.eq_of_text`);
* a line begins with the indent of its depth and a keyword, so the lines of a source end where the
  next source begins (`Query.eq_of_textAt`).
-/

namespace StreamGauge

open Decimal (toString_text)

/-! ## Words -/

/-- Words are made of any characters but the punctuation of a query. -/
def isWordChar (c : Char) : Bool := c ∉ [' ', '\n', '(', ')', '[', ']', ',', ':', '$', '!']

def IsWord (w : List Char) : Prop := w.all isWordChar = true

/-- No word goes on into the text. -/
def Breaks (r : List Char) : Prop := ∀ c ∈ r.head?, isWordChar c = false

theorem breaks_cons {c : Char} {r : List Char} (h : isWordChar c = false) : Breaks (c :: r) := by
  intro c' hc
  cases hc
  exact h

theorem takeWhile_word {w r : List Char} (hw : IsWord w) (hr : Breaks r) :
    (w ++ r).takeWhile isWordChar = w := by
  rw [List.takeWhile_append_of_pos (List.all_eq_true.mp hw)]
  cases r with
  | nil => simp
  | cons c r =>
    rw [List.takeWhile_cons_of_neg (by simp [hr c rfl]), List.append_nil]

/-- Where words end, equal texts begin with equal words. -/
theorem word_inj {w w' r r' : List Char} (hw : IsWord w) (hw' : IsWord w') (hr : Breaks r)
    (hr' : Breaks r') (h : w ++ r = w' ++ r') : w = w' ∧ r = r' := by
  have hword := congrArg (List.takeWhile isWordChar) h
  rw [takeWhile_word hw hr, takeWhile_word hw' hr'] at hword
  subst hword
  exact ⟨rfl, List.append_cancel_left h⟩

/-! ## The parts of a query -/

theorem isWordChar_of_isDigit {c : Char} (h : c.isDigit = true) : isWordChar c = true := by
  have hne : ∀ p : Char, p.isDigit = false → c ≠ p := by
    rintro p hp rfl
    rw [hp] at h
    cases h
  simp [isWordChar, hne]

theorem isWord_nat (n : Nat) : IsWord (toString n).toList :=
  List.all_eq_true.mpr fun _ hc =>
    isWordChar_of_isDigit (Decimal.isDigit_of_mem_digitText hc)

theorem isWord_int (z : Int) : IsWord (toString z).toList := by
  refine List.all_eq_true.mpr fun c hc => ?_
  rcases Decimal.mem_intText hc with h | rfl
  · exact isWordChar_of_isDigit h
  · decide

theorem isWord_kind (k : Kind) : IsWord (toString k).toList := by
  unfold IsWord
  cases k <;> decide

theorem kind_inj {k k' : Kind} (h : (toString k).toList = (toString k').toList) : k = k' := by
  have hmem : ∀ k, k ∈ Kind.all := by
    intro k
    cases k <;> decide
  exact List.inj_on_of_nodup_map (f := Kind.name) (by decide) (hmem k) (hmem k')
    (String.toList_inj.mp h)

theorem isWord_operator (op : Operator) : IsWord op.symbol.toList := by
  unfold IsWord
  cases op <;> decide

theorem operator_inj {op op' : Operator} (h : op.symbol.toList = op'.symbol.toList) :
    op = op' := by
  have hmem : ∀ op, op ∈ Operator.all := by
    intro op
    cases op <;> decide
  exact List.inj_on_of_nodup_map (by decide) (hmem op) (hmem op') (String.toList_inj.mp h)

theorem isWord_reducer (reducer : Reducer) : IsWord reducer.name.toList := by
  unfold IsWord
  cases reducer <;> decide

theorem reducer_inj {a b : Reducer} (h : a.name.toList = b.name.toList) : a = b := by
  have hmem : ∀ a, a ∈ [Reducer.sum, .count, .average, .variance, .deviationState] := by
    intro a
    cases a <;> decide
  exact List.inj_on_of_nodup_map (by decide) (hmem a) (hmem b) (String.toList_inj.mp h)

/-! ## Constants -/

namespace Value

/-- The value, with one choice of bits for every non-number. -/
def canonical : Value → Value
  | float x => .float x.canonical
  | v => v

theorem isWord_constantText (v : Value) : IsWord v.constantText.toList := by
  cases v with
  | int n => exact isWord_int n.toInt
  | float x =>
    refine List.all_eq_true.mpr fun c hc => ?_
    rcases Decimal.mem_planText hc with h | h
    · exact isWordChar_of_isDigit h
    · exact List.all_eq_true.mp (by decide : Decimal.planMarks.all isWordChar = true) c h
  | bool b =>
    unfold IsWord
    cases b <;> decide

theorem constantText_ne_nil (v : Value) : v.constantText.toList ≠ [] := by
  cases v with
  | int n => exact Decimal.intText_ne_nil n.toInt
  | float x =>
    obtain ⟨c, hc, -⟩ := Decimal.exists_mark x.bits
    exact List.ne_nil_of_mem hc
  | bool b => cases b <;> decide

theorem constantText_canonical (v : Value) : v.canonical.constantText = v.constantText := by
  cases v with
  | float x => exact Double.planText_canonical x
  | _ => rfl

/-- No integer is written like a double. -/
theorem intText_ne_planText (z : Int) (bits : UInt64) :
    toString z ≠ Decimal.Style.plan.textOfBits bits := by
  intro h
  obtain ⟨c, hc, hmark⟩ := Decimal.exists_mark bits
  rw [← h] at hc
  exact hmark (Decimal.mem_intText hc)

/-- No truth value is written like an integer or a double. -/
theorem boolText_ne_intText (b : Bool) (z : Int) : (bool b).constantText ≠ toString z := by
  intro h
  have hmem : 'e' ∈ (bool b).constantText.toList := by cases b <;> decide
  rw [h] at hmem
  rcases Decimal.mem_intText hmem with hc | hc <;> exact absurd hc (by decide)

theorem boolText_ne_planText (b : Bool) (bits : UInt64) :
    (bool b).constantText ≠ Decimal.Style.plan.textOfBits bits := by
  intro h
  have hmem : (if b then 'r' else 'l') ∈ (bool b).constantText.toList := by cases b <;> decide
  rw [h] at hmem
  rcases Decimal.mem_planText hmem with hc | hc
  · cases b <;> exact absurd hc (by decide)
  · cases b <;> exact absurd hc (by decide)

/-- Constants are told apart by their text. -/
theorem canonical_eq_of_constantText {v w : Value} (h : v.constantText = w.constantText) :
    v.canonical = w.canonical := by
  cases v with
  | int m =>
    cases w with
    | int n => rw [Int64.toInt_inj.mp (Int.repr_inj.mp h)]
    | float y => exact absurd h (intText_ne_planText _ _)
    | bool c => exact absurd h.symm (boolText_ne_intText _ _)
  | float x =>
    cases w with
    | int n => exact absurd h.symm (intText_ne_planText _ _)
    | float y => exact congrArg Value.float ((Double.planText_eq_iff x y).mp h)
    | bool c => exact absurd h.symm (boolText_ne_planText _ _)
  | bool b =>
    cases w with
    | int n => exact absurd h (boolText_ne_intText _ _)
    | float y => exact absurd h (boolText_ne_planText _ _)
    | bool c =>
      cases b <;> cases c
      · rfl
      · exact absurd h (by decide)
      · exact absurd h (by decide)
      · rfl

end Value

/-! ## Expressions -/

/-- No expression goes on into the text. -/
def Ends (r : List Char) : Prop := ∀ c ∈ r.head?, c ∈ [' ', ')', '\n']

theorem ends_cons {c : Char} {r : List Char} (h : c ∈ [' ', ')', '\n']) : Ends (c :: r) := by
  intro c' hc
  cases hc
  exact h

theorem Ends.breaks {r : List Char} (h : Ends r) : Breaks r := fun c hc =>
  (by simp [isWordChar] : ∀ c ∈ [' ', ')', '\n'], isWordChar c = false) c (h c hc)

namespace Expr

/-- The expression, with one choice of bits for every non-number. -/
def canonical : Expr → Expr
  | input slot => input slot
  | const v => const v.canonical
  | binary op lhs rhs => binary op lhs.canonical rhs.canonical
  | not e => not e.canonical
  | cast kind e => cast kind e.canonical

variable (r : List Char)

theorem input_text (slot : Nat) : (input slot).text.toList ++ r =
    '$' :: ((toString slot).toList ++ r) := by
  simp [text, toString_text]

theorem binary_text (op : Operator) (lhs rhs : Expr) : (binary op lhs rhs).text.toList ++ r =
    '(' :: (lhs.text.toList ++
      ' ' :: (op.symbol.toList ++ ' ' :: (rhs.text.toList ++ ')' :: r))) := by
  simp [text, toString_text]

theorem not_text (e : Expr) : (not e).text.toList ++ r = '!' :: (e.text.toList ++ r) := by
  simp [text, toString_text]

theorem cast_text (kind : Kind) (e : Expr) : (cast kind e).text.toList ++ r =
    (toString kind).toList ++ '(' :: (e.text.toList ++ ')' :: r) := by
  simp [text, toString_text]

/-- The punctuation that an expression begins with, if it does not begin with a word. -/
def mark? : Expr → Option Char
  | input _ => some '$'
  | const _ => none
  | binary .. => some '('
  | not _ => some '!'
  | cast .. => none

theorem head?_word {w : List Char} (hw : IsWord w) (hnil : w ≠ []) :
    (w ++ r).head?.filter (fun c => !isWordChar c) = none := by
  obtain ⟨c, w, rfl⟩ := List.exists_cons_of_ne_nil hnil
  have hc := List.all_eq_true.mp hw c List.mem_cons_self
  simp [hc]

theorem mark?_eq (e : Expr) :
    (e.text.toList ++ r).head?.filter (fun c => !isWordChar c) = e.mark? := by
  cases e with
  | input slot =>
    rw [input_text]
    rfl
  | const v => exact head?_word r v.isWord_constantText v.constantText_ne_nil
  | binary op lhs rhs =>
    rw [binary_text]
    rfl
  | not e =>
    rw [not_text]
    rfl
  | cast kind e =>
    rw [cast_text]
    exact head?_word _ (isWord_kind kind) (by cases kind <;> decide)

variable {r} {r' : List Char}

theorem mark?_eq_of_text {e e' : Expr} (h : e.text.toList ++ r = e'.text.toList ++ r') :
    e.mark? = e'.mark? := by
  rw [← mark?_eq r, h, mark?_eq]

/-- Expressions with the same text are the same, and they end at the same place. -/
theorem eq_of_text {e e' : Expr} (hr : Ends r) (hr' : Ends r')
    (h : e.text.toList ++ r = e'.text.toList ++ r') : e.canonical = e'.canonical ∧ r = r' := by
  induction e generalizing e' r r' with
  | input slot =>
    have hmark := mark?_eq_of_text h
    cases e' with
    | input slot' =>
      rw [input_text, input_text] at h
      obtain ⟨hslot, hrest⟩ := word_inj (isWord_nat slot) (isWord_nat slot') hr.breaks hr'.breaks
        (List.cons.inj h).2
      rw [Nat.repr_inj.mp (String.toList_inj.mp hslot)]
      exact ⟨rfl, hrest⟩
    | _ => cases hmark
  | const v =>
    have hmark := mark?_eq_of_text h
    cases e' with
    | const v' =>
      obtain ⟨htext, hrest⟩ := word_inj v.isWord_constantText v'.isWord_constantText hr.breaks
        hr'.breaks h
      rw [canonical, Value.canonical_eq_of_constantText (String.toList_inj.mp htext)]
      exact ⟨rfl, hrest⟩
    | cast kind e =>
      -- A word in front of a bracket is no constant.
      rw [cast_text] at h
      obtain ⟨-, hrest⟩ := word_inj v.isWord_constantText (isWord_kind kind) hr.breaks
        (breaks_cons (by decide)) h
      rw [hrest] at hr
      exact absurd (hr _ rfl) (by decide)
    | _ => cases hmark
  | binary op lhs rhs ihl ihr =>
    have hmark := mark?_eq_of_text h
    cases e' with
    | binary op' lhs' rhs' =>
      rw [binary_text, binary_text] at h
      obtain ⟨hlhs, h⟩ := ihl (ends_cons (by decide)) (ends_cons (by decide)) (List.cons.inj h).2
      obtain ⟨hop, h⟩ := word_inj (isWord_operator op) (isWord_operator op')
        (breaks_cons (by decide)) (breaks_cons (by decide)) (List.cons.inj h).2
      obtain ⟨hrhs, h⟩ := ihr (ends_cons (by decide)) (ends_cons (by decide)) (List.cons.inj h).2
      rw [canonical, hlhs, operator_inj hop, hrhs]
      exact ⟨rfl, (List.cons.inj h).2⟩
    | _ => cases hmark
  | not e ih =>
    have hmark := mark?_eq_of_text h
    cases e' with
    | not e' =>
      rw [not_text, not_text] at h
      obtain ⟨he, hrest⟩ := ih hr hr' (List.cons.inj h).2
      rw [canonical, he]
      exact ⟨rfl, hrest⟩
    | _ => cases hmark
  | cast kind e ih =>
    have hmark := mark?_eq_of_text h
    cases e' with
    | const v' =>
      rw [cast_text] at h
      obtain ⟨-, hrest⟩ := word_inj (isWord_kind kind) v'.isWord_constantText
        (breaks_cons (by decide)) hr'.breaks h
      rw [← hrest] at hr'
      exact absurd (hr' _ rfl) (by decide)
    | cast kind' e' =>
      rw [cast_text, cast_text] at h
      obtain ⟨hkind, h⟩ := word_inj (isWord_kind kind) (isWord_kind kind')
        (breaks_cons (by decide)) (breaks_cons (by decide)) h
      obtain ⟨he, h⟩ := ih (ends_cons (by decide)) (ends_cons (by decide)) (List.cons.inj h).2
      rw [canonical, kind_inj hkind, he]
      exact ⟨rfl, (List.cons.inj h).2⟩
    | _ => cases hmark

/-- Non-numbers are all written alike. -/
theorem text_canonical (e : Expr) : e.canonical.text = e.text := by
  induction e with
  | input slot => rfl
  | const v => exact Value.constantText_canonical v
  | binary op lhs rhs ihl ihr => simp only [canonical, text, ihl, ihr]
  | not e ih => simp only [canonical, text, ih]
  | cast kind e ih => simp only [canonical, text, ih]

end Expr

/-! ## Lines -/

mutual

/-- The query, with one choice of bits for every non-number among its constants. -/
def Query.canonical : Query → Query
  | .select source expr output => .select source.canonical expr.canonical output
  | .filter source predicate => .filter source.canonical predicate.canonical
  | .window source length period reducer output =>
    .window source.canonical length period reducer output
  | .join left right expr fill? output =>
    .join left.canonical right.canonical expr.canonical (fill?.map Value.canonical) output

@[inherit_doc Query.canonical]
def Source.canonical : Source → Source
  | .input slot => .input slot
  | .query q => .query q.canonical

end

/-- The spaces in front of a line. -/
def indent (depth : Nat) : List Char := List.replicate (2 * depth) ' '

namespace Query

variable (depth : Nat) (r : List Char)

theorem select_text (source : Source) (expr : Expr) (output : Kind) :
    ((select source expr output).textAt depth).toList ++ r =
      indent depth ++ ("select".toList ++ ' ' :: ("-> ".toList ++ ((toString output).toList ++
        ':' :: ' ' :: (expr.text.toList ++
          '\n' :: ((source.textAt (depth + 1)).toList ++ r))))) := by
  simp [textAt, lineAt, indent, toString_text]

theorem filter_text (source : Source) (predicate : Expr) :
    ((filter source predicate).textAt depth).toList ++ r =
      indent depth ++ ("where".toList ++ ':' :: ' ' :: (predicate.text.toList ++
        '\n' :: ((source.textAt (depth + 1)).toList ++ r))) := by
  simp [textAt, lineAt, indent, toString_text]

theorem window_text (source : Source) (length period : Int) (reducer : Reducer) (output : Kind) :
    ((window source length period reducer output).textAt depth).toList ++ r =
      indent depth ++ ("window".toList ++ '[' :: ((toString length).toList ++
        ',' :: (" every ".toList ++ ((toString period).toList ++
          ']' :: (" -> ".toList ++ ((toString output).toList ++
            ':' :: ' ' :: (reducer.name.toList ++
              '\n' :: ((source.textAt (depth + 1)).toList ++ r)))))))) := by
  simp [textAt, lineAt, indent, toString_text]

theorem innerJoin_text (left right : Source) (expr : Expr) (output : Kind) :
    ((join left right expr none output).textAt depth).toList ++ r =
      indent depth ++ ("join".toList ++ ' ' :: ("-> ".toList ++ ((toString output).toList ++
        ':' :: ' ' :: (expr.text.toList ++ '\n' :: ((left.textAt (depth + 1)).toList ++
          ((right.textAt (depth + 1)).toList ++ r)))))) := by
  simp [textAt, lineAt, indent, toString_text]

theorem outerJoin_text (left right : Source) (expr : Expr) (fill : Value) (output : Kind) :
    ((join left right expr (some fill) output).textAt depth).toList ++ r =
      indent depth ++ ("outer".toList ++ ' ' :: ("join(".toList ++ (fill.constantText.toList ++
        ')' :: (" -> ".toList ++ ((toString output).toList ++
          ':' :: ' ' :: (expr.text.toList ++ '\n' :: ((left.textAt (depth + 1)).toList ++
            ((right.textAt (depth + 1)).toList ++ r)))))))) := by
  simp [textAt, lineAt, indent, toString_text]

end Query

theorem Source.input_text (depth slot : Nat) (r : List Char) :
    ((input slot).textAt depth).toList ++ r =
      indent depth ++ ("input".toList ++ ' ' :: ((toString slot).toList ++ '\n' :: r)) := by
  simp [textAt, lineAt, indent, toString_text]

/-- The first word of the text of a query. -/
def Query.keyword : Query → String
  | .select .. => "select"
  | .filter .. => "where"
  | .window .. => "window"
  | .join _ _ _ none _ => "join"
  | .join _ _ _ (some _) _ => "outer"

theorem Query.keyword_mem (q : Query) :
    q.keyword ∈ ["select", "where", "window", "join", "outer"] := by
  cases q with
  | join left right expr fill? output => cases fill? <;> simp [keyword]
  | _ => simp [keyword]

theorem Query.isWord_keyword (q : Query) : IsWord q.keyword.toList :=
  List.all_eq_true.mp (by decide :
    ["select", "where", "window", "join", "outer"].all (·.toList.all isWordChar) = true) _
    q.keyword_mem

theorem Query.textAt_keyword (depth : Nat) (r : List Char) (q : Query) :
    ∃ rest, Breaks rest ∧
      (q.textAt depth).toList ++ r = indent depth ++ (q.keyword.toList ++ rest) := by
  cases q with
  | select source expr output => exact ⟨_, breaks_cons (by decide), select_text ..⟩
  | filter source predicate => exact ⟨_, breaks_cons (by decide), filter_text ..⟩
  | window source length period reducer output =>
    exact ⟨_, breaks_cons (by decide), window_text ..⟩
  | join left right expr fill? output =>
    cases fill? with
    | none => exact ⟨_, breaks_cons (by decide), innerJoin_text ..⟩
    | some fill => exact ⟨_, breaks_cons (by decide), outerJoin_text ..⟩

section

variable {depth : Nat} {r r' : List Char}

theorem Query.keyword_eq_of_textAt {q q' : Query}
    (h : (q.textAt depth).toList ++ r = (q'.textAt depth).toList ++ r') :
    q.keyword = q'.keyword := by
  obtain ⟨rest, hrest, htext⟩ := q.textAt_keyword depth r
  obtain ⟨rest', hrest', htext'⟩ := q'.textAt_keyword depth r'
  rw [htext, htext'] at h
  exact String.toList_inj.mp
    (word_inj q.isWord_keyword q'.isWord_keyword hrest hrest' (List.append_cancel_left h)).1

/-- No query begins like an input. -/
theorem Source.input_ne_query {slot : Nat} {q : Query} :
    ((input slot).textAt depth).toList ++ r ≠ (q.textAt depth).toList ++ r' := by
  intro h
  obtain ⟨rest, hrest, htext⟩ := q.textAt_keyword depth r'
  rw [input_text, htext] at h
  obtain ⟨hword, -⟩ := word_inj (show IsWord "input".toList by unfold IsWord; decide)
    q.isWord_keyword (breaks_cons (by decide)) hrest (List.append_cancel_left h)
  have hmem := q.keyword_mem
  rw [← String.toList_inj.mp hword] at hmem
  exact absurd hmem (by decide)

/-- The end of a line: a kind and the expression that computes it. -/
theorem computed_inj {kind kind' : Kind} {e e' : Expr}
    (h : (toString kind).toList ++ ':' :: ' ' :: (e.text.toList ++ '\n' :: r) =
      (toString kind').toList ++ ':' :: ' ' :: (e'.text.toList ++ '\n' :: r')) :
    kind = kind' ∧ e.canonical = e'.canonical ∧ r = r' := by
  obtain ⟨hkind, h⟩ := word_inj (isWord_kind kind) (isWord_kind kind') (breaks_cons (by decide))
    (breaks_cons (by decide)) h
  obtain ⟨he, h⟩ := Expr.eq_of_text (ends_cons (by decide)) (ends_cons (by decide))
    (List.cons.inj (List.cons.inj h).2).2
  exact ⟨kind_inj hkind, he, (List.cons.inj h).2⟩

namespace Query

/-! What the first lines of two queries say if the queries are of one form. The lines of the sources
follow, and then whatever follows. -/

variable {source source' left left' right right' : Source} {expr expr' : Expr} {fill fill' : Value}
  {length length' period period' : Int} {reducer reducer' : Reducer} {output output' : Kind}

theorem select_inj (h : ((select source expr output).textAt depth).toList ++ r =
      ((select source' expr' output').textAt depth).toList ++ r') :
    output = output' ∧ expr.canonical = expr'.canonical ∧
      (source.textAt (depth + 1)).toList ++ r = (source'.textAt (depth + 1)).toList ++ r' := by
  rw [select_text, select_text] at h
  have hline := List.append_cancel_left (List.append_cancel_left h)
  exact computed_inj (List.append_cancel_left (List.cons.inj hline).2)

theorem filter_inj (h : ((filter source expr).textAt depth).toList ++ r =
      ((filter source' expr').textAt depth).toList ++ r') :
    expr.canonical = expr'.canonical ∧
      (source.textAt (depth + 1)).toList ++ r = (source'.textAt (depth + 1)).toList ++ r' := by
  rw [filter_text, filter_text] at h
  have hline := List.append_cancel_left (List.append_cancel_left h)
  obtain ⟨hexpr, hlines⟩ := Expr.eq_of_text (ends_cons (by decide)) (ends_cons (by decide))
    (List.cons.inj (List.cons.inj hline).2).2
  exact ⟨hexpr, (List.cons.inj hlines).2⟩

theorem window_inj (h : ((window source length period reducer output).textAt depth).toList ++ r =
      ((window source' length' period' reducer' output').textAt depth).toList ++ r') :
    length = length' ∧ period = period' ∧ output = output' ∧ reducer = reducer' ∧
      (source.textAt (depth + 1)).toList ++ r = (source'.textAt (depth + 1)).toList ++ r' := by
  rw [window_text, window_text] at h
  have hline := List.append_cancel_left (List.append_cancel_left h)
  -- Length, period, kind and reducer are words, and what follows each of them breaks it.
  obtain ⟨hlength, hline⟩ := word_inj (isWord_int length) (isWord_int length')
    (breaks_cons (by decide)) (breaks_cons (by decide)) (List.cons.inj hline).2
  obtain ⟨hperiod, hline⟩ := word_inj (isWord_int period) (isWord_int period')
    (breaks_cons (by decide)) (breaks_cons (by decide))
    (List.append_cancel_left (List.cons.inj hline).2)
  obtain ⟨houtput, hline⟩ := word_inj (isWord_kind output) (isWord_kind output')
    (breaks_cons (by decide)) (breaks_cons (by decide))
    (List.append_cancel_left (List.cons.inj hline).2)
  obtain ⟨hreducer, hlines⟩ := word_inj (isWord_reducer reducer) (isWord_reducer reducer')
    (breaks_cons (by decide)) (breaks_cons (by decide))
    (List.cons.inj (List.cons.inj hline).2).2
  exact ⟨Int.repr_inj.mp (String.toList_inj.mp hlength),
    Int.repr_inj.mp (String.toList_inj.mp hperiod), kind_inj houtput, reducer_inj hreducer,
    (List.cons.inj hlines).2⟩

theorem innerJoin_inj (h : ((join left right expr none output).textAt depth).toList ++ r =
      ((join left' right' expr' none output').textAt depth).toList ++ r') :
    output = output' ∧ expr.canonical = expr'.canonical ∧
      (left.textAt (depth + 1)).toList ++ ((right.textAt (depth + 1)).toList ++ r) =
        (left'.textAt (depth + 1)).toList ++ ((right'.textAt (depth + 1)).toList ++ r') := by
  rw [innerJoin_text, innerJoin_text] at h
  have hline := List.append_cancel_left (List.append_cancel_left h)
  exact computed_inj (List.append_cancel_left (List.cons.inj hline).2)

theorem outerJoin_inj (h : ((join left right expr (some fill) output).textAt depth).toList ++ r =
      ((join left' right' expr' (some fill') output').textAt depth).toList ++ r') :
    fill.canonical = fill'.canonical ∧ output = output' ∧ expr.canonical = expr'.canonical ∧
      (left.textAt (depth + 1)).toList ++ ((right.textAt (depth + 1)).toList ++ r) =
        (left'.textAt (depth + 1)).toList ++ ((right'.textAt (depth + 1)).toList ++ r') := by
  rw [outerJoin_text, outerJoin_text] at h
  have hline := List.append_cancel_left (List.append_cancel_left h)
  obtain ⟨hfill, hline⟩ := word_inj fill.isWord_constantText fill'.isWord_constantText
    (breaks_cons (by decide)) (breaks_cons (by decide))
    (List.append_cancel_left (List.cons.inj hline).2)
  exact ⟨Value.canonical_eq_of_constantText (String.toList_inj.mp hfill),
    computed_inj (List.append_cancel_left (List.cons.inj hline).2)⟩

end Query

end

mutual

/-- Queries with the same lines are the same, and their lines end at the same place. -/
theorem Query.eq_of_textAt {depth : Nat} {r r' : List Char} : ∀ (q q' : Query),
    (q.textAt depth).toList ++ r = (q'.textAt depth).toList ++ r' →
      q.canonical = q'.canonical ∧ r = r'
  -- The first words tell the forms apart; within a form, the sources are what is left to compare.
  | .select source expr output, q', h => by
    have hkeyword := Query.keyword_eq_of_textAt h
    cases q' with
    | select source' expr' output' =>
      obtain ⟨houtput, hexpr, hlines⟩ := Query.select_inj h
      obtain ⟨hsource, hrest⟩ := Source.eq_of_textAt source source' hlines
      rw [Query.canonical, hsource, hexpr, houtput]
      exact ⟨rfl, hrest⟩
    | join left' right' expr' fill?' output' => cases fill?' <;> simp [Query.keyword] at hkeyword
    | _ => simp [Query.keyword] at hkeyword
  | .filter source predicate, q', h => by
    have hkeyword := Query.keyword_eq_of_textAt h
    cases q' with
    | filter source' predicate' =>
      obtain ⟨hpredicate, hlines⟩ := Query.filter_inj h
      obtain ⟨hsource, hrest⟩ := Source.eq_of_textAt source source' hlines
      rw [Query.canonical, hsource, hpredicate]
      exact ⟨rfl, hrest⟩
    | join left' right' expr' fill?' output' => cases fill?' <;> simp [Query.keyword] at hkeyword
    | _ => simp [Query.keyword] at hkeyword
  | .window source length period reducer output, q', h => by
    have hkeyword := Query.keyword_eq_of_textAt h
    cases q' with
    | window source' length' period' reducer' output' =>
      obtain ⟨hlength, hperiod, houtput, hreducer, hlines⟩ := Query.window_inj h
      obtain ⟨hsource, hrest⟩ := Source.eq_of_textAt source source' hlines
      rw [Query.canonical, hsource, hlength, hperiod, houtput, hreducer]
      exact ⟨rfl, hrest⟩
    | join left' right' expr' fill?' output' => cases fill?' <;> simp [Query.keyword] at hkeyword
    | _ => simp [Query.keyword] at hkeyword
  | .join left right expr none output, q', h => by
    have hkeyword := Query.keyword_eq_of_textAt h
    cases q' with
    | join left' right' expr' fill?' output' =>
      cases fill?' with
      | none =>
        obtain ⟨houtput, hexpr, hlines⟩ := Query.innerJoin_inj h
        obtain ⟨hleft, hlines⟩ := Source.eq_of_textAt left left' hlines
        obtain ⟨hright, hrest⟩ := Source.eq_of_textAt right right' hlines
        rw [Query.canonical, hleft, hright, hexpr, houtput]
        exact ⟨rfl, hrest⟩
      | some fill => simp [Query.keyword] at hkeyword
    | _ => simp [Query.keyword] at hkeyword
  | .join left right expr (some fill) output, q', h => by
    have hkeyword := Query.keyword_eq_of_textAt h
    cases q' with
    | join left' right' expr' fill?' output' =>
      cases fill?' with
      | none => simp [Query.keyword] at hkeyword
      | some fill' =>
        obtain ⟨hfill, houtput, hexpr, hlines⟩ := Query.outerJoin_inj h
        obtain ⟨hleft, hlines⟩ := Source.eq_of_textAt left left' hlines
        obtain ⟨hright, hrest⟩ := Source.eq_of_textAt right right' hlines
        rw [Query.canonical, hleft, hright, hexpr, houtput, Option.map_some, hfill]
        exact ⟨rfl, hrest⟩
    | _ => simp [Query.keyword] at hkeyword

@[inherit_doc Query.eq_of_textAt]
theorem Source.eq_of_textAt {depth : Nat} {r r' : List Char} : ∀ (s s' : Source),
    (s.textAt depth).toList ++ r = (s'.textAt depth).toList ++ r' →
      s.canonical = s'.canonical ∧ r = r'
  | .input slot, .input slot', h => by
    rw [Source.input_text, Source.input_text] at h
    have hline := List.append_cancel_left (List.append_cancel_left h)
    obtain ⟨hslot, hrest⟩ := word_inj (isWord_nat slot) (isWord_nat slot')
      (breaks_cons (by decide)) (breaks_cons (by decide)) (List.cons.inj hline).2
    rw [Source.canonical, Nat.repr_inj.mp (String.toList_inj.mp hslot)]
    exact ⟨rfl, (List.cons.inj hrest).2⟩
  | .input _, .query _, h => absurd h Source.input_ne_query
  | .query _, .input _, h => absurd h.symm Source.input_ne_query
  | .query q, .query q', h => by
    obtain ⟨hq, hrest⟩ := Query.eq_of_textAt q q' h
    rw [Source.canonical, hq]
    exact ⟨rfl, hrest⟩

end

mutual

/-- Non-numbers are all written alike. -/
theorem Query.textAt_canonical (depth : Nat) : ∀ q : Query,
    q.canonical.textAt depth = q.textAt depth
  | .select source expr output => by
    simp only [Query.canonical, Query.textAt, expr.text_canonical,
      Source.textAt_canonical (depth + 1) source]
  | .filter source predicate => by
    simp only [Query.canonical, Query.textAt, predicate.text_canonical,
      Source.textAt_canonical (depth + 1) source]
  | .window source length period reducer output => by
    simp only [Query.canonical, Query.textAt, Source.textAt_canonical (depth + 1) source]
  | .join left right expr fill? output => by
    cases fill? with
    | none =>
      simp only [Query.canonical, Query.textAt, Option.map_none, expr.text_canonical,
        Source.textAt_canonical (depth + 1) left, Source.textAt_canonical (depth + 1) right]
    | some fill =>
      simp only [Query.canonical, Query.textAt, Option.map_some, expr.text_canonical,
        fill.constantText_canonical, Source.textAt_canonical (depth + 1) left,
        Source.textAt_canonical (depth + 1) right]

@[inherit_doc Query.textAt_canonical]
theorem Source.textAt_canonical (depth : Nat) : ∀ s : Source,
    s.canonical.textAt depth = s.textAt depth
  | .input slot => rfl
  | .query q => by
    simp only [Source.canonical, Source.textAt, Query.textAt_canonical depth q]

end

/-! ## Symbols -/

theorem mod_twoTo_eq_of_digits {m n : Nat} {width : Nat}
    (h : ∀ i < width, m / twoTo (4 * i) % 16 = n / twoTo (4 * i) % 16) :
    m % twoTo (4 * width) = n % twoTo (4 * width) := by
  induction width with
  | zero => rw [Nat.mul_zero, twoTo_zero, Nat.mod_one, Nat.mod_one]
  | succ width ih =>
    have hsplit : twoTo (4 * (width + 1)) = twoTo (4 * width) * 16 := twoTo_add (4 * width) 4
    rw [hsplit, Nat.mod_mul, Nat.mod_mul, h width (Nat.lt_succ_self width),
      ih fun i hi => h i (Nat.lt_succ_of_lt hi)]

/-- Hexadecimal digits tell apart the numbers that fit them. -/
theorem hexText_inj {width m n : Nat} (hm : m < twoTo (4 * width)) (hn : n < twoTo (4 * width))
    (h : hexText width m = hexText width n) : m = n := by
  have hchar : ∀ a < 16, ∀ b < 16, Nat.digitChar a = Nat.digitChar b → a = b := by decide
  have hdigit := List.map_inj_left.mp (String.ofList_injective h)
  rw [← Nat.mod_eq_of_lt hm, ← Nat.mod_eq_of_lt hn]
  refine mod_twoTo_eq_of_digits fun i hi => ?_
  exact hchar _ (Nat.mod_lt _ (by decide)) _ (Nat.mod_lt _ (by decide))
    (hdigit i (by simpa using hi))

theorem Query.textHash_eq_of_symbol [TextHash] {q₁ q₂ : Query} (h : q₁.symbol = q₂.symbol) :
    textHash q₁.text = textHash q₂.text := by
  have hhex := (String.append_right_inj _).mp h
  exact UInt64.toNat_inj.mp (hexText_inj (UInt64.toNat_lt _) (UInt64.toNat_lt _) hhex)

/-- Queries have the same text just if they are the same, node by node, with doubles compared by
their bits and all non-numbers taken for one. So different queries share a symbol only when the
hash, whichever it is, does not tell their different texts apart. -/
theorem Query.text_injective [TextHash] (q₁ q₂ : Query) :
    (q₁.text = q₂.text ↔ q₁.canonical = q₂.canonical) ∧
      (q₁.symbol = q₂.symbol → q₁.canonical = q₂.canonical ∨
        (q₁.text ≠ q₂.text ∧ textHash q₁.text = textHash q₂.text)) := by
  have htext : q₁.text = q₂.text ↔ q₁.canonical = q₂.canonical := by
    constructor
    · intro h
      exact (Query.eq_of_textAt q₁ q₂ (congrArg (·.toList ++ []) h)).1
    · intro h
      rw [text, text, ← q₁.textAt_canonical 0, h, q₂.textAt_canonical 0]
  refine ⟨htext, fun hsymbol => ?_⟩
  by_cases hsame : q₁.canonical = q₂.canonical
  · exact .inl hsame
  · exact .inr ⟨mt htext.mp hsame, textHash_eq_of_symbol hsymbol⟩

end StreamGauge
