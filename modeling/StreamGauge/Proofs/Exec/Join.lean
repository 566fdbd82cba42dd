import StreamGauge.Proofs.Exec.Cuts
import StreamGauge.Proofs.Exec.Emission

/-!
# Joins

* The emissions of an inner join are one for each of the `overlaps` that it finds
  (`toList_innerJoin`); these follow each other (`ordered_overlaps`). Over elements in order it
  finds every pair that shares some time, as going through all pairs would (`overlaps_eq_sharing`).
* The emissions of an outer join are one for each of the `coveredPieces` of both sides
  (`toList_outerJoin`). A side has at most one element that covers a piece
  (`InOrder.eq_of_covers`), and the cursor finds it (`covering_stoppingAfter`).

Both are orderly over elements in order (`orderly_innerJoin`, `orderly_outerJoin`).
-/

namespace StreamGauge

theorem joined_isOn (expr : Expr) (span : Span) (left right : Except ExecError Value) :
    (joined expr span left right).IsOn span := Emission.ofResult_isOn ..

/-- An element of a join halts only by a division by zero, if both sides have a value. -/
theorem joined_eq_halt {expr : Expr} (hexpr : expr.checkSlots 2 = .ok ()) {span : Span}
    {left right : Except ExecError Value} (hleft : ∃ a, left = .ok a)
    (hright : ∃ b, right = .ok b) {x : ExecError} (h : joined expr span left right = .halt x) :
    x = .divisionByZero := by
  obtain ⟨a, rfl⟩ := hleft
  obtain ⟨b, rfl⟩ := hright
  exact @Expr.compute_error expr [a, b] hexpr x (Emission.ofResult_eq_halt h)

/-! ## Inner joins -/

/-- The times that two elements share. -/
def overlap (a b : Element) : Span :=
  .between (max a.span.start b.span.start) (min a.span.stop b.span.stop)

@[simp]
theorem start_overlap (a b : Element) :
    (overlap a b).start = max a.span.start b.span.start := rfl

@[simp]
theorem stop_overlap (a b : Element) : (overlap a b).stop = min a.span.stop b.span.stop :=
  Span.stop_between _ _

theorem length_overlap_pos {a b : Element} : 0 < (overlap a b).length ↔
    max a.span.start b.span.start < min a.span.stop b.span.stop := by
  simp only [overlap, Span.between]
  omega

/-- Two elements as a pair, if they share some time. -/
def overlapping (a b : Element) : List (Element × Element) :=
  if 0 < (overlap a b).length then [(a, b)] else []

theorem mem_overlapping {a b : Element} {p : Element × Element} :
    p ∈ overlapping a b ↔ 0 < (overlap a b).length ∧ p = (a, b) := by
  unfold overlapping
  by_cases hpos : 0 < (overlap a b).length
  · rw [if_pos hpos, List.mem_singleton]
    exact ⟨fun h => ⟨hpos, h⟩, And.right⟩
  · rw [if_neg hpos]
    exact ⟨fun h => absurd h List.not_mem_nil, fun h => absurd h.1 hpos⟩

theorem length_overlapping_le (a b : Element) : (overlapping a b).length ≤ 1 := by
  unfold overlapping
  split <;> simp

theorem pairwise_overlapping (a b : Element) {R : Element × Element → Element × Element → Prop} :
    (overlapping a b).Pairwise R := by
  unfold overlapping
  split <;> simp

/-- The pairs of elements that an inner join finds to overlap. -/
def overlaps : List Element → List Element → List (Element × Element)
  | a :: left, b :: right =>
    if a.span.stop ≤ b.span.stop then overlapping a b ++ overlaps left (b :: right)
    else overlapping a b ++ overlaps (a :: left) right
  | _, _ => []
termination_by left right => left.length + right.length

theorem toList_innerJoin (expr : Expr) (left right : List Element) :
    (innerJoin expr left right).toList =
      (overlaps left right).map fun p => joined expr (overlap p.1 p.2) p.1.read p.2.read := by
  have hhere : ∀ a b : Element,
      (if max a.span.start b.span.start < min a.span.stop b.span.stop then
        [joined expr (overlap a b) a.read b.read] else []) =
      (overlapping a b).map fun p => joined expr (overlap p.1 p.2) p.1.read p.2.read := by
    intro a b
    simp only [overlapping, length_overlap_pos]
    split <;> rfl
  fun_induction innerJoin expr left right with
  | case1 a left b right lo hi here hstop ih =>
    rw [overlaps]
    simp only [if_pos hstop, Sequence.toList_append, ih, List.map_append]
    congr 1
    exact hhere a b
  | case2 a left b right lo hi here hstop ih =>
    rw [overlaps]
    simp only [if_neg hstop, Sequence.toList_append, ih, List.map_append]
    congr 1
    exact hhere a b
  | case3 left right hnot =>
    rw [overlaps.eq_2 _ _ hnot]
    rfl

theorem mem_overlaps {left right : List Element} {p : Element × Element}
    (h : p ∈ overlaps left right) :
    p.1 ∈ left ∧ p.2 ∈ right ∧ 0 < (overlap p.1 p.2).length := by
  fun_induction overlaps left right with
  | case1 a left b right hstop ih =>
    rcases List.mem_append.mp h with h | h
    · obtain ⟨hpos, rfl⟩ := mem_overlapping.mp h
      exact ⟨List.mem_cons_self, List.mem_cons_self, hpos⟩
    · obtain ⟨hl, hr, hpos⟩ := ih h
      exact ⟨List.mem_cons_of_mem _ hl, hr, hpos⟩
  | case2 a left b right hstop ih =>
    rcases List.mem_append.mp h with h | h
    · obtain ⟨hpos, rfl⟩ := mem_overlapping.mp h
      exact ⟨List.mem_cons_self, List.mem_cons_self, hpos⟩
    · obtain ⟨hl, hr, hpos⟩ := ih h
      exact ⟨hl, List.mem_cons_of_mem _ hr, hpos⟩
  | case3 left right hnot => cases h

theorem length_overlaps_le (left right : List Element) :
    (overlaps left right).length ≤ left.length + right.length := by
  fun_induction overlaps left right with
  | case1 a left b right hstop ih =>
    have := length_overlapping_le a b
    simp only [List.length_append, List.length_cons] at ih ⊢
    omega
  | case2 a left b right hstop ih =>
    have := length_overlapping_le a b
    simp only [List.length_append, List.length_cons] at ih ⊢
    omega
  | case3 left right hnot => exact Nat.zero_le _

/-- The overlaps follow each other: the element that stops first overlaps nothing later. -/
theorem ordered_overlaps {left right : List Element} (hl : InOrder left) (hr : InOrder right) :
    (overlaps left right).Pairwise fun p q => (overlap p.1 p.2).stop ≤ (overlap q.1 q.2).start := by
  fun_induction overlaps left right with
  | case1 a left b right hstop ih =>
    refine List.pairwise_append.mpr ⟨pairwise_overlapping a b, ih hl.tail hr, fun p hp q hq => ?_⟩
    obtain ⟨-, rfl⟩ := mem_overlapping.mp hp
    have hnext := hl.head_stop_le _ (mem_overlaps hq).1
    simp only [start_overlap, stop_overlap]
    omega
  | case2 a left b right hstop ih =>
    refine List.pairwise_append.mpr ⟨pairwise_overlapping a b, ih hl hr.tail, fun p hp q hq => ?_⟩
    obtain ⟨-, rfl⟩ := mem_overlapping.mp hp
    have hnext := hr.head_stop_le _ (mem_overlaps hq).2.1
    simp only [start_overlap, stop_overlap]
    omega
  | case3 left right hnot => exact .nil

/-- The pairs of a left and a right element that share some time, in the order of both lists. -/
def sharing (left right : List Element) : List (Element × Element) :=
  left.flatMap fun a => right.flatMap fun b => overlapping a b

theorem mem_sharing {left right : List Element} {a b : Element} :
    (a, b) ∈ sharing left right ↔ a ∈ left ∧ b ∈ right ∧
      max a.span.start b.span.start < min a.span.stop b.span.stop := by
  rw [← length_overlap_pos]
  simp only [sharing, List.mem_flatMap]
  constructor
  · rintro ⟨a', ha, b', hb, hp⟩
    obtain ⟨hpos, heq⟩ := mem_overlapping.mp hp
    cases heq
    exact ⟨ha, hb, hpos⟩
  · rintro ⟨ha, hb, hpos⟩
    exact ⟨a, ha, b, hb, mem_overlapping.mpr ⟨hpos, rfl⟩⟩

theorem overlapping_eq_nil {a b : Element}
    (h : a.span.stop ≤ b.span.start ∨ b.span.stop ≤ a.span.start) : overlapping a b = [] := by
  refine if_neg ?_
  rw [length_overlap_pos]
  omega

/-- Over elements in order, a join finds each pair that shares some time: what it leaves behind
shares no time with anything later on the other side. -/
theorem overlaps_eq_sharing {left right : List Element} (hl : InOrder left) (hr : InOrder right) :
    overlaps left right = sharing left right := by
  fun_induction overlaps left right with
  | case1 a left b right hstop ih =>
    -- `a` stops no later than `b`, so the rest of its row is empty.
    have hrow : (right.flatMap fun b' => overlapping a b') = [] := by
      rw [List.flatMap_eq_nil_iff]
      intro b' hb'
      have hnext := hr.head_stop_le b' hb'
      exact overlapping_eq_nil (.inl (by omega))
    rw [ih hl.tail hr, sharing, sharing, List.flatMap_cons, List.flatMap_cons, hrow,
      List.append_nil]
  | case2 a left b right hstop ih =>
    -- `b` stops before `a`, so the rest of its column is empty.
    have hrows : sharing left (b :: right) = sharing left right := by
      refine congrArg List.flatten (List.map_congr_left fun a' ha' => ?_)
      have hnext := hl.head_stop_le a' ha'
      rw [List.flatMap_cons, overlapping_eq_nil (.inr (by omega)), List.nil_append]
    have hsplit : sharing (a :: left) (b :: right) = overlapping a b ++
        (right.flatMap fun b' => overlapping a b') ++ sharing left (b :: right) := rfl
    rw [ih hl hr.tail, hsplit, hrows, List.append_assoc]
    rfl
  | case3 left right hnot =>
    cases left with
    | nil => rfl
    | cons a left =>
      cases right with
      | nil => exact (List.flatMap_eq_nil_iff.mpr fun _ _ => rfl).symm
      | cons b right => exact (hnot a left b right rfl rfl).elim

theorem nodup_overlaps {left right : List Element} (hl : InOrder left) (hr : InOrder right) :
    (overlaps left right).Nodup := by
  refine (ordered_overlaps hl hr).imp_of_mem fun {p q} hp _ hle heq => ?_
  subst heq
  have hpos := (mem_overlaps hp).2.2
  unfold Span.stop at hle
  omega

/-! ### Elements that lie within others -/

/-- The element that covers another one from start to stop. -/
def coverOf (es : List Element) (a : Element) : Element :=
  (es.find? (·.covers a.span.start a.span.stop)).getD a

theorem overlap_of_covers {a b : Element} (h : b.covers a.span.start a.span.stop = true) :
    overlap a b = a.span := by
  rw [Element.covers_iff] at h
  have hstart : max a.span.start b.span.start = a.span.start := by omega
  have hstop : min a.span.stop b.span.stop = a.span.stop := by omega
  have hlength : a.span.stop - a.span.start = a.span.length := by
    unfold Span.stop
    omega
  rw [overlap, hstart, hstop, Span.between, hlength]

/-- The times that an element shares with one that does not cover it are less than its own. -/
theorem length_overlap_lt {a b : Element} (h : ¬ b.covers a.span.start a.span.stop = true) :
    (overlap a b).length < a.span.length := by
  rw [Element.covers_iff] at h
  have hlength : (overlap a b).length =
      min a.span.stop b.span.stop - max a.span.start b.span.start := rfl
  have hstop : a.span.stop = a.span.start + a.span.length := rfl
  omega

theorem covers_coverOf {es : List Element} {a : Element}
    (h : es.any (·.covers a.span.start a.span.stop) = true) :
    coverOf es a ∈ es ∧ (coverOf es a).covers a.span.start a.span.stop = true := by
  obtain ⟨b, hb⟩ := Option.isSome_iff_exists.mp (List.find?_isSome.mpr (List.any_eq_true.mp h))
  rw [coverOf, hb]
  exact ⟨List.mem_of_find?_eq_some hb, List.find?_some hb⟩

/-- If the elements that share time with `a` cover it, there is one of them at most. -/
theorem row_of_covers {a : Element} {es : List Element} (ha : 0 < a.span.length)
    (hes : InOrder es) (h : ∀ b ∈ es, 0 < (overlap a b).length →
      b.covers a.span.start a.span.stop = true) :
    (es.flatMap fun b => overlapping a b) =
      if es.any (·.covers a.span.start a.span.stop) then [(a, coverOf es a)] else [] := by
  induction es with
  | nil => rfl
  | cons b es ih =>
    have hlength : a.span.stop = a.span.start + a.span.length := rfl
    by_cases hcovers : b.covers a.span.start a.span.stop = true
    · have hspan := overlap_of_covers hcovers
      have hrest : (es.flatMap fun b' => overlapping a b') = [] := by
        rw [List.flatMap_eq_nil_iff]
        intro b' hb'
        have hnext := hes.head_stop_le b' hb'
        have := (Element.covers_iff.mp hcovers).2
        exact overlapping_eq_nil (.inl (by omega))
      rw [List.flatMap_cons, hrest, List.append_nil, overlapping, hspan, if_pos ha, List.any_cons,
        hcovers, Bool.true_or, if_pos rfl, coverOf, List.find?_cons_of_pos hcovers]
      rfl
    · have hnone : ¬ 0 < (overlap a b).length :=
        fun hpos => hcovers (h b List.mem_cons_self hpos)
      have hrest := ih hes.tail fun b' hb' => h b' (List.mem_cons_of_mem _ hb')
      rw [List.flatMap_cons, hrest, overlapping, if_neg hnone, List.nil_append, List.any_cons,
        Bool.not_eq_true _ |>.mp hcovers, Bool.false_or, coverOf, coverOf,
        List.find?_cons_of_neg hcovers]

/-- If right elements cover each left element that they share time with, a join keeps the left
elements that are covered, each as it is. -/
theorem overlaps_of_covers {left right : List Element} (hl : InOrder left) (hr : InOrder right)
    (h : ∀ a ∈ left, ∀ b ∈ right, 0 < (overlap a b).length →
      b.covers a.span.start a.span.stop = true) :
    overlaps left right =
      (left.filter fun a => right.any (·.covers a.span.start a.span.stop)).map
        fun a => (a, coverOf right a) := by
  rw [overlaps_eq_sharing hl hr]
  induction left with
  | nil => rfl
  | cons a left ih =>
    obtain ⟨ha, hrest⟩ := List.forall_mem_cons.mp h
    have hrow := row_of_covers (hl.length_pos a List.mem_cons_self) hr ha
    rw [sharing, List.flatMap_cons, hrow, List.filter_cons]
    split
    case isTrue => exact congrArg _ (ih hl.tail hrest)
    case isFalse => exact ih hl.tail hrest

/-- The times of the overlaps are those of the left elements that are covered. -/
theorem spans_overlaps_of_covers {left right : List Element} (hl : InOrder left)
    (hr : InOrder right) (h : ∀ a ∈ left, ∀ b ∈ right, 0 < (overlap a b).length →
      b.covers a.span.start a.span.stop = true) :
    ((overlaps left right).map fun p => overlap p.1 p.2) =
      (left.filter fun a => right.any (·.covers a.span.start a.span.stop)).map (·.span) := by
  rw [overlaps_of_covers hl hr h, List.map_map]
  refine List.map_congr_left fun a ha => ?_
  exact overlap_of_covers (covers_coverOf (List.mem_filter.mp ha).2).2

theorem orderly_innerJoin {left right : List Element} {start : Int} {expr : Expr}
    (hl : Readable start left) (hr : Readable start right)
    (hexpr : expr.checkSlots 2 = .ok ()) :
    Orderly start (left.length + right.length) (innerJoin expr left right).toList := by
  have horderly := @orderly_map _ (overlaps left right) (fun p => overlap p.1 p.2)
    (fun p => joined expr (overlap p.1 p.2) p.1.read p.2.read) start
    (fun p _ => joined_isOn ..) (fun p hp => (mem_overlaps hp).2.2)
    (ordered_overlaps hl.inOrder hr.inOrder)
    (fun p hp => by
      have := hl.start_le p.1 (mem_overlaps hp).1
      rw [start_overlap]
      omega)
    (fun p hp x hx => joined_eq_halt hexpr (hl.value _ (mem_overlaps hp).1)
      (hr.value _ (mem_overlaps hp).2.1) hx)
  rw [toList_innerJoin]
  exact horderly.mono (length_overlaps_le left right)

/-! ## Outer joins -/

theorem stoppingAfter_stoppingAfter {es : List Element} {t t' : Int} (h : t ≤ t') :
    stoppingAfter (stoppingAfter es t) t' = stoppingAfter es t' := by
  unfold stoppingAfter
  induction es with
  | nil => rfl
  | cons e es ih =>
    rw [List.dropWhile_cons]
    by_cases hstop : e.span.stop ≤ t
    · rw [if_pos (by simpa using hstop), ih, List.dropWhile_cons,
        if_pos (by simp only [decide_eq_true_eq]; omega)]
    · rw [if_neg (by simpa using hstop)]

namespace InOrder

variable {es : List Element} {lo hi : Int}

/-- At most one of elements in order covers a piece. -/
theorem eq_of_covers (h : InOrder es) (hlt : lo < hi) {a b : Element} (ha : a ∈ es) (hb : b ∈ es)
    (hac : a.covers lo hi = true) (hbc : b.covers lo hi = true) : a = b := by
  rw [Element.covers_iff] at hac hbc
  induction es with
  | nil => cases ha
  | cons e es ih =>
    have hnext := h.head_stop_le
    rcases List.mem_cons.mp ha with rfl | ha'
    · rcases List.mem_cons.mp hb with rfl | hb'
      · rfl
      · have := hnext b hb'
        omega
    · rcases List.mem_cons.mp hb with rfl | hb'
      · have := hnext a ha'
        omega
      · exact ih h.tail ha' hb'

theorem coverOf_eq (h : InOrder es) {a b : Element} (ha : 0 < a.span.length) (hb : b ∈ es)
    (hcovers : b.covers a.span.start a.span.stop = true) : coverOf es a = b := by
  obtain ⟨hmem, hcover⟩ := covers_coverOf (List.any_eq_true.mpr ⟨b, hb, hcovers⟩)
  have hlt : a.span.start < a.span.stop := by
    unfold Span.stop
    omega
  exact h.eq_of_covers hlt hmem hb hcover hcovers

/-- The cursor finds the element that covers a piece, if there is one. -/
theorem covering_stoppingAfter (h : InOrder es) (hlt : lo < hi)
    (huncut : ∀ e ∈ es, (e.span.start ≤ lo ∨ hi ≤ e.span.start) ∧
      (e.span.stop ≤ lo ∨ hi ≤ e.span.stop)) :
    covering (stoppingAfter es lo) lo = es.find? (·.covers lo hi) := by
  induction es with
  | nil => rfl
  | cons e es ih =>
    obtain ⟨hstart, hstop⟩ := huncut e List.mem_cons_self
    have hcovers : e.covers lo hi = true ↔ e.span.start ≤ lo ∧ hi ≤ e.span.stop :=
      Element.covers_iff
    unfold stoppingAfter
    rw [List.dropWhile_cons]
    by_cases hpassed : e.span.stop ≤ lo
    · rw [if_pos (by simpa using hpassed), List.find?_cons_of_neg (by rw [hcovers]; omega)]
      exact ih h.tail fun e' he' => huncut e' (List.mem_cons_of_mem _ he')
    · rw [if_neg (by simpa using hpassed)]
      by_cases hin : e.span.start ≤ lo
      · rw [List.find?_cons_of_pos (hcovers.mpr ⟨hin, by omega⟩)]
        simp [covering, hin]
      · rw [List.find?_cons_of_neg (by rw [hcovers]; omega)]
        have hnone : es.find? (·.covers lo hi) = none := by
          rw [List.find?_eq_none]
          intro e' he'
          have hnext := h.head_stop_le e' he'
          have hpos := h.start_lt_stop (List.mem_cons_self (a := e))
          rw [Element.covers_iff]
          omega
        rw [hnone]
        simp only [covering, List.head?_cons, Option.filter_some]
        rw [if_neg (by simpa using hin)]

end InOrder

/-- A join of elements at the same times on both sides has elements at these times. -/
theorem spans_overlaps_of_spans_eq {left right : List Element} (hl : InOrder left)
    (hr : InOrder right) (h : left.map (·.span) = right.map (·.span)) :
    ((overlaps left right).map fun p => overlap p.1 p.2) = left.map (·.span) := by
  have hcovers : ∀ a ∈ left, ∀ b ∈ right, 0 < (overlap a b).length →
      b.covers a.span.start a.span.stop = true := by
    intro a ha b hb hpos
    rw [length_overlap_pos] at hpos
    obtain ⟨a', ha', hspan⟩ := List.mem_map.mp (h ▸ List.mem_map_of_mem hb)
    have hsame : a = a' := hl.eq_of_covers hpos ha ha'
      (Element.covers_iff.mpr (by omega)) (Element.covers_iff.mpr (by rw [hspan]; omega))
    rw [Element.covers_iff, ← hspan, hsame]
    omega
  rw [spans_overlaps_of_covers hl hr hcovers]
  refine congrArg _ (List.filter_eq_self.mpr fun a ha => ?_)
  obtain ⟨b, hb, hspan⟩ := List.mem_map.mp (h ▸ List.mem_map_of_mem ha)
  refine List.any_eq_true.mpr ⟨b, hb, ?_⟩
  rw [Element.covers_iff, hspan]
  omega

/-- The emission of a piece, given the elements of both sides. -/
def pieceEmission (expr : Expr) (fill : Value) (left right : List Element) (p : Int × Int) :
    Emission :=
  joined expr (.between p.1 p.2) (sideValue fill (left.find? (·.covers p.1 p.2)))
    (sideValue fill (right.find? (·.covers p.1 p.2)))

theorem uncovered_iff {left right : List Element} {lo hi : Int} :
    (left ++ right).any (·.covers lo hi) = false ↔
      left.find? (·.covers lo hi) = none ∧ right.find? (·.covers lo hi) = none := by
  rw [List.any_append, Bool.or_eq_false_iff, List.any_eq_false, List.any_eq_false,
    List.find?_eq_none, List.find?_eq_none]

/-- The pieces go through both sides from left to right. What is left of a side (`ls`, `rs`) gives
every further piece the element that the whole side gives it. -/
theorem toList_outerJoinPieces {expr : Expr} {fill : Value} {pieces : List (Int × Int)}
    {left right ls rs : List Element} (hordered : pieces.Pairwise (·.1 ≤ ·.1))
    (hls : ∀ p ∈ pieces, stoppingAfter ls p.1 = stoppingAfter left p.1)
    (hrs : ∀ p ∈ pieces, stoppingAfter rs p.1 = stoppingAfter right p.1)
    (hfind : ∀ p ∈ pieces, covering (stoppingAfter left p.1) p.1 = left.find? (·.covers p.1 p.2) ∧
      covering (stoppingAfter right p.1) p.1 = right.find? (·.covers p.1 p.2)) :
    (outerJoinPieces expr fill pieces ls rs).toList =
      (pieces.filter fun p => (left ++ right).any (·.covers p.1 p.2)).map
        (pieceEmission expr fill left right) := by
  induction pieces generalizing ls rs with
  | nil => rfl
  | cons p pieces ih =>
    obtain ⟨lo, hi⟩ := p
    obtain ⟨hle, hordered⟩ := List.pairwise_cons.mp hordered
    obtain ⟨hl, hls⟩ := List.forall_mem_cons.mp hls
    obtain ⟨hr, hrs⟩ := List.forall_mem_cons.mp hrs
    obtain ⟨⟨hfl, hfr⟩, hfind⟩ := List.forall_mem_cons.mp hfind
    have hrest := @ih (stoppingAfter ls lo) (stoppingAfter rs lo) hordered
      (fun p hp => by rw [stoppingAfter_stoppingAfter (hle p hp), hls p hp])
      (fun p hp => by rw [stoppingAfter_stoppingAfter (hle p hp), hrs p hp]) hfind
    simp only at hl hr hfl hfr
    rw [← hl] at hfl
    rw [← hr] at hfr
    rw [List.filter_cons]
    simp only [outerJoinPieces, hfl, hfr]
    split
    case h_1 hnl hnr =>
      rw [if_neg (by rw [Bool.not_eq_true]; exact uncovered_iff.mpr ⟨hnl, hnr⟩)]
      exact hrest
    case h_2 hsome =>
      rw [if_pos]
      · rw [Sequence.toList, hrest]
        rfl
      · cases hany : (left ++ right).any (·.covers lo hi) with
        | true => rfl
        | false =>
          obtain ⟨hnl, hnr⟩ := uncovered_iff.mp hany
          exact (hsome hnl hnr).elim

/-- An outer join of elements in order has one emission for each piece that an element covers. -/
theorem toList_outerJoin (expr : Expr) (fill : Value) {left right : List Element}
    (hl : InOrder left) (hr : InOrder right) :
    (outerJoin expr fill left right).toList =
      (coveredPieces (left ++ right)).map (pieceEmission expr fill left right) := by
  have hcuts := (cutsOf_spec (left ++ right)).1
  refine toList_outerJoinPieces ?_ (fun _ _ => rfl) (fun _ _ => rfl) fun p hp => ?_
  · refine (ordered_zip_tail hcuts).imp_of_mem fun {p q} hp _ hle => ?_
    have := (uncut_of_mem hp).1
    omega
  · obtain ⟨hlt, huncut⟩ := uncut_of_mem hp
    exact ⟨hl.covering_stoppingAfter hlt fun e he => huncut e (List.mem_append_left _ he),
      hr.covering_stoppingAfter hlt fun e he => huncut e (List.mem_append_right _ he)⟩

section

variable {left right : List Element} {start : Int} {expr : Expr} {fill : Value}

/-- The pieces follow each other, and so do their emissions. -/
theorem ascending_outerJoin (hl : InOrder left) (hr : InOrder right)
    (hstart : ∀ e ∈ left ++ right, start ≤ e.span.start) :
    Ascending start (outerJoin expr fill left right).toList := by
  have hpos : ∀ e ∈ left ++ right, 0 < e.span.length := by
    intro e he
    rcases List.mem_append.mp he with he | he
    · exact hl.length_pos e he
    · exact hr.length_pos e he
  rw [toList_outerJoin expr fill hl hr]
  refine @ascending_map _ _ (fun p : Int × Int => .between p.1 p.2) _ _
    (fun p _ => joined_isOn ..) (fun p hp => ?_)
    ((ordered_coveredPieces _).imp fun h => by rwa [Span.stop_between])
    fun p hp => start_le_of_coveredPieces hpos hstart hp
  have := (mem_coveredPieces.mp hp).lt
  simp only [Span.between]
  omega

theorem countP_outerJoin_le (hl : InOrder left) (hr : InOrder right) :
    (outerJoin expr fill left right).toList.countP Emission.isElement ≤
      (coveredPieces (left ++ right)).length := by
  rw [toList_outerJoin expr fill hl hr]
  exact Nat.le_trans List.countP_le_length (Nat.le_of_eq (List.length_map _))

theorem orderly_outerJoin (hl : Readable start left) (hr : Readable start right)
    (hexpr : expr.checkSlots 2 = .ok ()) :
    Orderly start (2 * (left.length + right.length)) (outerJoin expr fill left right).toList where
  ascending := ascending_outerJoin hl.inOrder hr.inOrder fun e he =>
    (List.mem_append.mp he).elim (hl.start_le e) (hr.start_le e)
  count := by
    have hpieces := length_coveredPieces_le (left ++ right)
    rw [List.length_append] at hpieces
    exact Nat.le_trans (countP_outerJoin_le hl.inOrder hr.inOrder) hpieces
  halts x hx := by
    have hside : ∀ es, Readable start es → ∀ p : Int × Int,
        ∃ v, sideValue fill (es.find? (·.covers p.1 p.2)) = .ok v := by
      intro es hes p
      cases hfind : es.find? (·.covers p.1 p.2) with
      | none => exact ⟨fill, rfl⟩
      | some e => exact hes.value e (List.mem_of_find?_eq_some hfind)
    rw [toList_outerJoin expr fill hl.inOrder hr.inOrder] at hx
    obtain ⟨p, -, heq⟩ := List.mem_map.mp hx
    exact joined_eq_halt hexpr (hside left hl p) (hside right hr p) heq

end

end StreamGauge
