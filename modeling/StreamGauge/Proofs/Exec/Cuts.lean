import StreamGauge.Exec.Join
import StreamGauge.Proofs.Region.View

/-!
# Cuts

`cutsOf` lists the times where elements start or stop, in order and each once (`cutsOf_spec`).
Between two neighbours of a strictly increasing list there is nothing else of it (`mem_zip_tail`).

`coveredPieces` are the pieces between neighbouring cuts that an element covers (`IsPiece`). They
follow each other (`ordered_coveredPieces`), and together they are the times of the elements
(`union_coveredPieces`).
-/

namespace StreamGauge

/-! ## Sorting without repetitions -/

/-- Repetitions in an increasing list lie next to each other. -/
theorem eraseReps_loop_spec {a : Int} {as acc : List Int} (h : (a :: as).Pairwise (· ≤ ·))
    (hacc : acc.Pairwise (· > ·)) (hlt : ∀ x ∈ acc, x < a) :
    (List.eraseRepsBy.loop (· == ·) a as acc).Pairwise (· < ·) ∧
      ∀ t, t ∈ List.eraseRepsBy.loop (· == ·) a as acc ↔ t ∈ acc ∨ t ∈ a :: as := by
  -- The list is built backwards: `acc` holds what is less than `a`, the greatest first.
  induction as generalizing a acc with
  | nil =>
    rw [List.eraseRepsBy.loop]
    refine ⟨?_, fun t => ?_⟩
    · rw [List.pairwise_reverse, List.pairwise_cons]
      exact ⟨hlt, hacc⟩
    · simp [or_comm]
  | cons b as ih =>
    obtain ⟨hle, hrest⟩ := List.pairwise_cons.mp h
    have hab := hle b List.mem_cons_self
    rw [List.eraseRepsBy.loop]
    split
    case h_1 heq =>
      cases beq_iff_eq.mp heq
      obtain ⟨hsorted, hmem⟩ := ih hrest hacc hlt
      refine ⟨hsorted, fun t => ?_⟩
      rw [hmem]
      simp
    case h_2 hne =>
      have hab' : a < b := by
        have : a ≠ b := by
          rintro rfl
          simp at hne
        omega
      obtain ⟨hsorted, hmem⟩ := @ih b (a :: acc) hrest (List.pairwise_cons.mpr ⟨hlt, hacc⟩)
        (List.forall_mem_cons.mpr ⟨hab', fun x hx => Int.lt_trans (hlt x hx) hab'⟩)
      refine ⟨hsorted, fun t => ?_⟩
      rw [hmem]
      simp only [List.mem_cons]
      grind

theorem eraseReps_spec {ts : List Int} (h : ts.Pairwise (· ≤ ·)) :
    ts.eraseReps.Pairwise (· < ·) ∧ ∀ t, t ∈ ts.eraseReps ↔ t ∈ ts := by
  cases ts with
  | nil => exact ⟨.nil, fun t => Iff.rfl⟩
  | cons a as =>
    obtain ⟨hsorted, hmem⟩ := eraseReps_loop_spec h .nil (by simp)
    exact ⟨hsorted, fun t => by rw [List.eraseReps, List.eraseRepsBy, hmem]; simp⟩

theorem length_eraseReps_loop (a : Int) (as acc : List Int) :
    (List.eraseRepsBy.loop (· == ·) a as acc).length ≤ acc.length + (as.length + 1) := by
  induction as generalizing a acc with
  | nil => simp [List.eraseRepsBy.loop]
  | cons b as ih =>
    rw [List.eraseRepsBy.loop]
    split
    · have := ih a acc
      simp only [List.length_cons]
      omega
    · have := ih b (a :: acc)
      simp only [List.length_cons] at this ⊢
      omega

theorem length_eraseReps_le (ts : List Int) : ts.eraseReps.length ≤ ts.length := by
  cases ts with
  | nil => exact Nat.le_refl _
  | cons a as =>
    have := length_eraseReps_loop a as []
    rwa [List.length_nil, Nat.zero_add] at this

theorem cutsOf_spec (es : List Element) : (cutsOf es).Pairwise (· < ·) ∧
    ∀ t, t ∈ cutsOf es ↔ ∃ e ∈ es, t = e.span.start ∨ t = e.span.stop := by
  have hsorted := @List.pairwise_mergeSort Int (fun a b => decide (a ≤ b))
    (fun a b c hab hbc => by simp only [decide_eq_true_eq] at *; omega)
    (fun a b => by simp only [Bool.or_eq_true, decide_eq_true_eq]; omega)
    (es.flatMap fun e => [e.span.start, e.span.stop])
  obtain ⟨h, hmem⟩ := eraseReps_spec (hsorted.imp fun h => by simpa using h)
  refine ⟨h, fun t => ?_⟩
  rw [cutsOf, hmem, List.mem_mergeSort, List.mem_flatMap]
  simp

/-- Each element has two cuts at most. -/
theorem length_cutsOf_le (es : List Element) : (cutsOf es).length ≤ 2 * es.length := by
  refine Nat.le_trans (length_eraseReps_le _) ?_
  rw [List.length_mergeSort]
  induction es with
  | nil => exact Nat.le_refl _
  | cons e es ih =>
    simp only [List.flatMap_cons, List.length_append, List.length_cons, List.length_nil]
    omega

/-! ## Neighbours -/

section Neighbours

variable {ts : List Int} {lo hi : Int}

/-- The neighbours in an increasing list are the members with none between them. -/
theorem mem_zip_tail (h : ts.Pairwise (· < ·)) :
    (lo, hi) ∈ ts.zip ts.tail ↔
      lo ∈ ts ∧ hi ∈ ts ∧ lo < hi ∧ ∀ t ∈ ts, t ≤ lo ∨ hi ≤ t := by
  induction ts with
  | nil => simp
  | cons a rest ih =>
    obtain ⟨ha, hrest⟩ := List.pairwise_cons.mp h
    cases rest with
    | nil =>
      simp only [List.tail_cons, List.zip_nil_right, List.not_mem_nil, List.mem_singleton,
        false_iff]
      rintro ⟨rfl, rfl, hlt, -⟩
      exact Int.lt_irrefl _ hlt
    | cons b rest =>
      have hab := ha b List.mem_cons_self
      have hb := (List.pairwise_cons.mp hrest).1
      rw [List.tail_cons, List.zip_cons_cons, List.mem_cons, Prod.mk.injEq]
      rw [List.tail_cons] at ih
      rw [ih hrest]
      constructor
      -- Any two members further on are after `a`, and `b` is the least of these.
      · rintro (⟨rfl, rfl⟩ | ⟨hlo, hhi, hlt, hnone⟩)
        · refine ⟨by simp, by simp, hab, fun t ht => ?_⟩
          rcases List.mem_cons.mp ht with rfl | ht
          · exact .inl (Int.le_refl _)
          · rcases List.mem_cons.mp ht with rfl | ht
            · exact .inr (Int.le_refl _)
            · exact .inr (Int.le_of_lt (hb t ht))
        · refine ⟨List.mem_cons_of_mem _ hlo, List.mem_cons_of_mem _ hhi, hlt, fun t ht => ?_⟩
          rcases List.mem_cons.mp ht with rfl | ht
          · exact .inl (Int.le_of_lt (ha lo hlo))
          · exact hnone t ht
      · rintro ⟨hlo, hhi, hlt, hnone⟩
        rcases List.mem_cons.mp hlo with rfl | hlo
        · refine .inl ⟨rfl, ?_⟩
          rcases List.mem_cons.mp hhi with rfl | hhi
          · exact absurd hlt (Int.lt_irrefl _)
          · have hle : b ≤ hi := by
              rcases List.mem_cons.mp hhi with rfl | hhi
              · exact Int.le_refl _
              · exact Int.le_of_lt (hb hi hhi)
            have := hnone b (by simp)
            omega
        · have hgt := ha lo hlo
          refine .inr ⟨hlo, ?_, hlt, fun t ht => hnone t (List.mem_cons_of_mem _ ht)⟩
          rcases List.mem_cons.mp hhi with rfl | hhi
          · omega
          · exact hhi

theorem ordered_zip_tail (h : ts.Pairwise (· < ·)) :
    (ts.zip ts.tail).Pairwise (·.2 ≤ ·.1) := by
  induction ts with
  | nil => exact .nil
  | cons a rest ih =>
    obtain ⟨-, hrest⟩ := List.pairwise_cons.mp h
    cases rest with
    | nil => exact .nil
    | cons b rest =>
      rw [List.tail_cons, List.zip_cons_cons, List.pairwise_cons]
      refine ⟨fun p hp => ?_, ih hrest⟩
      have hmem := (List.of_mem_zip hp).1
      rcases List.mem_cons.mp hmem with heq | hmem
      · exact Int.le_of_eq heq.symm
      · exact Int.le_of_lt ((List.pairwise_cons.mp hrest).1 _ hmem)

/-- A time between two members lies between two neighbours. -/
theorem exists_neighbours (h : ts.Pairwise (· < ·)) {a b t : Int} (ha : a ∈ ts) (hb : b ∈ ts)
    (hat : a < t) (htb : t ≤ b) : ∃ p ∈ ts.zip ts.tail, p.1 < t ∧ t ≤ p.2 := by
  induction ts generalizing a with
  | nil => cases ha
  | cons c rest ih =>
    obtain ⟨hc, hrest⟩ := List.pairwise_cons.mp h
    cases rest with
    | nil =>
      rw [List.mem_singleton] at ha hb
      omega
    | cons d rest =>
      have hd := (List.pairwise_cons.mp hrest).1
      have hle : ∀ x ∈ d :: rest, d ≤ x := List.forall_mem_cons.mpr
        ⟨Int.le_refl _, fun x hx => Int.le_of_lt (hd x hx)⟩
      rw [List.tail_cons, List.zip_cons_cons]
      -- Either `t` is between the first two members, or the second takes the place of `a`.
      rcases Int.lt_or_le d t with hdt | htd
      · have hcd := hc d List.mem_cons_self
        have hb' : b ∈ d :: rest := by
          rcases List.mem_cons.mp hb with rfl | hb
          · omega
          · exact hb
        obtain ⟨p, hp, hbetween⟩ := ih hrest List.mem_cons_self hb' hdt
        exact ⟨p, List.mem_cons_of_mem _ hp, hbetween⟩
      · refine ⟨(c, d), List.mem_cons_self, ?_, htd⟩
        rcases List.mem_cons.mp ha with rfl | ha
        · exact hat
        · have := hle a ha
          omega

end Neighbours

/-! ## Covered pieces -/

/-- Whether an element covers the times after `lo` and up to `hi`. -/
def Element.covers (lo hi : Int) (e : Element) : Bool :=
  decide (e.span.start ≤ lo) && decide (hi ≤ e.span.stop)

theorem Element.covers_iff {lo hi : Int} {e : Element} :
    e.covers lo hi = true ↔ e.span.start ≤ lo ∧ hi ≤ e.span.stop := by
  simp [covers]

/-- The times after `lo` and up to `hi` are a piece of the elements: they go from one start or stop
to another one with none in between, and an element covers them. -/
structure IsPiece (es : List Element) (lo hi : Int) : Prop where
  lo_cut : ∃ e ∈ es, lo = e.span.start ∨ lo = e.span.stop
  hi_cut : ∃ e ∈ es, hi = e.span.start ∨ hi = e.span.stop
  lt : lo < hi
  uncut : ∀ e ∈ es, (e.span.start ≤ lo ∨ hi ≤ e.span.start) ∧ (e.span.stop ≤ lo ∨ hi ≤ e.span.stop)
  covered : ∃ e ∈ es, e.covers lo hi = true

/-- The pieces of elements, in order. -/
def coveredPieces (es : List Element) : List (Int × Int) :=
  ((cutsOf es).zip (cutsOf es).tail).filter fun p => es.any (·.covers p.1 p.2)

section Pieces

variable {es : List Element}

/-- Between neighbouring cuts, no element starts or stops. -/
theorem uncut_of_mem {p : Int × Int} (hp : p ∈ (cutsOf es).zip (cutsOf es).tail) :
    p.1 < p.2 ∧ ∀ e ∈ es, (e.span.start ≤ p.1 ∨ p.2 ≤ e.span.start) ∧
      (e.span.stop ≤ p.1 ∨ p.2 ≤ e.span.stop) := by
  obtain ⟨hsorted, hcuts⟩ := cutsOf_spec es
  obtain ⟨-, -, hlt, hnone⟩ := (mem_zip_tail hsorted).mp hp
  exact ⟨hlt, fun e he => ⟨hnone _ ((hcuts _).mpr ⟨e, he, .inl rfl⟩),
    hnone _ ((hcuts _).mpr ⟨e, he, .inr rfl⟩)⟩⟩

theorem mem_coveredPieces {lo hi : Int} : (lo, hi) ∈ coveredPieces es ↔ IsPiece es lo hi := by
  obtain ⟨hsorted, hcuts⟩ := cutsOf_spec es
  rw [coveredPieces, List.mem_filter, List.any_eq_true]
  constructor
  · rintro ⟨hmem, hcovered⟩
    obtain ⟨hlt, huncut⟩ := uncut_of_mem hmem
    obtain ⟨hlo, hhi, -, -⟩ := (mem_zip_tail hsorted).mp hmem
    exact ⟨(hcuts _).mp hlo, (hcuts _).mp hhi, hlt, huncut, hcovered⟩
  · rintro ⟨hlo, hhi, hlt, huncut, hcovered⟩
    refine ⟨(mem_zip_tail hsorted).mpr ⟨(hcuts _).mpr hlo, (hcuts _).mpr hhi, hlt,
      fun t ht => ?_⟩, hcovered⟩
    obtain ⟨e, he, rfl | rfl⟩ := (hcuts t).mp ht
    · exact (huncut e he).1
    · exact (huncut e he).2

theorem ordered_coveredPieces (es : List Element) : (coveredPieces es).Pairwise (·.2 ≤ ·.1) :=
  (ordered_zip_tail (cutsOf_spec es).1).filter _

theorem length_coveredPieces_le (es : List Element) :
    (coveredPieces es).length ≤ 2 * es.length := by
  refine Nat.le_trans (List.length_filter_le _ _) ?_
  rw [List.length_zip]
  exact Nat.le_trans (Nat.min_le_left _ _) (length_cutsOf_le es)

/-- No piece begins before the elements do. -/
theorem start_le_of_coveredPieces {start : Int} (hpos : ∀ e ∈ es, 0 < e.span.length)
    (hstart : ∀ e ∈ es, start ≤ e.span.start) {p : Int × Int} (hp : p ∈ coveredPieces es) :
    start ≤ p.1 := by
  obtain ⟨e, he, hcut⟩ := (mem_coveredPieces.mp hp).lo_cut
  have hlength := hpos e he
  have hfirst := hstart e he
  unfold Span.stop at hcut
  omega

/-- The pieces together are the times of the elements. -/
theorem union_coveredPieces (es : List Element) (t : Int) :
    (∃ p ∈ coveredPieces es, p.1 < t ∧ t ≤ p.2) ↔
      ∃ e ∈ es, e.span.start < t ∧ t ≤ e.span.stop := by
  obtain ⟨hsorted, hcuts⟩ := cutsOf_spec es
  constructor
  · rintro ⟨p, hp, hlt, hle⟩
    obtain ⟨e, he, hcovers⟩ := (mem_coveredPieces.mp hp).covered
    rw [Element.covers_iff] at hcovers
    exact ⟨e, he, by omega⟩
  · rintro ⟨e, he, hlt, hle⟩
    obtain ⟨p, hp, hlt', hle'⟩ := exists_neighbours hsorted ((hcuts _).mpr ⟨e, he, .inl rfl⟩)
      ((hcuts _).mpr ⟨e, he, .inr rfl⟩) hlt hle
    refine ⟨p, List.mem_filter.mpr ⟨hp, List.any_eq_true.mpr ⟨e, he, ?_⟩⟩, hlt', hle'⟩
    -- The element neither starts nor stops inside the piece, and it shares `t` with it.
    have := (uncut_of_mem hp).2 e he
    rw [Element.covers_iff]
    omega

end Pieces

end StreamGauge
