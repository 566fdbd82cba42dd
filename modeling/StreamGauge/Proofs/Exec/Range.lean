import StreamGauge.Exec.Range
import StreamGauge.Proofs.Region.View

/-!
# Range search

* `partitionPoint_spec`: where the searched property holds of a prefix, the search ends behind it.
* `startIndex_spec`: the elements in front of the found index are those that start earlier.
* `elementsIn_eq_filter`: the elements of a range are those that start in it.

`extract_eq_filter` turns an index range into a filter; windows use it, too.
-/

namespace StreamGauge

theorem partitionPoint_le (p : Nat → Bool) {lo hi : Nat} (h : lo ≤ hi) :
    lo ≤ partitionPoint p lo hi ∧ partitionPoint p lo hi ≤ hi := by
  fun_induction partitionPoint p lo hi with
  | case1 lo hi hlt mid _ ih =>
    have := ih (by omega)
    omega
  | case2 lo hi hlt mid _ ih =>
    have := ih (by omega)
    omega
  | case3 lo hi hlt => omega

/-- Everything before the found index has the property, and nothing from it on. -/
theorem partitionPoint_spec {p : Nat → Bool} (lo : Nat) {hi : Nat}
    (hp : ∀ i j, i ≤ j → j < hi → p j = true → p i = true) :
    (∀ i, lo ≤ i → i < partitionPoint p lo hi → p i = true) ∧
      ∀ i, partitionPoint p lo hi ≤ i → i < hi → p i = false := by
  fun_induction partitionPoint p lo hi with
  | case1 lo hi hlt mid hmid ih =>
    obtain ⟨hbefore, hafter⟩ := ih hp
    refine ⟨fun i hi' hi => ?_, hafter⟩
    by_cases hle : i ≤ mid
    · exact hp i mid hle (by omega) hmid
    · exact hbefore i (by omega) hi
  | case2 lo hi hlt mid hmid ih =>
    obtain ⟨hbefore, hafter⟩ := ih fun i j hij hj => hp i j hij (by omega)
    refine ⟨hbefore, fun i hi hi' => ?_⟩
    by_cases hle : i < mid
    · exact hafter i hi hle
    · rw [← Bool.not_eq_true]
      intro hpi
      exact hmid (hp mid i (by omega) hi' hpi)
  | case3 lo hi hlt => exact ⟨fun i _ _ => by omega, fun i _ _ => by omega⟩

/-- An index range inside which a property holds, and outside which it does not, is a filter. -/
theorem extract_eq_filter {α : Type} {xs : Array α} {p : α → Bool} {lo hi : Nat} (hle : lo ≤ hi)
    (hbefore : ∀ i (h : i < xs.size), i < lo → p xs[i] = false)
    (hinside : ∀ i (h : i < xs.size), lo ≤ i → i < hi → p xs[i] = true)
    (hafter : ∀ i (h : i < xs.size), hi ≤ i → p xs[i] = false) :
    (xs.extract lo hi).toList = xs.toList.filter p := by
  have hsplit : xs.toList = xs.toList.take lo ++
      ((xs.toList.take hi).drop lo ++ xs.toList.drop hi) := by
    have htake : xs.toList.take lo = (xs.toList.take hi).take lo := by
      rw [List.take_take, Nat.min_eq_left hle]
    rw [← List.append_assoc, htake, List.take_append_drop, List.take_append_drop]
  have hnone : ∀ (ys : List α), (∀ y ∈ ys, p y = false) → ys.filter p = [] := by
    intro ys hys
    rw [List.filter_eq_nil_iff]
    intro y hy
    rw [hys y hy]
    exact Bool.false_ne_true
  have h1 : (xs.toList.take lo).filter p = [] := hnone _ fun y hy => by
    obtain ⟨i, hi', rfl⟩ := List.mem_iff_getElem.mp hy
    simp only [List.length_take, Array.length_toList] at hi'
    rw [List.getElem_take, Array.getElem_toList]
    exact hbefore i (by omega) (by omega)
  have h2 : ((xs.toList.take hi).drop lo).filter p = (xs.toList.take hi).drop lo := by
    rw [List.filter_eq_self]
    intro y hy
    obtain ⟨i, hi', rfl⟩ := List.mem_iff_getElem.mp hy
    simp only [List.length_drop, List.length_take, Array.length_toList] at hi'
    rw [List.getElem_drop, List.getElem_take, Array.getElem_toList]
    exact hinside (lo + i) (by omega) (by omega) (by omega)
  have h3 : (xs.toList.drop hi).filter p = [] := hnone _ fun y hy => by
    obtain ⟨i, hi', rfl⟩ := List.mem_iff_getElem.mp hy
    simp only [List.length_drop, Array.length_toList] at hi'
    rw [List.getElem_drop, Array.getElem_toList]
    exact hafter (hi + i) (by omega) (by omega)
  conv => rhs; rw [hsplit, List.filter_append, List.filter_append, h1, h2, h3]
  rw [List.nil_append, List.append_nil, Array.toList_extract, List.extract_eq_drop_take']

section

variable {es : Array Element}

theorem startsBefore_eq {time : Int} {i : Nat} (hi : i < es.size) :
    startsBefore es time i = decide (es[i].span.start < time) := by
  unfold startsBefore
  rw [Array.getElem?_eq_getElem hi]

theorem startIndex_le (es : Array Element) (time : Int) : startIndex es time ≤ es.size :=
  (partitionPoint_le _ (Nat.zero_le _)).2

/-- If starts do not decrease, the found index separates the elements that start before a time
from the others. -/
theorem startIndex_spec (hs : es.toList.Pairwise (·.span.start ≤ ·.span.start)) (time : Int)
    {i : Nat} (hi : i < es.size) : i < startIndex es time ↔ es[i].span.start < time := by
  have hprefix : ∀ i j, i ≤ j → j < es.size → startsBefore es time j = true →
      startsBefore es time i = true := by
    intro i j hij hj hbefore
    rw [startsBefore_eq hj, decide_eq_true_eq] at hbefore
    rw [startsBefore_eq (by omega), decide_eq_true_eq]
    rcases Nat.lt_or_eq_of_le hij with hlt | rfl
    · have := List.pairwise_iff_getElem.mp hs i j (by simp; omega) (by simpa using hj) hlt
      simp only [Array.getElem_toList] at this
      omega
    · exact hbefore
  obtain ⟨hbefore, hafter⟩ := partitionPoint_spec 0 hprefix
  constructor
  · intro hlt
    have := hbefore i (Nat.zero_le _) hlt
    rwa [startsBefore_eq hi, decide_eq_true_eq] at this
  · intro hlt
    rcases Nat.lt_or_ge i (startIndex es time) with h | hge
    · exact h
    · have := hafter i hge hi
      rw [startsBefore_eq hi, decide_eq_false_iff_not] at this
      exact absurd hlt this

/-- Whether an element takes part in a run over `[start, stop)`. -/
def Element.startsIn (start stop : Int) (e : Element) : Bool :=
  decide (start ≤ e.span.start) && decide (e.span.start < stop)

theorem startIndex_mono (hs : es.toList.Pairwise (·.span.start ≤ ·.span.start)) {t t' : Int}
    (h : t ≤ t') : startIndex es t ≤ startIndex es t' := by
  rcases Nat.lt_or_ge (startIndex es t') (startIndex es t) with hlt | hge
  · have hi : startIndex es t' < es.size := Nat.lt_of_lt_of_le hlt (startIndex_le es t)
    have h1 := (startIndex_spec hs t hi).mp hlt
    have h2 := (startIndex_spec hs t' hi).mpr (by omega)
    omega
  · exact hge

/-- The elements of a range, in a list in order of starts, are those that start in it. -/
theorem elementsIn_eq_filter (hs : es.toList.Pairwise (·.span.start ≤ ·.span.start))
    {start stop : Int} (h : start ≤ stop) :
    elementsIn es start stop = es.toList.filter (Element.startsIn start stop) := by
  refine extract_eq_filter (startIndex_mono hs h) (fun i hi hlt => ?_) (fun i hi hge hlt => ?_)
    fun i hi hge => ?_
  · have := (startIndex_spec hs start hi).mp hlt
    simp only [Element.startsIn, Bool.and_eq_false_iff, decide_eq_false_iff_not]
    omega
  · have h1 := (startIndex_spec hs stop hi).mp hlt
    have h2 := mt (startIndex_spec hs start hi).mpr (by omega)
    simp only [Element.startsIn, Bool.and_eq_true, decide_eq_true_eq]
    omega
  · have := mt (startIndex_spec hs stop hi).mpr (by omega)
    simp only [Element.startsIn, Bool.and_eq_false_iff, decide_eq_false_iff_not]
    omega

end

namespace InOrder

variable {es : List Element}

theorem starts_le (h : InOrder es) : es.Pairwise (·.span.start ≤ ·.span.start) :=
  h.starts.imp Int.le_of_lt

theorem elementsIn_eq (h : InOrder es) {start stop : Int} (hle : start ≤ stop) :
    elementsIn es.toArray start stop = es.filter (Element.startsIn start stop) :=
  @elementsIn_eq_filter es.toArray h.starts_le _ _ hle

end InOrder

end StreamGauge
