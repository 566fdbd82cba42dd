import Mathlib.Logic.Function.Iterate
import StreamGauge.Proofs.Exec.Range

/-!
# The search behind a range

`searchTurn` is one turn of the search that `partitionPoint` does: of the indices that are left, it
keeps one half.

* A turn does not change what is found (`partitionPoint_searchTurn`), and it leaves at most half of
  the indices (`searchTurn_halves`). So the search is over after as many turns as halve the indices
  away (`searchTurns_eq`).
* Only indices that are left are asked for (`partitionPoint_congr`).
* Over a view in order of starts, the two searches of a range separate the elements that start in it
  from those before and behind it (`View.rangeOf_separates`).
-/

namespace StreamGauge

/-! ## Turns -/

/-- One turn of the search among the indices from the first number up to the second: the half that
is left. When none is left, nothing changes. -/
def searchTurn (p : Nat → Bool) (left : Nat × Nat) : Nat × Nat :=
  if left.1 < left.2 then
    let mid := left.1 + (left.2 - left.1) / 2
    if p mid then (mid + 1, left.2) else (left.1, mid)
  else left

variable {p q : Nat → Bool}

theorem partitionPoint_searchTurn (p : Nat → Bool) (left : Nat × Nat) :
    partitionPoint p (searchTurn p left).1 (searchTurn p left).2 =
      partitionPoint p left.1 left.2 := by
  conv => rhs; rw [partitionPoint]
  unfold searchTurn
  by_cases hlt : left.1 < left.2
  · simp only [if_pos hlt]
    split <;> rfl
  · rw [if_neg hlt, if_neg hlt, partitionPoint, if_neg hlt]

theorem searchTurn_le (p : Nat → Bool) {left : Nat × Nat} (h : left.1 ≤ left.2) :
    (searchTurn p left).1 ≤ (searchTurn p left).2 := by
  unfold searchTurn
  simp only
  split
  · split
    · simp only
      omega
    · simp only
      omega
  · exact h

theorem searchTurn_halves (p : Nat → Bool) (left : Nat × Nat) :
    (searchTurn p left).2 - (searchTurn p left).1 ≤ (left.2 - left.1) / 2 := by
  unfold searchTurn
  simp only
  split
  · split
    · simp only
      omega
    · simp only
      omega
  · omega

/-- The search ends: after enough turns to halve the indices away, none is left, and where they
were is what is found. -/
theorem searchTurns_eq (p : Nat → Bool) (turns : Nat) {left : Nat × Nat} (h : left.1 ≤ left.2)
    (hturns : left.2 - left.1 < twoTo turns) :
    (searchTurn p)^[turns] left =
      (partitionPoint p left.1 left.2, partitionPoint p left.1 left.2) := by
  induction turns generalizing left with
  | zero =>
    rw [twoTo_zero] at hturns
    have hend : left.1 = left.2 := by omega
    rw [Function.iterate_zero_apply, partitionPoint, if_neg (by omega)]
    exact Prod.ext rfl hend.symm
  | succ turns ih =>
    have hhalf := searchTurn_halves p left
    rw [twoTo_succ] at hturns
    rw [Function.iterate_succ_apply, ih (searchTurn_le p h) (by omega), partitionPoint_searchTurn]

/-- Only the indices that are searched are asked for. -/
theorem partitionPoint_congr (lo : Nat) {hi : Nat} (h : ∀ i, lo ≤ i → i < hi → p i = q i) :
    partitionPoint p lo hi = partitionPoint q lo hi := by
  fun_induction partitionPoint p lo hi with
  | case1 lo hi hlt mid hmid ih =>
    have hq : q mid = true := by rw [← h mid (by omega) (by omega), hmid]
    rw [ih fun i hlo hhi => h i (by omega) hhi]
    conv => rhs; rw [partitionPoint, if_pos hlt]
    exact (if_pos hq).symm
  | case2 lo hi hlt mid hmid ih =>
    have hq : ¬ q mid = true := by rwa [← h mid (by omega) (by omega)]
    rw [ih fun i hlo hhi => h i hlo (by omega)]
    conv => rhs; rw [partitionPoint, if_pos hlt]
    exact (if_neg hq).symm
  | case3 lo hi hlt => rw [partitionPoint, if_neg hlt]

/-! ## Views in order of starts -/

namespace View

/-- Every committed element has a span, and none starts before one in front of it. Elements may
start together and may overlap. -/
def StartsAscend (v : View) : Prop :=
  ∀ i j, i ≤ j → j < v.size → ∃ s t, v.span? i = some s ∧ v.span? j = some t ∧ s.start ≤ t.start

/-- Whether `p` says of each committed element if it starts before a time. -/
def TellsBefore (v : View) (time : Int) (p : Nat → Bool) : Prop :=
  ∀ i < v.size, ∀ s, v.span? i = some s → p i = decide (s.start < time)

variable {v : View}

namespace StartsAscend

theorem listed (h : v.StartsAscend) : v.Listed := by
  intro i hi
  obtain ⟨s, -, hs, -⟩ := h i i (Nat.le_refl i) hi
  exact ⟨s, hs⟩

theorem pairwise (h : v.StartsAscend) : v.elements.Pairwise (·.span.start ≤ ·.span.start) := by
  rw [List.pairwise_iff_getElem]
  intro i j hi hj hij
  obtain ⟨s, t, hs, ht, hle⟩ := h i j (Nat.le_of_lt hij) (by rwa [← h.listed.length_elements])
  rw [(h.listed.getElem_elements hi).1, Option.some.injEq] at hs
  rw [(h.listed.getElem_elements hj).1, Option.some.injEq] at ht
  rwa [hs, ht]

/-- The found index is behind exactly the elements that start earlier. -/
theorem lt_startIndex_iff (h : v.StartsAscend) (time : Int) {i : Nat} (hi : i < v.size) {s : Span}
    (hs : v.span? i = some s) : i < startIndex v.elements.toArray time ↔ s.start < time := by
  have hi' : i < v.elements.length := by rwa [h.listed.length_elements]
  have hspan := (h.listed.getElem_elements hi').1
  rw [hs, Option.some.injEq] at hspan
  rw [hspan]
  exact @startIndex_spec v.elements.toArray h.pairwise time i hi'

end StartsAscend

/-- The search for a time, turn by turn: it asks for nothing but the committed elements. -/
theorem TellsBefore.searchTurns (hv : v.Listed) {time : Int} (hp : v.TellsBefore time p)
    {turns : Nat} (hturns : v.size < twoTo turns) : (searchTurn p)^[turns] (0, v.size) =
      (startIndex v.elements.toArray time, startIndex v.elements.toArray time) := by
  have hsize : v.elements.toArray.size = v.size := hv.length_elements
  have hfound : partitionPoint p 0 v.size = startIndex v.elements.toArray time := by
    rw [startIndex, hsize]
    refine partitionPoint_congr 0 fun i _ hi => ?_
    have hi' : i < v.elements.length := by rwa [hv.length_elements]
    rw [hp i hi _ (hv.getElem_elements hi').1]
    exact (@startsBefore_eq v.elements.toArray time i hi').symm
  rw [← hfound]
  exact searchTurns_eq p turns (Nat.zero_le _) hturns

/-- The range of a view in order of starts. Its elements can be listed, and neither of the two found
indices is behind its end. In front of the first one are exactly the elements that start before
`start`, in front of the second one exactly those that start before `stop`; so, unless `stop` is
before `start`, the indices in between are those of the elements that start in `[start, stop)`.

Both searches end: after enough turns to halve the size away, no index is left. -/
theorem rangeOf_separates (h : v.StartsAscend) (start stop : Int) :
    ∃ es first last, v.elements? = some es ∧ rangeOf es start stop = (first, last) ∧
      first ≤ v.size ∧ last ≤ v.size ∧ (start ≤ stop → first ≤ last) ∧
      (∀ i < v.size, ∃ s, v.span? i = some s ∧
        (i < first ↔ s.start < start) ∧ (i < last ↔ s.start < stop) ∧
        (start ≤ stop → (first ≤ i ∧ i < last ↔ start ≤ s.start ∧ s.start < stop))) ∧
      ∀ turns, v.size < twoTo turns → ∀ p,
        (v.TellsBefore start p → (searchTurn p)^[turns] (0, v.size) = (first, first)) ∧
        (v.TellsBefore stop p → (searchTurn p)^[turns] (0, v.size) = (last, last)) := by
  have hsize : v.elements.toArray.size = v.size := h.listed.length_elements
  refine ⟨v.elements.toArray, _, _, h.listed.elements?_eq, rfl, ?_, ?_, fun hle => ?_,
    fun i hi => ?_, fun turns hturns p => ⟨fun hp => ?_, fun hp => ?_⟩⟩
  · rw [← hsize]
    exact startIndex_le _ start
  · rw [← hsize]
    exact startIndex_le _ stop
  · exact startIndex_mono h.pairwise hle
  · obtain ⟨s, hs⟩ := h.listed i hi
    have hfirst := h.lt_startIndex_iff start hi hs
    have hlast := h.lt_startIndex_iff stop hi hs
    refine ⟨s, hs, hfirst, hlast, fun _ => and_congr ?_ hlast⟩
    rw [← Nat.not_lt, hfirst, Int.not_lt]
  · exact hp.searchTurns h.listed hturns
  · exact hp.searchTurns h.listed hturns

end View

/-- A packed block of three elements, of which the first two take the same time. -/
def BlockedRegion.together : BlockedRegion where
  layout := ⟨.i64, .i8, 3, 3, .always⟩
  count := 3
  blocks := #[⟨0, 11, 3, true⟩]
  anchors := ⟨1, #[⟨0, 1⟩]⟩
  offsets := ⟨3, #[⟨0, 1⟩, ⟨0, 1⟩, ⟨1, 1⟩]⟩
  payload := .zeroed 11

theorem BlockedRegion.reachable_together : together.Reachable := by
  refine @Reachable.commitElement { together with count := 2, offsets := ⟨3, #[⟨0, 1⟩, ⟨0, 1⟩]⟩ }
    _ 2 ⟨1, 1⟩ (.ok ()) ?_ rfl
  refine @Reachable.commitElement { together with count := 1, offsets := ⟨3, #[⟨0, 1⟩]⟩ } _ 1
    ⟨0, 1⟩ (.ok ()) ?_ rfl
  refine @Reachable.commitElement { together with count := 0, offsets := ⟨3, #[]⟩ } _ 0
    ⟨0, 1⟩ (.ok ()) ?_ rfl
  refine @Reachable.commitBlock
    { together with count := 0, blocks := #[], anchors := ⟨1, #[]⟩, offsets := ⟨3, #[]⟩ } _ 0
    ⟨0, 1⟩ true (.ok ⟨0, 11, 3, true⟩) ?_ rfl
  exact @Reachable.allocate together.layout _ rfl

theorem View.span?_together : ∀ i < 3,
    (View.blocked .together).span? i = some ⟨if i = 2 then 1 else 0, 1⟩ := by
  decide

theorem View.startsAscend_together : (View.blocked .together).StartsAscend := by
  intro i j hij hj
  have hj' : j < 3 := hj
  refine ⟨_, _, span?_together i (by omega), span?_together j hj', ?_⟩
  simp only
  split <;> split <;> omega

/-- In a region that can be reached: elements that start together are on the same side of a found
index, also where the range begins with them. -/
theorem View.rangeOf_separates_of_together : (View.blocked .together).Reachable ∧
    (View.blocked .together).StartsAscend ∧
    ∃ es, (View.blocked .together).elements? = some es ∧ rangeOf es 0 1 = (0, 2) := by
  obtain ⟨es, first, last, hes, hrange, -, -, -, hspans, -⟩ :=
    View.rangeOf_separates View.startsAscend_together 0 1
  have hside : ∀ i < 3, (i < first ↔ (if i = 2 then 1 else 0 : Int) < 0) ∧
      (i < last ↔ (if i = 2 then 1 else 0 : Int) < 1) := by
    intro i hi
    obtain ⟨s, hs, hfirst, hlast, -⟩ := hspans i hi
    rw [span?_together i hi, Option.some.injEq] at hs
    subst hs
    exact ⟨hfirst, hlast⟩
  have hfirst : ¬ 0 < first := mt (hside 0 (by decide)).1.mp (by decide)
  have hone : 1 < last := (hside 1 (by decide)).2.mpr (by decide)
  have htwo : ¬ 2 < last := mt (hside 2 (by decide)).2.mp (by decide)
  have hends : first = 0 ∧ last = 2 := by omega
  rw [hends.1, hends.2] at hrange
  exact ⟨BlockedRegion.reachable_together, startsAscend_together, es, hes, hrange⟩

end StreamGauge
