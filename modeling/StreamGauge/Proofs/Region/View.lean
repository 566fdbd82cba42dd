import StreamGauge.Proofs.Region.BlockSum
import StreamGauge.Proofs.Region.Plain
import StreamGauge.Region.View

/-!
# What a view shows

`View.elements` lists the elements of a view; if they all have a span, as in a valid view, each
committed element is there (`View.Listed.elements?_eq`). `View.WellFormed` says of neighbouring
spans that they do not overlap and are not empty, `InOrder` says it of all pairs of a list of
elements.

`View.NoOverflow` says that the values and the sums of whole blocks are 64-bit integers. It is a
condition on the stored numbers alone: a valid region has no other reason not to give them
(`BlockedRegion.Valid.value?_packed`, `Valid.value?_raw`, `Valid.blockSum?_packed`).
-/

namespace StreamGauge

/-- Where every element has a result, all results are there. -/
theorem mapM_eq_some {α β : Type} {f : α → Option β} {xs : List α}
    (h : ∀ x ∈ xs, (f x).isSome) : xs.mapM f = some (xs.filterMap f) := by
  induction xs with
  | nil => rfl
  | cons x xs ih =>
    obtain ⟨y, hy⟩ := Option.isSome_iff_exists.mp (h x List.mem_cons_self)
    rw [List.mapM_cons, hy, ih fun x' hx' => h x' (List.mem_cons_of_mem _ hx'),
      List.filterMap_cons_some hy]
    rfl

/-- Elements whose spans are not empty and follow each other. -/
structure InOrder (es : List Element) : Prop where
  length_pos : ∀ e ∈ es, 0 < e.span.length
  ordered : es.Pairwise (·.span.stop ≤ ·.span.start)

namespace InOrder

theorem sublist {es es' : List Element} (h : InOrder es) (hs : es'.Sublist es) : InOrder es' :=
  ⟨fun e he => h.length_pos e (hs.mem he), h.ordered.sublist hs⟩

theorem start_lt_stop {es : List Element} (h : InOrder es) {e : Element} (he : e ∈ es) :
    e.span.start < e.span.stop := by
  have := h.length_pos e he
  unfold Span.stop
  omega

theorem tail {e : Element} {es : List Element} (h : InOrder (e :: es)) : InOrder es :=
  h.sublist (List.sublist_cons_self e es)

theorem head_stop_le {e : Element} {es : List Element} (h : InOrder (e :: es)) :
    ∀ e' ∈ es, e.span.stop ≤ e'.span.start := (List.pairwise_cons.mp h.ordered).1

/-- Starts increase. -/
theorem starts {es : List Element} (h : InOrder es) :
    es.Pairwise (·.span.start < ·.span.start) :=
  h.ordered.imp_of_mem fun ha _ hab => Int.lt_of_lt_of_le (h.start_lt_stop ha) hab

/-- Stops increase. -/
theorem stops {es : List Element} (h : InOrder es) : es.Pairwise (·.span.stop < ·.span.stop) :=
  h.ordered.imp_of_mem fun _ hb hab => Int.lt_of_le_of_lt hab (h.start_lt_stop hb)

end InOrder

/-- The sums that are computed of the stored numbers are 64-bit integers: each value, and the sum
of each block of which all elements are committed. -/
structure BlockedRegion.NoOverflow (r : BlockedRegion) : Prop where
  value : ∀ i < r.count, (r.value? i).isSome
  blockSum : ∀ k, 0 < r.layout.elementsIn k →
    k * r.layout.blockSize + r.layout.elementsIn k ≤ r.count → (r.blockSum? k).isSome

namespace View

/-- The views of the regions that the operations lead to. -/
def Reachable : View → Prop
  | plain r => r.Reachable
  | blocked r => r.Reachable

/-- What every reachable view keeps. -/
def Valid : View → Prop
  | plain r => r.Valid
  | blocked r => r.Valid

theorem Reachable.valid {v : View} (h : v.Reachable) : v.Valid := by
  cases v with
  | plain r => exact PlainRegion.Reachable.valid h
  | blocked r => exact BlockedRegion.Reachable.valid h

/-- Every element takes some time, and none begins before the one in front of it has ended. -/
structure WellFormed (v : View) : Prop where
  length_pos : ∀ i < v.size, ∀ s, v.span? i = some s → 0 < s.length
  ordered : ∀ i, i + 1 < v.size → ∀ s t, v.span? i = some s → v.span? (i + 1) = some t →
    s.stop ≤ t.start

/-- No value and no sum of a whole block leaves 64 bits. -/
def NoOverflow : View → Prop
  | plain _ => True
  | blocked r => r.NoOverflow

/-- Every committed element has a span. -/
def Listed (v : View) : Prop := ∀ i < v.size, ∃ s, v.span? i = some s

/-- Element `i`. -/
def element? (v : View) (i : Nat) : Option Element := (v.span? i).map (⟨·, v.value? i⟩)

/-- The committed elements. -/
def elements (v : View) : List Element := (List.range v.size).filterMap v.element?

/-- The blocks that the elements lie in. -/
def blocks? : View → Option BlockedRegion
  | plain _ => none
  | blocked r => some r

variable {v : View}

theorem Valid.span?_eq_some (h : v.Valid) {i : Nat} (hi : i < v.size) :
    ∃ s, v.span? i = some s := by
  cases v with
  | plain r => exact PlainRegion.Valid.span?_eq_some h hi
  | blocked r => exact BlockedRegion.Valid.span?_eq_some h hi

theorem Valid.listed (h : v.Valid) : v.Listed := fun _ hi => h.span?_eq_some hi

namespace Listed

theorem element?_eq_some (h : v.Listed) {i : Nat} (hi : i < v.size) :
    ∃ e, v.element? i = some e := by
  obtain ⟨s, hs⟩ := h i hi
  exact ⟨⟨s, v.value? i⟩, by rw [element?, hs]; rfl⟩

theorem elements?_eq (h : v.Listed) : v.elements? = some v.elements.toArray := by
  have hmap : (List.range v.size).mapM v.element? = some v.elements :=
    mapM_eq_some fun i hi => by
      obtain ⟨e, he⟩ := h.element?_eq_some (List.mem_range.mp hi)
      rw [he]
      rfl
  unfold elements?
  rw [Array.mapM_eq_mapM_toList, Array.toList_range]
  exact (congrArg (Option.map List.toArray) hmap)

theorem getElem?_elements (h : v.Listed) (i : Nat) :
    v.elements[i]? = if i < v.size then v.element? i else none := by
  have key : ∀ n ≤ v.size, ((List.range n).filterMap v.element?).length = n ∧
      ((List.range n).filterMap v.element?)[i]? = if i < n then v.element? i else none := by
    intro n hn
    induction n with
    | zero => simp
    | succ n ih =>
      obtain ⟨hlen, hget⟩ := ih (by omega)
      obtain ⟨e, he⟩ := h.element?_eq_some (i := n) (by omega)
      rw [List.range_succ, List.filterMap_append, List.filterMap_cons_some he, List.filterMap_nil]
      refine ⟨by simp [hlen], ?_⟩
      rw [List.getElem?_append, hlen, hget]
      by_cases hi : i < n
      · rw [if_pos hi, if_pos hi, if_pos (by omega)]
      · by_cases hin : i = n
        · subst hin
          rw [if_neg hi, if_pos (by omega), Nat.sub_self, he]
          rfl
        · rw [if_neg hi, if_neg (by omega), List.getElem?_eq_none (by simp; omega)]
  exact (key v.size (Nat.le_refl _)).2

theorem length_elements (h : v.Listed) : v.elements.length = v.size := by
  have hget := h.getElem?_elements
  have hle : v.elements.length ≤ v.size := by
    have := hget v.size
    rw [if_neg (Nat.lt_irrefl _), List.getElem?_eq_none_iff] at this
    exact this
  rcases Nat.lt_or_ge v.elements.length v.size with hlt | hge
  · obtain ⟨e, he⟩ := h.element?_eq_some hlt
    have := hget v.elements.length
    rw [if_pos hlt, he, List.getElem?_eq_none (Nat.le_refl _)] at this
    cases this
  · omega

theorem getElem_elements (h : v.Listed) {i : Nat} (hi : i < v.elements.length) :
    v.span? i = some v.elements[i].span ∧ v.value? i = v.elements[i].value? := by
  have hget := h.getElem?_elements i
  rw [List.getElem?_eq_getElem hi, if_pos (by rwa [h.length_elements] at hi)] at hget
  obtain ⟨s, hs, he⟩ := Option.map_eq_some_iff.mp hget.symm
  rw [← he]
  exact ⟨hs, rfl⟩

end Listed

theorem elements?_eq (h : v.Valid) : v.elements? = some v.elements.toArray := h.listed.elements?_eq

theorem getElem?_elements (h : v.Valid) (i : Nat) :
    v.elements[i]? = if i < v.size then v.element? i else none :=
  h.listed.getElem?_elements i

theorem length_elements (h : v.Valid) : v.elements.length = v.size := h.listed.length_elements

theorem getElem_elements (h : v.Valid) {i : Nat} (hi : i < v.elements.length) :
    v.span? i = some v.elements[i].span ∧ v.value? i = v.elements[i].value? :=
  h.listed.getElem_elements hi

/-- Neighbours in order are all in order. -/
theorem WellFormed.inOrder (hwf : v.WellFormed) (h : v.Valid) : InOrder v.elements := by
  have hlen := length_elements h
  have hpos : ∀ i (hi : i < v.elements.length), 0 < v.elements[i].span.length := fun i hi =>
    hwf.length_pos i (by omega) _ (getElem_elements h hi).1
  refine ⟨fun e he => ?_, ?_⟩
  · obtain ⟨i, hi, rfl⟩ := List.mem_iff_getElem.mp he
    exact hpos i hi
  · rw [List.pairwise_iff_getElem]
    intro i j hi hj hij
    induction j with
    | zero => omega
    | succ j ih =>
      have hnext := hwf.ordered j (by omega) _ _ (getElem_elements h (by omega)).1
        (getElem_elements h hj).1
      rcases Nat.lt_succ_iff_lt_or_eq.mp hij with hlt | rfl
      · have hstop := ih (by omega) hlt
        have hj := hpos j (by omega)
        unfold Span.stop at hstop hnext ⊢
        omega
      · exact hnext

theorem NoOverflow.value?_isSome (h : v.Valid) (hno : v.NoOverflow) :
    ∀ e ∈ v.elements, e.value?.isSome := by
  intro e he
  obtain ⟨i, hi, rfl⟩ := List.mem_iff_getElem.mp he
  rw [← (getElem_elements h hi).2]
  rw [length_elements h] at hi
  cases v with
  | plain r =>
    obtain ⟨x, hx⟩ := PlainRegion.Valid.value?_eq_some h hi
    change (r.value? i).isSome
    rw [hx]
    rfl
  | blocked r =>
    change ((r.value? i).map Value.int).isSome
    rw [Option.isSome_map]
    exact hno.value i hi

end View

namespace PlainRegion

/-- The committed elements. -/
def elements (r : PlainRegion) : List Element := (View.plain r).elements

variable {r : PlainRegion}

theorem Valid.wellFormed (h : r.Valid) : (View.plain r).WellFormed where
  length_pos i _ s hs :=
    h.spans.length_pos s (by
      rw [Array.mem_toList_iff]
      exact Array.mem_of_getElem? hs)
  ordered i _ s t hs ht := by
    have hs' : r.log.spans.toList[i]? = some s := by rw [Array.getElem?_toList]; exact hs
    have ht' : r.log.spans.toList[i + 1]? = some t := by rw [Array.getElem?_toList]; exact ht
    obtain ⟨hi, rfl⟩ := List.getElem?_eq_some_iff.mp hs'
    obtain ⟨hj, rfl⟩ := List.getElem?_eq_some_iff.mp ht'
    exact List.pairwise_iff_getElem.mp h.spans.ordered i (i + 1) hi hj (Nat.lt_succ_self i)

/-- A recorded element follows the others, with its value as the region keeps it. -/
theorem elements_record (h : r.Valid) (room : r.count < r.capacity) {span : Span}
    (hstart : r.stop ≤ span.start) (hlength : 0 < span.length) (v : Value) :
    (r.record span v).elements = r.elements ++ [⟨span, some (r.kind.convert v)⟩] := by
  have h' : (View.plain (r.record span v)).Valid := h.record room hstart hlength
  have hsize : (View.plain r).elements.length = r.count := View.length_elements (v := .plain r) h
  have hsize' : (View.plain (r.record span v)).size = r.count + 1 := rfl
  apply List.ext_getElem?
  intro i
  unfold elements
  rw [View.getElem?_elements h', hsize', List.getElem?_append, hsize,
    View.getElem?_elements (v := .plain r) h]
  change (if i < r.count + 1 then
    ((r.record span v).span? i).map (⟨·, (r.record span v).value? i⟩) else none) =
      if i < r.count then if i < r.count then (r.span? i).map (⟨·, r.value? i⟩) else none
      else [(⟨span, some (r.kind.convert v)⟩ : Element)][i - r.count]?
  by_cases hi : i ≤ r.count
  · rw [if_pos (by omega), span?_record _ _ h, value?_record _ _ h room hi]
    by_cases hcount : i = r.count
    · rw [if_pos hcount, if_pos hcount, if_neg (by omega), hcount, Nat.sub_self]
      rfl
    · rw [if_neg hcount, if_neg hcount, if_pos (by omega), if_pos (by omega)]
  · rw [if_neg (by omega), if_neg (by omega), List.getElem?_eq_none (by simp; omega)]

end PlainRegion

/-! ## A packed pair

The smallest region where the sum of a block is not the sum of what is stored: a base that two
elements share. -/

namespace BlockedRegion

/-- A packed block of two elements, one after the other, both zero. -/
def zeroPair : BlockedRegion where
  layout := ⟨.i64, .i8, 2, 2, .always⟩
  count := 2
  blocks := #[⟨0, 10, 2, true⟩]
  anchors := ⟨1, #[⟨0, 1⟩]⟩
  offsets := ⟨2, #[⟨0, 1⟩, ⟨1, 1⟩]⟩
  payload := .zeroed 10

/-- With bytes of the payload replaced. -/
def put (r : BlockedRegion) (offset : Nat) (bytes : List UInt8) : BlockedRegion :=
  { r with payload := r.payload.put offset bytes }

/-- The same block with a base, and a delta for the second element. -/
def pair (base delta : Int64) : BlockedRegion :=
  (zeroPair.put 0 (Kind.i64.encode (.int base))).put 9 (Kind.i8.encode (.int delta))

theorem reachable_zeroPair : zeroPair.Reachable := by
  refine @Reachable.commitElement { zeroPair with count := 1, offsets := ⟨2, #[⟨0, 1⟩]⟩ } _ 1
    ⟨1, 1⟩ (.ok ()) ?_ rfl
  refine @Reachable.commitElement { zeroPair with count := 0, offsets := ⟨2, #[]⟩ } _ 0
    ⟨0, 1⟩ (.ok ()) ?_ rfl
  refine @Reachable.commitBlock
    { zeroPair with count := 0, blocks := #[], anchors := ⟨1, #[]⟩, offsets := ⟨2, #[]⟩ } _ 0
    ⟨0, 1⟩ true (.ok ⟨0, 10, 2, true⟩) ?_ rfl
  exact @Reachable.allocate zeroPair.layout _ rfl

theorem Reachable.put {r : BlockedRegion} (hr : r.Reachable) {offset : Nat} {bytes : List UInt8}
    (hfits : offset + bytes.length ≤ r.payload.size) : (r.put offset bytes).Reachable :=
  hr.write (if_pos hfits)

theorem reachable_pair (base delta : Int64) : (pair base delta).Reachable := by
  refine (reachable_zeroPair.put ?_).put ?_
  · rw [Kind.length_encode]
    decide
  · rw [Kind.length_encode, BlockedRegion.put, Bytes.size_put]
    decide

end BlockedRegion

theorem View.wellFormed_pair (base delta : Int64) :
    (View.blocked (.pair base delta)).WellFormed := by
  have hspan : ∀ i < 2, (View.blocked (.pair base delta)).span? i = some ⟨i, 1⟩ := by
    simp only [span?, BlockedRegion.span?, BlockedRegion.pair, BlockedRegion.put]
    decide
  refine ⟨fun i hi s hs => ?_, fun i hi s t hs ht => ?_⟩
  · rw [hspan i hi, Option.some.injEq] at hs
    subst hs
    exact Int.one_pos
  · rw [hspan i (Nat.lt_of_succ_lt hi), Option.some.injEq] at hs
    rw [hspan (i + 1) hi, Option.some.injEq] at ht
    subst hs ht
    exact Int.le_refl _

end StreamGauge
