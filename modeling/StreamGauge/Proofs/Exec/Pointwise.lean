import StreamGauge.Exec.Pointwise
import StreamGauge.Proofs.Exec.Emission

/-!
# Select and filter

The emissions of `select` and `filter` lie on the spans of their source (`selectOne_isOn`,
`filterOne_isOn`), so they are orderly over elements in order (`orderly_select`,
`orderly_filter`).
-/

namespace StreamGauge

/-- What `select` does with an element. -/
def selectOne (expr : Expr) (e : Element) : Emission :=
  .ofResult (.during e.span) do expr.compute [← e.read]

theorem toList_select (expr : Expr) (es : List Element) :
    (select expr es).toList = es.map (selectOne expr) := Sequence.toList_mapList ..

theorem toList_filter (predicate : Expr) (es : List Element) :
    (filter predicate es).toList = es.map (filterOne predicate) := Sequence.toList_mapList ..

theorem selectOne_isOn (expr : Expr) (e : Element) : (selectOne expr e).IsOn e.span :=
  Emission.ofResult_isOn ..

theorem filterOne_isOn (predicate : Expr) (e : Element) :
    (filterOne predicate e).IsOn e.span := by
  unfold filterOne
  split
  · trivial
  · split
    · trivial
    · split
      · rfl
      · rfl

section

variable {es : List Element} {start : Int} {expr : Expr}

theorem orderly_select (h : Readable start es) (hexpr : expr.checkSlots 1 = .ok ()) :
    Orderly start es.length (select expr es).toList := by
  rw [toList_select]
  refine orderly_map (fun e _ => selectOne_isOn expr e) h.inOrder.length_pos h.inOrder.ordered
    h.start_le fun e he x hx => ?_
  obtain ⟨v, hv⟩ := h.value e he
  have herror := Emission.ofResult_eq_halt hx
  rw [hv] at herror
  exact @Expr.compute_error expr [v] hexpr x herror

theorem orderly_filter (h : Readable start es) (hexpr : expr.checkSlots 1 = .ok ()) :
    Orderly start es.length (filter expr es).toList := by
  rw [toList_filter]
  refine orderly_map (fun e _ => filterOne_isOn expr e) h.inOrder.length_pos h.inOrder.ordered
    h.start_le fun e he x hx => ?_
  obtain ⟨v, hv⟩ := h.value e he
  simp only [filterOne, hv] at hx
  cases hcompute : expr.compute [v] with
  | error y =>
    rw [hcompute] at hx
    cases hx
    exact @Expr.compute_error expr [v] hexpr x hcompute
  | ok keep =>
    simp only [hcompute] at hx
    split at hx <;> cases hx

end

end StreamGauge
