import StreamGauge.Proofs.Exec.Pipeline

/-!
# Fusing selects

A select over a select is one select, of an expression that has the first one, cast to the kind of
the region between, in the place of its input.

- **Substitution** (`Expr.subst`): the value of `e.subst arg` is that of `e` where slot 0 holds the
  value of `arg` (`eval_subst`). It reads no slot that neither of them reads (`ReadsBelow.subst`).
- **The region between** (`PipelineStage.rows_of_feed`): where a nested stage ends well, what the
  operator over it reads is all that the stage has made, as the kind of the region keeps it.
- **The run** (`run_fused`): where a select over a select ends well, so does the fused one, with the
  same output. The converse fails where the second expression does not read its input: the first
  select may divide by zero, and the fused one has nothing to divide.
-/

namespace StreamGauge

/-! ## Substitution -/

namespace Expr

/-- The expression with `arg` in the place of slot 0. -/
def subst : Expr → Expr → Expr
  | input 0, arg => arg
  | input (slot + 1), _ => input (slot + 1)
  | const v, _ => const v
  | binary op lhs rhs, arg => binary op (lhs.subst arg) (rhs.subst arg)
  | not e, arg => not (e.subst arg)
  | cast kind e, arg => cast kind (e.subst arg)

variable {e arg : Expr}

theorem eval_subst {v w : Value} {rest : List Value} (h : arg.eval (v :: rest) = .ok w) :
    (e.subst arg).eval (v :: rest) = e.eval (w :: rest) := by
  induction e with
  | input slot =>
    cases slot with
    | zero => exact h
    | succ slot => rfl
  | const v => rfl
  | binary op lhs rhs ihl ihr => rw [subst, eval, eval, ihl, ihr]
  | not e ih => rw [subst, eval, eval, ih]
  | cast kind e ih => rw [subst, eval, eval, ih]

theorem ReadsBelow.subst {n : Nat} (he : e.ReadsBelow n) (harg : arg.ReadsBelow n) :
    (e.subst arg).ReadsBelow n := by
  induction e with
  | input slot =>
    cases slot with
    | zero => exact harg
    | succ slot => exact he
  | const v => trivial
  | binary op lhs rhs ihl ihr => exact ⟨ihl he.1, ihr he.2⟩
  | not e ih => exact ih he
  | cast kind e ih => exact ih he

theorem eval_of_compute {slots : List Value} {v : Value} (h : e.compute slots = .ok v) :
    e.eval slots = .ok v := by
  unfold compute at h
  cases heval : e.eval slots with
  | error x =>
    rw [heval] at h
    cases h
  | ok w =>
    rw [heval] at h
    cases h
    rfl

/-- In a run, an argument with a cast to a kind is its value as the kind keeps it. -/
theorem compute_subst_cast {kind : Kind} {v w : Value} (h : arg.compute [v] = .ok w) :
    (e.subst (.cast kind arg)).compute [v] = e.compute [kind.convert w] := by
  have hcast : (cast kind arg).eval [v] = .ok (kind.convert w) := by
    rw [eval, eval_of_compute h]
    rfl
  rw [compute, compute, eval_subst hcast]

end Expr

/-! ## The region between -/

section

variable {inputs : List View} {start stop : Int} {v : View} {source : Source}

namespace PipelineStage

variable {s : PipelineStage}

/-- A stage that runs to its end has made something, and that is what the region has taken. -/
theorem rows_of_play {r r' : PlainRegion} {es : List Element} (h : r.Valid)
    (hplay : r.play (.mapList s.emit es) = (r', .ok ())) :
    ∃ made, s.rows es = .ok made ∧ r.Extends r' (made.map (·.storedAs r.kind)) := by
  induction es generalizing r with
  | nil =>
    cases hplay
    exact ⟨[], rfl, .refl h⟩
  | cons e es ih =>
    rw [Sequence.mapList, PlainRegion.play] at hplay
    rcases h.accept_cases (s.emit e) with ⟨r₁, haccept, hext⟩ | ⟨x, haccept⟩
    · rw [haccept] at hplay
      obtain ⟨made, hmade, hrest⟩ := ih hext.valid hplay
      rw [hext.kind] at hrest
      rcases s.make_cases e with ⟨x, -, hemit⟩ | ⟨hmake, hemit⟩ | ⟨v, hmake, hemit⟩
      · rw [hemit] at haccept
        cases haccept
      · rw [hemit] at hext
        exact ⟨made, by rw [rows_cons_of_ok hmake, hmade]; rfl, hext.trans hrest⟩
      · rw [hemit] at hext
        exact ⟨⟨e.span, some v⟩ :: made, by rw [rows_cons_of_ok hmake, hmade]; rfl,
          hext.trans hrest⟩
    · rw [haccept] at hplay
      cases hplay

/-- Where a nested stage ends well, its region shows all that it has made. -/
theorem rows_of_feed {kind : Kind} {f : Feed} (hsource : source.feed inputs start stop = .ok v.feed)
    (hv : v.Valid) (hwf : v.WellFormed) (hle : start ≤ stop)
    (hkind : (s.query source).outputKind? (inputs.map (·.kind)) = some kind)
    (hfeed : Source.feed inputs start stop (.query (s.query source)) = .ok f) :
    ∃ made, ∃ w : View, s.rows (v.elementsIn start stop) = .ok made ∧ f = w.feed ∧ w.Valid ∧
      w.WellFormed ∧ w.elementsIn start stop = made.map (·.storedAs kind) := by
  rw [Source.feed_query, hkind] at hfeed
  obtain ⟨n, -, hfeed⟩ := eq_ok_of_bind hfeed
  obtain ⟨r, hscratch, hfeed⟩ := eq_ok_of_bind hfeed
  obtain ⟨⟨⟩, hended, hfeed⟩ := eq_ok_of_bind hfeed
  obtain ⟨-, rfl⟩ := scratch_eq_ok_iff.mp hscratch
  rw [s.run_query hsource hv hwf hle] at hended hfeed
  have hempty := PlainRegion.valid_allocate kind n start
  obtain ⟨made, hmade, hext⟩ := rows_of_play hempty (Prod.ext rfl hended)
  rw [View.ofView_eq (v := .plain _) hext.valid, Except.ok.injEq] at hfeed
  exact ⟨made, .plain _, hmade, hfeed.symm, hext.valid, hext.valid.wellFormed,
    elementsIn_of_rows (fun e he => (List.mem_filter.mp he).2) hmade hext.elements⟩

end PipelineStage

/-! ## Emissions -/

section

variable {expr expr' : Expr} {output output' : Kind} {es made : List Element} {e : Element}

theorem PipelineStage.make_select {one : Option Element}
    (h : (PipelineStage.select expr output).make e = .ok one) :
    ∃ x y, e.value? = some x ∧ expr.compute [x] = .ok y ∧ one = some ⟨e.span, some y⟩ := by
  cases hresult : (PipelineStage.select expr output).result e with
  | error x => cases h.symm.trans (of_result_error hresult).1
  | ok y =>
    obtain ⟨x, hx, hcompute⟩ := exists_value_of_result hresult
    cases h.symm.trans (select_of_result hresult).1
    exact ⟨x, y, hx, hcompute, rfl⟩

/-- What a select emits for elements made by another select, as the region between keeps them, is
what the fused select emits for the elements of which they were made. -/
theorem mapList_selectOne_subst (h : (PipelineStage.select expr output).rows es = .ok made) :
    Sequence.mapList (selectOne expr') (made.map (·.storedAs output)) =
      .mapList (selectOne (expr'.subst (.cast output expr))) es := by
  induction es generalizing made with
  | nil =>
    cases h
    rfl
  | cons e es ih =>
    cases hmake : (PipelineStage.select expr output).make e with
    | error x =>
      rw [PipelineStage.rows_cons_of_error hmake] at h
      cases h
    | ok one =>
      rw [PipelineStage.rows_cons_of_ok hmake] at h
      obtain ⟨more, hmore, rfl⟩ := eq_ok_of_map h
      obtain ⟨x, y, hx, hy, rfl⟩ := PipelineStage.make_select hmake
      have hone : selectOne expr' ⟨e.span, some (output.convert y)⟩ =
          selectOne (expr'.subst (.cast output expr)) e := by
        simp only [selectOne, Element.read, hx, bind, Except.bind, Expr.compute_subst_cast hy]
      change Sequence.cons (selectOne expr' ⟨e.span, some (output.convert y)⟩)
        (fun _ => .mapList (selectOne expr') (more.map (·.storedAs output))) = _
      rw [hone, ih hmore, Sequence.mapList]

/-! ## The run -/

/-- Over a source that has a view, a select over a select whose first run ends well does what the
fused select does, however that ends. -/
theorem run_select_subst (hsource : source.feed inputs start stop = .ok v.feed) (hv : v.Valid)
    (hwf : v.WellFormed) (hle : start ≤ stop) {f : Feed}
    (hfeed : Source.feed inputs start stop (.query (.select source expr output)) = .ok f)
    (out : PlainRegion) :
    (Query.select source (expr'.subst (.cast output expr)) output').run inputs start stop out =
      (Query.select (.query (.select source expr output)) expr' output').run inputs start stop
        out := by
  obtain ⟨made, w, hmade, rfl, hw, hwwf, helements⟩ :=
    @PipelineStage.rows_of_feed inputs start stop v source (.select expr output) output f hsource
      hv hwf hle rfl hfeed
  have hfused := (PipelineStage.select (expr'.subst (.cast output expr)) output').run_query hsource
    hv hwf hle out
  have hnested := (PipelineStage.select expr' output').run_query hfeed hw hwwf hle out
  rw [helements] at hnested
  change _ = out.play (.mapList (selectOne expr') _) at hnested
  rw [mapList_selectOne_subst hmade] at hnested
  exact hfused.trans hnested.symm

/-- Two selects over a well-formed input, the one over the other, and the select of the second
expression with the first, cast to the kind of the region between, in the place of slot 0. If the
two pass the check, so does the fused one. If they run to the end, so does the fused one, and the
output is the same. -/
theorem run_fused {slot : Nat} {out out' : PlainRegion} (hv : inputs[slot]? = some v)
    (hreach : v.Reachable) (hwf : v.WellFormed) (hle : start ≤ stop)
    (hrun : (Query.select (.query (.select (.input slot) expr output)) expr' output').run inputs
      start stop out = (out', .ok ())) :
    ((Query.select (.query (.select (.input slot) expr output)) expr' output').check = .ok () →
      (Query.select (.input slot) (expr'.subst (.cast output expr)) output').check = .ok ()) ∧
    (Query.select (.input slot) (expr'.subst (.cast output expr)) output').run inputs start stop
      out = (out', .ok ()) := by
  constructor
  · intro hcheck
    obtain ⟨hexpr', hnested⟩ := (PipelineStage.select expr' output').checks_of_query hcheck
    obtain ⟨hexpr, -⟩ := (PipelineStage.select expr output).checks_of_query hnested
    have hcast : (Expr.cast output expr).ReadsBelow 1 := (Expr.checkSlots_iff.mp hexpr :)
    have hfused : (expr'.subst (.cast output expr)).checkSlots 1 = .ok () :=
      Expr.checkSlots_iff.mpr ((Expr.checkSlots_iff.mp hexpr').subst hcast)
    rw [Query.check, hfused]
    rfl
  · cases hfeed : Source.feed inputs start stop (.query (.select (.input slot) expr output)) with
    | error x =>
      cases ((PipelineStage.select expr' output').run_query_error hfeed out).symm.trans hrun
    | ok f =>
      rw [run_select_subst (View.feed_input hv hreach.valid start stop) hreach.valid hwf hle hfeed,
        hrun]

end

end

/-- The first select cuts 300 to the 44 that 8 bits keep of it, and the square of that is stored. -/
theorem run_fused_of_cut :
    let input := ((PlainRegion.allocate .i64 2 0).record ⟨0, 2⟩ (.int 300)).record ⟨2, 3⟩ (.int 5)
    let square : Expr := .binary .mul (.input 0) (.input 0)
    let nested : Query := .select (.query (.select (.input 0) (.input 0) .i8)) square .i64
    let fused : Query := .select (.input 0) (.binary .mul (.cast .i8 (.input 0))
      (.cast .i8 (.input 0))) .i64
    let out := PlainRegion.allocate .i64 2 0
    ∃ out', nested.run [.plain input] 0 4 out = (out', .ok ()) ∧
      fused.run [.plain input] 0 4 out = (out', .ok ()) ∧
      out'.elements = [⟨⟨0, 2⟩, some (.int 1936)⟩, ⟨⟨2, 3⟩, some (.int 25)⟩] := by
  intro input square nested fused out
  have hinput : input.Reachable := .record (.record
    (@PlainRegion.Reachable.allocate .i64 2 0 _ rfl) (by decide) _) (by decide) _
  let out' := (out.record ⟨0, 2⟩ (.int 1936)).record ⟨2, 3⟩ (.int 25)
  have hrun : nested.run [.plain input] 0 4 out = (out', .ok ()) := by decide +kernel
  obtain ⟨-, hfused⟩ := @run_fused [.plain input] 0 4 (.plain input) (.input 0) square .i8 .i64 0
    out out' rfl hinput hinput.valid.wellFormed (by decide) hrun
  exact ⟨out', hrun, hfused, by decide⟩

/-- A constant over a quotient by zero: the fused select does not compute the quotient. -/
example :
    let input := (PlainRegion.allocate .i64 1 0).record ⟨0, 1⟩ (.int 0)
    let inverse : Expr := .binary .div (.const (.int 1)) (.input 0)
    let seven : Expr := .const (.int 7)
    let out := PlainRegion.allocate .i64 1 0
    ((Query.select (.query (.select (.input 0) inverse .i64)) seven .i64).run [.plain input] 0 1
      out).2 = .error .divisionByZero ∧
    ((Query.select (.input 0) (seven.subst (.cast .i64 inverse)) .i64).run [.plain input] 0 1
      out).2 = .ok () := by
  decide +kernel

end StreamGauge
