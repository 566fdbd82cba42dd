import StreamGauge.Proofs.Exec.Filter
import StreamGauge.Proofs.Exec.Run

/-!
# Pipelines

A query of selects and filters alone, one over the other, does with its input what a program over
lists does with the elements of the range, one stage after the other.

* `PipelineStage.make` is what a stage makes of an element, `PipelineStage.rows` of a list of them.
  The operator emits just that (`PipelineStage.make_cases`), and a region with the slots for it
  takes it (`PipelineStage.play`).
* `pipeline` is the source that stages lead to. Every query of selects and filters over one input
  is a stage over a pipeline (`Query.pointwise_iff`).
* `pipelineRows` is the program: all that a stage makes, as its kind keeps it, is what the next one
  reads. The source has the same elements (`feed_pipeline`), whatever becomes of them in the
  regions between.
* `run_pipeline`: a run does what the program says, and fails where the program fails.
-/

namespace StreamGauge

/-! ## Stages -/

/-- An operator that goes through the elements of its source one by one. -/
inductive PipelineStage where
  | select (expr : Expr) (output : Kind)
  | filter (predicate : Expr)

namespace PipelineStage

/-- The expression of the stage. -/
def expr : PipelineStage → Expr
  | select expr _ => expr
  | filter predicate => predicate

/-- The stage over a source. -/
def query (s : PipelineStage) (source : Source) : Query :=
  match s with
  | select expr output => .select source expr output
  | filter predicate => .filter source predicate

/-- The kind of what the stage makes of elements of a kind. -/
def output (s : PipelineStage) (kind : Kind) : Kind :=
  match s with
  | select _ output => output
  | filter _ => kind

/-- What the operator does with an element. -/
def emit (s : PipelineStage) (e : Element) : Emission :=
  match s with
  | select expr _ => selectOne expr e
  | filter predicate => filterOne predicate e

/-- The value of the expression for an element. -/
def result (s : PipelineStage) (e : Element) : Except ExecError Value := do
  s.expr.compute [← e.read]

/-- What the stage makes of an element: with the same span, the value of the expression; or the
element as it is if the predicate holds of its value, and nothing if not. -/
def make (s : PipelineStage) (e : Element) : Except ExecError (Option Element) := do
  let x ← s.result e
  match s with
  | select _ _ => return some ⟨e.span, some x⟩
  | filter _ => return if x.toBool then some e else none

/-- What the stage makes of elements, if it fails at none of them. -/
def rows (s : PipelineStage) (es : List Element) : Except ExecError (List Element) :=
  es.filterMapM s.make

variable {s : PipelineStage} {e : Element} {es made : List Element}

theorem result_eq {v : Value} (h : e.value? = some v) : s.result e = s.expr.compute [v] := by
  simp only [result, Element.read, h, bind, Except.bind]

theorem exists_value_of_result {x : Value} (h : s.result e = .ok x) :
    ∃ v, e.value? = some v ∧ s.expr.compute [v] = .ok x := by
  cases hvalue : e.value? with
  | none =>
    rw [result, Element.read, hvalue] at h
    cases h
  | some v =>
    rw [result_eq hvalue] at h
    exact ⟨v, rfl, h⟩

theorem of_result_error {x : ExecError} (h : s.result e = .error x) :
    s.make e = .error x ∧ s.emit e = .halt x := by
  refine ⟨by rw [make, h]; rfl, ?_⟩
  cases s with
  | select expr output => exact congrArg (Emission.ofResult (.during e.span)) h
  | filter predicate =>
    cases hread : e.read with
    | error y =>
      rw [result, hread] at h
      cases h
      simp only [emit, filterOne, hread]
    | ok v =>
      rw [result, hread] at h
      change predicate.compute [v] = _ at h
      simp only [emit, filterOne, hread, h]

theorem select_of_result {expr : Expr} {output : Kind} {x : Value}
    (h : (select expr output).result e = .ok x) :
    (select expr output).make e = .ok (some ⟨e.span, some x⟩) ∧
      (select expr output).emit e = .during e.span x :=
  ⟨by rw [make, h]; rfl, congrArg (Emission.ofResult (.during e.span)) h⟩

theorem filter_of_result {predicate : Expr} {v x : Value} (hv : e.value? = some v)
    (h : (filter predicate).result e = .ok x) :
    (filter predicate).make e = .ok (if x.toBool then some e else none) ∧
      (filter predicate).emit e =
        if x.toBool then .during e.span v else .pass e.span.stop := by
  refine ⟨by rw [make, h]; rfl, ?_⟩
  rw [result_eq hv] at h
  change predicate.compute [v] = _ at h
  simp only [emit, filterOne, Element.read, hv, h]

/-- The operator emits what the stage makes of an element. -/
theorem make_cases (s : PipelineStage) (e : Element) :
    (∃ x, s.make e = .error x ∧ s.emit e = .halt x) ∨
    (s.make e = .ok none ∧ s.emit e = .pass e.span.stop) ∨
    ∃ v, s.make e = .ok (some ⟨e.span, some v⟩) ∧ s.emit e = .during e.span v := by
  cases hresult : s.result e with
  | error x => exact .inl ⟨x, of_result_error hresult⟩
  | ok x =>
    cases s with
    | select expr output => exact .inr (.inr ⟨x, select_of_result hresult⟩)
    | filter predicate =>
      obtain ⟨v, hv, -⟩ := exists_value_of_result hresult
      obtain ⟨hmake, hemit⟩ := filter_of_result hv hresult
      by_cases hkeep : x.toBool = true
      · rw [if_pos hkeep] at hmake hemit
        refine .inr (.inr ⟨v, ?_, hemit⟩)
        rw [hmake, ← hv]
      · rw [if_neg hkeep] at hmake hemit
        exact .inr (.inl ⟨hmake, hemit⟩)

/-- The stage fails at an element only where its expression does. -/
theorem result_of_make_error {x : ExecError} (h : s.make e = .error x) :
    s.result e = .error x := by
  cases hresult : s.result e with
  | error y =>
    cases (of_result_error hresult).1.symm.trans h
    rfl
  | ok y =>
    rw [make, hresult] at h
    cases s <;> cases h

theorem rows_cons_of_error {x : ExecError} (h : s.make e = .error x) (es : List Element) :
    s.rows (e :: es) = .error x := by
  rw [rows, List.filterMapM_cons, h]
  rfl

theorem rows_cons_of_ok {one : Option Element} (h : s.make e = .ok one) (es : List Element) :
    s.rows (e :: es) = (s.rows es).map (one.toList ++ ·) := by
  rw [rows, List.filterMapM_cons, h]
  cases one with
  | none =>
    change s.rows es = _
    cases s.rows es <;> rfl
  | some e' =>
    change (do return e' :: (← s.rows es)) = _
    cases s.rows es <;> rfl

/-- What is made keeps its span, and has a value. -/
theorem rows_made (h : s.rows es = .ok made) :
    (made.map (·.span)).Sublist (es.map (·.span)) ∧ ∀ e ∈ made, e.value?.isSome := by
  induction es generalizing made with
  | nil =>
    cases h
    exact ⟨.slnil, nofun⟩
  | cons e es ih =>
    rcases s.make_cases e with ⟨x, hmake, -⟩ | ⟨hmake, -⟩ | ⟨v, hmake, -⟩
    · rw [rows_cons_of_error hmake] at h
      cases h
    · rw [rows_cons_of_ok hmake] at h
      obtain ⟨more, hmore, rfl⟩ := eq_ok_of_map h
      obtain ⟨hspans, hvalues⟩ := ih hmore
      exact ⟨hspans.cons _, hvalues⟩
    · rw [rows_cons_of_ok hmake] at h
      obtain ⟨more, hmore, rfl⟩ := eq_ok_of_map h
      obtain ⟨hspans, hvalues⟩ := ih hmore
      exact ⟨hspans.cons_cons _, List.forall_mem_cons.mpr ⟨rfl, hvalues⟩⟩

theorem length_rows_le (h : s.rows es = .ok made) : made.length ≤ es.length := by
  have hle := (rows_made h).1.length_le
  rwa [List.length_map, List.length_map] at hle

/-- A checked stage over elements with values can only fail by a division by zero. -/
theorem rows_error (hexpr : s.expr.checkSlots 1 = .ok ()) (hvalue : ∀ e ∈ es, e.value?.isSome)
    {x : ExecError} (hx : s.rows es = .error x) : x = .divisionByZero := by
  induction es with
  | nil => cases hx
  | cons e es ih =>
    obtain ⟨he, hes⟩ := List.forall_mem_cons.mp hvalue
    cases hmake : s.make e with
    | ok one =>
      rw [rows_cons_of_ok hmake] at hx
      exact ih hes (eq_error_of_map hx)
    | error y =>
      rw [rows_cons_of_error hmake] at hx
      cases hx
      obtain ⟨v, hv⟩ := Option.isSome_iff_exists.mp he
      have hresult := result_of_make_error hmake
      rw [result_eq hv] at hresult
      exact @Expr.compute_error s.expr [v] hexpr x hresult

/-- What a valid region does with what the stage emits for an element after its stop. -/
theorem accept (s : PipelineStage) {r : PlainRegion} (h : r.Valid) (hstart : r.stop ≤ e.span.start)
    (hlength : 0 < e.span.length) :
    (∀ x, s.make e = .error x → r.accept (s.emit e) = (r, .error x)) ∧
    ∀ one, s.make e = .ok one → r.count + one.toList.length ≤ r.capacity →
      ∃ r', r.accept (s.emit e) = (r', .ok ()) ∧
        r.Extends r' (one.toList.map (·.storedAs r.kind)) ∧ r'.stop = e.span.stop := by
  rcases s.make_cases e with ⟨x, hmake, hemit⟩ | ⟨hmake, hemit⟩ | ⟨v, hmake, hemit⟩
  · rw [hmake, hemit]
    refine ⟨fun y hy => ?_, nofun⟩
    cases hy
    rfl
  · rw [hmake, hemit]
    refine ⟨nofun, fun one hone _ => ?_⟩
    cases hone
    have hfollows : (Emission.pass e.span.stop).Follows r.stop := by
      change r.stop ≤ e.span.start + e.span.length
      omega
    exact PlainRegion.accept_follows h hfollows nofun rfl
  · rw [hmake, hemit]
    refine ⟨nofun, fun one hone hroom => ?_⟩
    cases hone
    exact PlainRegion.accept_follows h (e := .during e.span v) ⟨hstart, hlength⟩
      (fun _ => hroom) rfl

/-- A valid region takes what the stage makes of elements in order, if it has the slots for it. It
then stops where the last of them does. Where the stage fails, so does the run. -/
theorem play (s : PipelineStage) {r : PlainRegion} (h : r.Valid) (hes : InOrder es)
    (hstart : ∀ e ∈ es, r.stop ≤ e.span.start)
    (room : ∀ first made, first <+: es → s.rows first = .ok made →
      r.count + made.length ≤ r.capacity) :
    (∀ made, s.rows es = .ok made → ∃ r', r.play (.mapList s.emit es) = (r', .ok ()) ∧
      r.Extends r' (made.map (·.storedAs r.kind)) ∧
      r'.stop = (es.getLast?.map (·.span.stop)).getD r.stop) ∧
    ∀ x, s.rows es = .error x → ∃ r', r.play (.mapList s.emit es) = (r', .error x) := by
  -- Room is asked for prefixes only: after a failure nothing else needs a slot.
  induction es generalizing r with
  | nil =>
    refine ⟨fun made hmade => ?_, fun x hx => by cases hx⟩
    cases hmade
    exact ⟨r, rfl, .refl h, rfl⟩
  | cons e es ih =>
    obtain ⟨hstart, -⟩ := List.forall_mem_cons.mp hstart
    obtain ⟨hfails, htakes⟩ := s.accept h hstart (hes.length_pos e List.mem_cons_self)
    rw [Sequence.mapList, PlainRegion.play]
    cases hmake : s.make e with
    | error x =>
      rw [hfails x hmake, rows_cons_of_error hmake]
      refine ⟨fun made hmade => (by cases hmade), fun y hy => ?_⟩
      cases hy
      exact ⟨r, rfl⟩
    | ok one =>
      have hone : s.rows [e] = .ok one.toList := by
        rw [rows_cons_of_ok hmake]
        exact congrArg Except.ok (List.append_nil _)
      obtain ⟨r₁, haccept, hext, hstop⟩ := htakes one hmake
        (room [e] _ (List.cons_prefix_cons.mpr ⟨rfl, List.nil_prefix⟩) hone)
      have hcount := hext.count h
      rw [List.length_map] at hcount
      obtain ⟨hok, herror⟩ := ih hext.valid hes.tail (by rw [hstop]; exact hes.head_stop_le)
        fun first made hfirst hmade => by
          have hroom := room (e :: first) (one.toList ++ made)
            (List.cons_prefix_cons.mpr ⟨rfl, hfirst⟩) (by rw [rows_cons_of_ok hmake, hmade]; rfl)
          rw [List.length_append] at hroom
          rw [hcount, hext.capacity]
          omega
      rw [haccept, rows_cons_of_ok hmake]
      refine ⟨fun made hmade => ?_, fun x hx => herror x (eq_error_of_map hx)⟩
      obtain ⟨more, hmore, rfl⟩ := eq_ok_of_map hmade
      obtain ⟨r', hplay, hext', hstop'⟩ := hok more hmore
      refine ⟨r', hplay, ?_, ?_⟩
      · rw [hext.kind] at hext'
        rw [List.map_append]
        exact hext.trans hext'
      · rw [hstop', hstop, List.getLast?_cons]
        cases es.getLast? <;> rfl

end PipelineStage

/-! ## Pipelines -/

/-- The source that stages lead to from an input, the last of them first. -/
def pipeline (slot : Nat) : List PipelineStage → Source
  | [] => .input slot
  | s :: below => .query (s.query (pipeline slot below))

/-- The kind of what stages make of elements of a kind. -/
def pipelineKind (kind : Kind) : List PipelineStage → Kind
  | [] => kind
  | s :: below => s.output (pipelineKind kind below)

/-- What stages make of elements of a kind, one after the other, each as its own kind keeps it. -/
def pipelineRows (kind : Kind) (es : List Element) :
    List PipelineStage → Except ExecError (List Element)
  | [] => .ok es
  | s :: below => do
    let made ← s.rows (← pipelineRows kind es below)
    return made.map (·.storedAs (pipelineKind kind (s :: below)))

theorem pipelineRows_cons_of_error {kind : Kind} {es : List Element} {below : List PipelineStage}
    {x : ExecError} (s : PipelineStage) (h : pipelineRows kind es below = .error x) :
    pipelineRows kind es (s :: below) = .error x := by
  rw [pipelineRows, h]
  rfl

theorem pipelineRows_cons_of_ok {kind : Kind} {es rows : List Element} {below : List PipelineStage}
    (s : PipelineStage) (h : pipelineRows kind es below = .ok rows) :
    pipelineRows kind es (s :: below) =
      (s.rows rows).map fun made => made.map (·.storedAs (pipelineKind kind (s :: below))) := by
  rw [pipelineRows, h]
  change (do return List.map _ (← s.rows rows)) = _
  cases s.rows rows <;> rfl

mutual

/-- The query has selects and filters only, over one input. -/
def Query.Pointwise (slot : Nat) : Query → Prop
  | .select source _ _ => source.Pointwise slot
  | .filter source _ => source.Pointwise slot
  | .window _ _ _ _ _ => False
  | .join _ _ _ _ _ => False

@[inherit_doc Query.Pointwise]
def Source.Pointwise (slot : Nat) : Source → Prop
  | .input n => n = slot
  | .query q => q.Pointwise slot

end

section

variable {inputs : List View} {slot : Nat} {start stop : Int} {v : View}

mutual

/-- Such a query is a stage over a pipeline. -/
theorem Query.pointwise_iff (q : Query) :
    q.Pointwise slot ↔ ∃ top below, q = PipelineStage.query top (pipeline slot below) := by
  match q with
  | .select source expr output =>
    rw [Query.Pointwise, source.pointwise_iff]
    constructor
    · rintro ⟨below, rfl⟩
      exact ⟨.select expr output, below, rfl⟩
    · rintro ⟨top, below, h⟩
      cases top <;> cases h
      exact ⟨below, rfl⟩
  | .filter source predicate =>
    rw [Query.Pointwise, source.pointwise_iff]
    constructor
    · rintro ⟨below, rfl⟩
      exact ⟨.filter predicate, below, rfl⟩
    · rintro ⟨top, below, h⟩
      cases top <;> cases h
      exact ⟨below, rfl⟩
  | .window _ _ _ _ _ => exact ⟨False.elim, fun ⟨top, _, h⟩ => by cases top <;> cases h⟩
  | .join _ _ _ _ _ => exact ⟨False.elim, fun ⟨top, _, h⟩ => by cases top <;> cases h⟩

@[inherit_doc Query.pointwise_iff]
theorem Source.pointwise_iff (s : Source) :
    s.Pointwise slot ↔ ∃ below, s = pipeline slot below := by
  match s with
  | .input n =>
    constructor
    · rintro rfl
      exact ⟨[], rfl⟩
    · rintro ⟨below, h⟩
      cases below <;> cases h
      rfl
  | .query q =>
    rw [Source.Pointwise, q.pointwise_iff]
    constructor
    · rintro ⟨top, below, rfl⟩
      exact ⟨top :: below, rfl⟩
    · rintro ⟨below, h⟩
      cases below with
      | nil => cases h
      | cons top below =>
        cases h
        exact ⟨top, below, rfl⟩

end

theorem outputKind?_pipeline (hv : inputs[slot]? = some v) (below : List PipelineStage) :
    (pipeline slot below).outputKind? (inputs.map (·.kind)) = some (pipelineKind v.kind below) := by
  induction below with
  | nil => simp [pipeline, Source.outputKind?, hv, pipelineKind]
  | cons s below ih =>
    cases s with
    | select expr output => rfl
    | filter predicate => exact ih

theorem bound_pipeline (hv : inputs[slot]? = some v) (below : List PipelineStage) :
    (pipeline slot below).bound inputs start stop = .ok v.size := by
  induction below with
  | nil =>
    simp only [pipeline, Source.bound, inputAt, hv]
    rfl
  | cons s below ih => cases s <;> exact ih

/-! ## What a pipeline gives -/

/-- The region of a nested query, where there is a buffer for it. -/
theorem Source.feed_of_fits {q : Query} {kind : Kind} {n : Nat}
    (hkind : q.outputKind? (inputs.map (·.kind)) = some kind)
    (hbound : q.bound inputs start stop = .ok n) (hfits : SpanLog.fits (slotCapacity n) = true) :
    Source.feed inputs start stop (.query q) = (do
      (q.run inputs start stop (.allocate kind n start)).2
      Feed.ofView (.plain (q.run inputs start stop (.allocate kind n start)).1)) := by
  have hscratch := (@scratch_eq_ok_iff start kind n _).mpr ⟨hfits, rfl⟩
  rw [feed_query, hkind]
  simp only [hbound, hscratch, bind, Except.bind]

namespace PipelineStage

variable {source : Source}

theorem checks_of_query (s : PipelineStage) (h : (s.query source).check = .ok ()) :
    s.expr.checkSlots 1 = .ok () ∧ source.check = .ok () := by
  cases s with
  | select expr output =>
    obtain ⟨_, hexpr, hsource⟩ := eq_ok_of_bind h
    exact ⟨hexpr, hsource⟩
  | filter predicate =>
    obtain ⟨_, hexpr, hsource⟩ := eq_ok_of_bind h
    exact ⟨hexpr, hsource⟩

theorem run_query (s : PipelineStage) (hfeed : source.feed inputs start stop = .ok v.feed)
    (hv : v.Valid) (hwf : v.WellFormed) (hle : start ≤ stop) (out : PlainRegion) :
    (s.query source).run inputs start stop out =
      out.play (.mapList s.emit (v.elementsIn start stop)) := by
  cases s <;>
    simp only [query, Query.run, Query.emissions, hfeed, bind, Except.bind,
      View.elementsIn_feed hv hwf hle] <;> rfl

theorem run_query_error (s : PipelineStage) {x : ExecError}
    (hfeed : source.feed inputs start stop = .error x) (out : PlainRegion) :
    (s.query source).run inputs start stop out = (out, .error x) := by
  cases s <;> simp only [query, Query.run, Query.emissions, hfeed, bind, Except.bind]

end PipelineStage

/-- A region that has taken what a stage makes of elements in the range `[start, stop)` shows all of
it to a run over that range. -/
theorem elementsIn_of_rows {s : PipelineStage} {es made : List Element} {r : PlainRegion}
    {kind : Kind} (hes : ∀ e ∈ es, Element.startsIn start stop e = true)
    (hmade : s.rows es = .ok made)
    (hr : r.elements = made.map (·.storedAs kind)) :
    (View.plain r).elementsIn start stop = made.map (·.storedAs kind) := by
  change r.elements.filter _ = _
  rw [hr, List.filter_eq_self]
  intro e he
  obtain ⟨e', he', rfl⟩ := List.mem_map.mp he
  obtain ⟨e'', he'', hspan⟩ := List.mem_map.mp
    ((PipelineStage.rows_made hmade).1.subset (List.mem_map_of_mem he'))
  have hin := hes e'' he''
  change (decide (start ≤ e'.span.start) && decide (e'.span.start < stop)) = true
  rw [← hspan]
  exact hin

/-- A nested stage over a source with a view gives all that it makes, and nothing else. Its region
has the slots for that if it has them for the elements of the view. -/
theorem PipelineStage.feed_of_rows (s : PipelineStage) {source : Source} {kind : Kind} {n : Nat}
    (hsource : source.feed inputs start stop = .ok v.feed) (hv : v.Valid) (hwf : v.WellFormed)
    (hle : start ≤ stop) (hsize : v.size ≤ n)
    (hkind : (s.query source).outputKind? (inputs.map (·.kind)) = some kind)
    (hbound : (s.query source).bound inputs start stop = .ok n)
    (hfits : SpanLog.fits (slotCapacity n) = true) :
    (∀ made, s.rows (v.elementsIn start stop) = .ok made →
      ∃ w : View, Source.feed inputs start stop (.query (s.query source)) = .ok w.feed ∧ w.Valid ∧
        w.WellFormed ∧ w.size ≤ n ∧ w.elementsIn start stop = made.map (·.storedAs kind)) ∧
    ∀ x, s.rows (v.elementsIn start stop) = .error x →
      Source.feed inputs start stop (.query (s.query source)) = .error x := by
  have hempty := PlainRegion.valid_allocate kind n start
  have hlength := @View.length_elementsIn_le v start stop hv
  have hslots := le_leastPowerOfTwo n
  have horder : InOrder (v.elementsIn start stop) := View.inOrder_elementsIn hv hwf
  -- The region starts empty at `start`, and a stage makes no more elements than it is given.
  obtain ⟨htakes, hfails⟩ := s.play hempty horder
    (fun e he => View.start_le_of_elementsIn he) fun first made hfirst hmade => by
      have hmany := length_rows_le hmade
      have hfew := hfirst.length_le
      change 0 + made.length ≤ slotCapacity n
      unfold slotCapacity
      omega
  rw [Source.feed_of_fits hkind hbound hfits, s.run_query hsource hv hwf hle]
  refine ⟨fun made hmade => ?_, fun x hx => ?_⟩
  · obtain ⟨r, hplay, hext, -⟩ := htakes made hmade
    rw [hplay]
    have hcount : r.count = 0 + (made.map (·.storedAs kind)).length := hext.count hempty
    have hmany := length_rows_le hmade
    rw [List.length_map] at hcount
    refine ⟨.plain r, View.ofView_eq (v := .plain r) hext.valid, hext.valid, hext.valid.wellFormed,
      ?_, elementsIn_of_rows (fun e he => (List.mem_filter.mp he).2) hmade hext.elements⟩
    change r.count ≤ n
    omega
  · obtain ⟨r, hplay⟩ := hfails x hx
    rw [hplay]
    rfl

/-- What stages make of the elements of a range is in the region that they run into, and nothing
else is. -/
theorem feed_pipeline (hv : inputs[slot]? = some v) (hvalid : v.Valid) (hwf : v.WellFormed)
    (hle : start ≤ stop) (below : List PipelineStage)
    (hfits : below ≠ [] → SpanLog.fits (slotCapacity v.size) = true) :
    (∀ rows, pipelineRows v.kind (v.elementsIn start stop) below = .ok rows →
      ∃ w : View, (pipeline slot below).feed inputs start stop = .ok w.feed ∧ w.Valid ∧
        w.WellFormed ∧ w.size ≤ v.size ∧ w.elementsIn start stop = rows) ∧
    ∀ x, pipelineRows v.kind (v.elementsIn start stop) below = .error x →
      (pipeline slot below).feed inputs start stop = .error x := by
  -- On the stages below, from the input up: the region of one is the view of the next.
  induction below with
  | nil =>
    refine ⟨fun rows hrows => ?_, nofun⟩
    cases hrows
    exact ⟨v, View.feed_input hv hvalid start stop, hvalid, hwf, Nat.le_refl _, rfl⟩
  | cons s below ih =>
    have hbuffer := hfits (List.cons_ne_nil _ _)
    have hkind := outputKind?_pipeline hv (s :: below)
    have hbound := @bound_pipeline inputs slot start stop v hv (s :: below)
    obtain ⟨hok, herror⟩ := ih fun _ => hbuffer
    cases hrows : pipelineRows v.kind (v.elementsIn start stop) below with
    | error x =>
      rw [pipelineRows_cons_of_error s hrows]
      refine ⟨nofun, fun y hy => ?_⟩
      cases hy
      rw [pipeline, Source.feed_of_fits hkind hbound hbuffer, s.run_query_error (herror x hrows)]
      rfl
    | ok rows =>
      obtain ⟨w, hw, hwvalid, hwwf, hsize, rfl⟩ := hok rows hrows
      obtain ⟨htakes, hfails⟩ := s.feed_of_rows hw hwvalid hwwf hle hsize hkind hbound hbuffer
      rw [pipelineRows_cons_of_ok s hrows]
      refine ⟨fun rows' hrows' => ?_, fun x hx => hfails x (eq_error_of_map hx)⟩
      obtain ⟨made, hmade, rfl⟩ := eq_ok_of_map hrows'
      exact htakes made hmade

/-- A checked pipeline over elements with values can only fail by a division by zero. -/
theorem pipelineRows_checked {kind : Kind} {es : List Element} (below : List PipelineStage)
    (hcheck : (pipeline slot below).check = .ok ()) (hvalue : ∀ e ∈ es, e.value?.isSome) :
    (∀ rows, pipelineRows kind es below = .ok rows → ∀ e ∈ rows, e.value?.isSome) ∧
      ∀ x, pipelineRows kind es below = .error x → x = .divisionByZero := by
  induction below with
  | nil =>
    refine ⟨fun rows hrows => ?_, nofun⟩
    cases hrows
    exact hvalue
  | cons s below ih =>
    obtain ⟨hexpr, hbelow⟩ := s.checks_of_query hcheck
    obtain ⟨hok, herror⟩ := ih hbelow
    cases hrows : pipelineRows kind es below with
    | error x =>
      rw [pipelineRows_cons_of_error s hrows]
      refine ⟨nofun, fun y hy => ?_⟩
      cases hy
      exact herror x hrows
    | ok rows =>
      rw [pipelineRows_cons_of_ok s hrows]
      refine ⟨fun rows' hrows' e he => ?_, fun x hx =>
        PipelineStage.rows_error hexpr (hok rows hrows) (eq_error_of_map hx)⟩
      obtain ⟨made, hmade, rfl⟩ := eq_ok_of_map hrows'
      obtain ⟨e', he', rfl⟩ := List.mem_map.mp he
      exact Option.isSome_map.trans ((PipelineStage.rows_made hmade).2 e' he')

/-! ## The run -/

/-- A run of a query of selects and filters, which is a stage over a pipeline
(`Query.pointwise_iff`), over a well-formed input, into an output region with a slot for each
element that the top stage makes before it fails. Where there are stages below, an input that lies
in blocks may not be so long that no buffer has slots for its elements.

The stages below the top one give it rows, each stage of all that the stage below it has made. If no
stage fails, the run ends well: what the top stage makes of the rows is appended, as the kind of the
output keeps it, and the output stops where the last row does, or where it did if there is no row.
If a stage fails, so does the run, for the same reason, which is a division by zero where all
elements of the range have values. -/
theorem run_pipeline {top : PipelineStage} {below : List PipelineStage} {out : PlainRegion}
    (hv : inputs[slot]? = some v) (hreach : v.Reachable) (hwf : v.WellFormed)
    (hcheck : (top.query (pipeline slot below)).check = .ok ()) (hle : start ≤ stop)
    (hout : out.Reachable) (hstop : out.stop ≤ start)
    (hfits : below ≠ [] → v.isBlocked = true → SpanLog.fits (slotCapacity v.size) = true)
    (hroom : ∀ rows first made,
      pipelineRows v.kind (v.elementsIn start stop) below = .ok rows → first <+: rows →
      top.rows first = .ok made → out.count + made.length ≤ out.capacity) :
    (∀ rows made, pipelineRows v.kind (v.elementsIn start stop) below = .ok rows →
      top.rows rows = .ok made →
      ∃ out', (top.query (pipeline slot below)).run inputs start stop out = (out', .ok ()) ∧
        out.Extends out' (made.map (·.storedAs out.kind)) ∧
        out'.stop = (rows.getLast?.map (·.span.stop)).getD out.stop) ∧
    ∀ x, (do top.rows (← pipelineRows v.kind (v.elementsIn start stop) below)) = .error x →
      (∃ out', (top.query (pipeline slot below)).run inputs start stop out = (out', .error x)) ∧
        ((∀ e ∈ v.elementsIn start stop, e.value?.isSome) → x = .divisionByZero) := by
  have hbuffer : below ≠ [] → SpanLog.fits (slotCapacity v.size) = true := by
    intro hstages
    -- A plain region has a slot for each of its elements already.
    cases v with
    | plain r => exact PlainRegion.Reachable.fits_count hreach
    | blocked r => exact hfits hstages rfl
  obtain ⟨hexpr, hbelow⟩ := top.checks_of_query hcheck
  obtain ⟨hok, herror⟩ := feed_pipeline hv hreach.valid hwf hle below hbuffer
  cases hrows : pipelineRows v.kind (v.elementsIn start stop) below with
  | error x =>
    refine ⟨nofun, fun y hy => ?_⟩
    cases hy
    exact ⟨⟨out, top.run_query_error (herror x hrows) out⟩, fun hvalue =>
      (pipelineRows_checked below hbelow hvalue).2 x hrows⟩
  | ok rows =>
    obtain ⟨w, hw, hwvalid, hwwf, -, helements⟩ := hok rows hrows
    have horder : InOrder rows := helements ▸ View.inOrder_elementsIn hwvalid hwwf
    have hstart : ∀ e ∈ rows, out.stop ≤ e.span.start := by
      intro e he
      rw [← helements] at he
      exact Int.le_trans hstop (View.start_le_of_elementsIn he)
    have hrun := top.run_query hw hwvalid hwwf hle out
    rw [helements] at hrun
    obtain ⟨htakes, hfails⟩ := top.play hout.valid horder hstart fun first made hfirst hmade =>
      hroom rows first made hrows hfirst hmade
    rw [hrun]
    refine ⟨fun rows' made hrows' hmade => ?_, fun x hx => ⟨hfails x hx, fun hvalue => ?_⟩⟩
    · cases hrows'
      exact htakes made hmade
    · have hvalues := (pipelineRows_checked below hbelow hvalue).1 rows hrows
      exact PipelineStage.rows_error hexpr hvalues hx

end

/-- A filter over a cast to 8 bits, which cuts 300 to 44. The third element begins in the range and
stops after it, the fourth begins too late. The second is not kept, and a division by its value is
the end of another run over the same input. -/
theorem run_pipeline_of_stages :
    let input := ((((PlainRegion.allocate .i64 4 0).record ⟨0, 2⟩ (.int 5)).record ⟨2, 2⟩
      (.int 0)).record ⟨4, 3⟩ (.int 300)).record ⟨7, 1⟩ (.int 6)
    let out := PlainRegion.allocate .i8 4 0
    let positive : PipelineStage := .filter (.binary .gt (.input 0) (.const (.int 0)))
    let narrow : PipelineStage := .select (.input 0) .i8
    let inverse : PipelineStage := .select (.binary .div (.const (.int 1)) (.input 0)) .i8
    (∃ out', (positive.query (pipeline 0 [narrow])).run [.plain input] 0 5 out = (out', .ok ()) ∧
      out'.elements = [⟨⟨0, 2⟩, some (.int 5)⟩, ⟨⟨4, 3⟩, some (.int 44)⟩] ∧ out'.stop = 7) ∧
    ∃ out', (positive.query (pipeline 0 [inverse])).run [.plain input] 0 5 out =
      (out', .error .divisionByZero) := by
  intro input out positive narrow inverse
  have hinput : input.Reachable := .record (.record (.record (.record
    (@PlainRegion.Reachable.allocate .i64 4 0 _ rfl) (by decide) _) (by decide) _) (by decide) _)
    (by decide) _
  have hout : out.Reachable := @PlainRegion.Reachable.allocate .i8 4 0 _ rfl
  have hread : (View.plain input).elementsIn 0 5 = [⟨⟨0, 2⟩, some (.int 5)⟩,
      ⟨⟨2, 2⟩, some (.int 0)⟩, ⟨⟨4, 3⟩, some (.int 300)⟩] := by decide +kernel
  constructor
  · have hrows : pipelineRows .i64 ((View.plain input).elementsIn 0 5) [narrow] =
        .ok [⟨⟨0, 2⟩, some (.int 5)⟩, ⟨⟨2, 2⟩, some (.int 0)⟩, ⟨⟨4, 3⟩, some (.int 44)⟩] := by
      rw [hread]
      decide +kernel
    obtain ⟨hruns, -⟩ := @run_pipeline [.plain input] 0 0 5 (.plain input) positive [narrow] out rfl
      hinput hinput.valid.wellFormed rfl (by decide) hout (by decide) (fun _ => nofun)
      (fun rows first made hrows' hfirst hmade => by
        cases hrows.symm.trans hrows'
        have hmany := PipelineStage.length_rows_le hmade
        have hle := hfirst.length_le
        change 0 + made.length ≤ 4
        simp only [List.length_cons, List.length_nil] at hle
        omega)
    obtain ⟨out', hrun, hext, hstop⟩ := hruns _ [⟨⟨0, 2⟩, some (.int 5)⟩, ⟨⟨4, 3⟩, some (.int 44)⟩]
      hrows rfl
    exact ⟨out', hrun, hext.elements, hstop⟩
  · have hrows : pipelineRows .i64 ((View.plain input).elementsIn 0 5) [inverse] =
        .error .divisionByZero := by
      rw [hread]
      rfl
    obtain ⟨-, hfails⟩ := @run_pipeline [.plain input] 0 0 5 (.plain input) positive [inverse] out
      rfl hinput hinput.valid.wellFormed rfl (by decide) hout (by decide) (fun _ => nofun)
      (fun rows first made hrows' _ _ => by cases hrows.symm.trans hrows')
    exact (hfails _ (by rw [show (View.plain input).kind = .i64 from rfl, hrows]; rfl)).1

end StreamGauge
