import StreamGauge.Proofs.Exec.Run
import StreamGauge.Proofs.Region.Values

/-!
# What a filter stores

A filter tests the value of an element of its source and, if it keeps the element, stores that value
into the output, which is of the kind that the source reports. `filter_stores` says what is then in
the output: the kept elements in order, each with its value as that kind keeps it. This is the
value that was tested if and only if it is of the kind, which is a matter of the source alone
(`View.SumsInKind`).

* `Source.feed_view`: what operators read of a source is a reachable view of the kind that the
  source reports; of a nested query, a plain one.
* `play_filter`: a filter appends what it keeps, up to where it stops.
-/

namespace StreamGauge

/-! ## The view of a source -/

section

variable {inputs : List View} {start stop : Int}

theorem View.exists_element?_of_mem {v : View} {e : Element}
    (he : e ∈ StreamGauge.elementsIn v.feed.elements start stop) :
    ∃ i < v.size, v.element? i = some e := by
  have hmem : e ∈ v.elements := by
    change e ∈ (v.elements.toArray.extract _ _).toList at he
    rw [Array.toList_extract, List.extract_eq_drop_take'] at he
    exact List.mem_of_mem_take (List.mem_of_mem_drop he)
  obtain ⟨i, hi, helement⟩ := List.mem_filterMap.mp hmem
  exact ⟨i, List.mem_range.mp hi, helement⟩

/-- What operators read of a source is a reachable view of its kind. -/
theorem Source.feed_view (hreach : ∀ v ∈ inputs, v.Reachable) {s : Source} {f : Feed}
    (h : s.feed inputs start stop = .ok f) :
    ∃ v : View, f = v.feed ∧ v.Reachable ∧ s.outputKind? (inputs.map (·.kind)) = some v.kind ∧
      ((∃ slot, s = .input slot ∧ inputs[slot]? = some v) ∨ ∃ r, v = .plain r) := by
  cases s with
  | input slot =>
    obtain ⟨v, hinput, hview⟩ := eq_ok_of_bind h
    cases hslot : inputs[slot]? with
    | none =>
      simp only [inputAt, hslot] at hinput
      cases hinput
    | some w =>
      simp only [inputAt, hslot, Except.ok.injEq] at hinput
      subst hinput
      have hw := hreach w (List.mem_of_getElem? hslot)
      rw [View.ofView_eq hw.valid, Except.ok.injEq] at hview
      refine ⟨w, hview.symm, hw, ?_, .inl ⟨slot, rfl, hslot⟩⟩
      simp [Source.outputKind?, hslot]
  | query q =>
    simp only [Source.feed] at h
    split at h
    case h_1 => cases h
    case h_2 kind hkind =>
      obtain ⟨n, -, h⟩ := eq_ok_of_bind h
      obtain ⟨r, hscratch, h⟩ := eq_ok_of_bind h
      obtain ⟨emissions, -, h⟩ := eq_ok_of_bind h
      obtain ⟨-, -, h⟩ := eq_ok_of_bind h
      obtain ⟨hfits, rfl⟩ := scratch_eq_ok_iff.mp hscratch
      have hempty : (PlainRegion.allocate kind n start).Reachable :=
        .allocate (PlainRegion.allocate?_eq_some_iff.mpr ⟨hfits, rfl⟩)
      have hplayed := hempty.play emissions
      obtain ⟨es, hextends⟩ := PlainRegion.play_extends hempty.valid emissions
      rw [View.ofView_eq (v := .plain _) hplayed.valid, Except.ok.injEq] at h
      refine ⟨_, h.symm, hplayed, ?_, .inr ⟨_, rfl⟩⟩
      rw [Source.outputKind?, hkind, View.kind, hextends.kind]
      rfl

end

/-! ## Kept elements -/

/-- The predicate holds of the value of the element. -/
def Element.passes (predicate : Expr) (e : Element) : Bool :=
  match e.value? with
  | some v =>
    match predicate.eval [v] with
    | .ok keep => keep.toBool
    | .error _ => false
  | none => false

/-- The element as a region of a kind keeps it. -/
def Element.storedAs (kind : Kind) (e : Element) : Element := ⟨e.span, e.value?.map kind.convert⟩

theorem filterOne_cases (predicate : Expr) (e : Element) :
    (e.passes predicate = true ∧ ∃ v, e.value? = some v ∧
      filterOne predicate e = .during e.span v) ∨
    e.passes predicate = false ∧
      (filterOne predicate e = .pass e.span.stop ∨ ∃ x, filterOne predicate e = .halt x) := by
  cases hvalue : e.value? with
  | none =>
    refine .inr ⟨by simp [Element.passes, hvalue], .inr ⟨.fault .unreadable, ?_⟩⟩
    simp [filterOne, Element.read, hvalue]
  | some v =>
    cases heval : predicate.eval [v] with
    | error x =>
      refine .inr ⟨by simp [Element.passes, hvalue, heval], .inr ⟨x.toExecError, ?_⟩⟩
      simp [filterOne, Element.read, Expr.compute, hvalue, heval, Except.mapError]
    | ok keep =>
      have hone : filterOne predicate e =
          if keep.toBool then .during e.span v else .pass e.span.stop := by
        simp [filterOne, Element.read, Expr.compute, hvalue, heval, Except.mapError]
      by_cases hkeep : keep.toBool = true
      · rw [if_pos hkeep] at hone
        exact .inl ⟨by simp [Element.passes, hvalue, heval, hkeep], v, rfl, hone⟩
      · rw [if_neg hkeep] at hone
        exact .inr ⟨by simpa [Element.passes, hvalue, heval] using hkeep, .inl hone⟩

theorem Element.value?_of_passes {predicate : Expr} {e : Element}
    (h : e.passes predicate = true) : ∃ v, e.value? = some v := by
  rcases filterOne_cases predicate e with ⟨-, v, hv, -⟩ | ⟨hnot, -⟩
  · exact ⟨v, hv⟩
  · rw [h] at hnot
    cases hnot

/-- A value of an integer kind is stored as it is if and only if it is one of the kind. -/
theorem Element.storedAs_eq_iff {kind : Kind} (hkind : kind.isInteger = true) {e : Element}
    {n : Int64} (hn : e.value? = some (.int n)) :
    e.storedAs kind = e ↔ kind.Contains n.toInt := by
  have hstored : e.storedAs kind = ⟨e.span, some (.int (Int64.ofInt (kind.wrap n.toInt)))⟩ := by
    rw [storedAs, hn, Option.map_some, Kind.convert_int hkind]
  have htoInt := Kind.toInt_ofInt_wrap hkind n.toInt
  constructor
  · intro heq
    have hvalue := congrArg Element.value? (hstored.symm.trans heq)
    rw [hn, Option.some.injEq, Value.int.injEq] at hvalue
    rw [hvalue] at htoInt
    rw [htoInt]
    exact Kind.contains_wrap hkind _
  · intro hmem
    rw [hstored, Kind.wrap_eq_self hmem, Int64.ofInt_toInt, ← hn]

/-- A filter appends the elements that it keeps, as the region keeps them. It goes through all of
them unless it stops. -/
theorem play_filter {r : PlainRegion} (h : r.Valid) (predicate : Expr) (es : List Element) :
    ∃ done rest, es = done ++ rest ∧
      r.Extends (r.play (filter predicate es)).1
        ((done.filter (·.passes predicate)).map (·.storedAs r.kind)) ∧
      ((r.play (filter predicate es)).2 = .ok () → rest = []) := by
  induction es generalizing r with
  | nil => exact ⟨[], [], rfl, .refl h, fun _ => rfl⟩
  | cons e es ih =>
    have hfilter : filter predicate (e :: es) =
        .cons (filterOne predicate e) fun _ => filter predicate es := rfl
    rw [hfilter, PlainRegion.play]
    -- `done` is what the region has accepted; the first emission that it refuses ends the run.
    rcases h.accept_cases (filterOne predicate e) with ⟨r', haccept, hext⟩ | ⟨x, haccept⟩
    · rw [haccept]
      obtain ⟨done, rest, rfl, hrest, hended⟩ := ih hext.valid
      refine ⟨e :: done, rest, rfl, ?_, hended⟩
      have hone : ((filterOne predicate e).element? r.kind r.stop).toList =
          ([e].filter (·.passes predicate)).map (·.storedAs r.kind) := by
        rcases filterOne_cases predicate e with ⟨hpasses, v, hv, hone⟩ | ⟨hpasses, hone | ⟨x, hone⟩⟩
        · simp [hone, Emission.element?, hpasses, Element.storedAs, hv]
        · simp [hone, Emission.element?, hpasses]
        · simp [hone, Emission.element?, hpasses]
      rw [hone] at hext
      rw [hext.kind] at hrest
      have hboth := hext.trans hrest
      rwa [← List.map_append, ← List.filter_append] at hboth
    · rw [haccept]
      exact ⟨[], e :: es, rfl, .refl h, fun hok => by cases hok⟩

/-! ## The run -/

/-- A filter into a valid region of the integer kind that its source reports, over any range.

Of every input of an integer kind, an element has a value of the kind if and only if its sum is in
the kind; in a plain region and in a raw block, every element has.

Either the source cannot be read, and the output stays as it is. Or the source is a reachable view
of the kind of the output, an input or one all of whose values are of the kind. The filter goes
through its elements in the range, up to where it stops, and to the end if the run ends well. Those
of which the predicate holds are appended in order, with their spans, each with its value as the
kind keeps it: the value that was tested, if and only if the sum of the element is in the kind. -/
theorem filter_stores {inputs : List View} {source : Source} {predicate : Expr} {start stop : Int}
    {out out' : PlainRegion} {ended : Except ExecError Unit}
    (hreach : ∀ v ∈ inputs, v.Reachable) (hout : out.Reachable)
    (hkind : (Query.filter source predicate).outputKind? (inputs.map (·.kind)) = some out.kind)
    (hinteger : out.kind.isInteger = true)
    (hrun : (Query.filter source predicate).run inputs start stop out = (out', ended)) :
    (∀ v ∈ inputs, v.kind.isInteger = true → ∀ i < v.size,
      ((∃ n, v.value? i = some (.int n) ∧ v.kind.Contains n.toInt) ↔ v.SumsInKind i)) ∧
    ((∃ x, source.feed inputs start stop = .error x ∧ out' = out ∧ ended = .error x) ∨
      ∃ v : View, source.feed inputs start stop = .ok v.feed ∧ v.Reachable ∧ v.kind = out.kind ∧
        ((∃ slot, source = .input slot ∧ inputs[slot]? = some v) ∨
          ∀ i < v.size, v.SumsInKind i) ∧
        ∃ done rest, elementsIn v.feed.elements start stop = done ++ rest ∧
          (ended = .ok () → rest = []) ∧
          out.Extends out' ((done.filter (·.passes predicate)).map (·.storedAs out.kind)) ∧
          ∀ e ∈ done.filter (·.passes predicate), ∃ i < v.size, v.element? i = some e ∧
            (e.storedAs out.kind = e ↔ v.SumsInKind i)) := by
  refine ⟨fun v hv hvkind i hi => (hreach v hv).valid.value?_inKind_iff hvkind hi, ?_⟩
  cases hfeed : source.feed inputs start stop with
  | error x =>
    simp only [Query.run, Query.emissions, hfeed] at hrun
    cases hrun
    exact .inl ⟨x, rfl, rfl, rfl⟩
  | ok f =>
    obtain ⟨v, rfl, hv, hvkind, hsource⟩ := Source.feed_view hreach hfeed
    have hsame : v.kind = out.kind := Option.some.inj (hvkind.symm.trans hkind)
    have hplay : out.play (filter predicate (elementsIn v.feed.elements start stop)) =
        (out', ended) := by
      simp only [Query.run, Query.emissions, hfeed] at hrun
      exact hrun
    obtain ⟨done, rest, hsplit, hextends, hended⟩ :=
      play_filter hout.valid predicate (elementsIn v.feed.elements start stop)
    rw [hplay] at hextends hended
    -- A nested query has run into a plain region, whose values have no sum to leave the kind.
    refine .inr ⟨v, rfl, hv, hsame, ?_, done, rest, hsplit, hended, hextends, fun e he => ?_⟩
    · rcases hsource with hinput | ⟨r, rfl⟩
      · exact .inl hinput
      · exact .inr fun i _ => trivial
    · obtain ⟨hdone, hpasses⟩ := List.mem_filter.mp he
      have hmem : e ∈ elementsIn v.feed.elements start stop := by
        rw [hsplit]
        exact List.mem_append_left _ hdone
      obtain ⟨i, hi, helement⟩ := View.exists_element?_of_mem hmem
      have hvalue : v.value? i = e.value? := by
        obtain ⟨span, -, rfl⟩ := Option.map_eq_some_iff.mp helement
        rfl
      have hvinteger : v.kind.isInteger = true := by rwa [hsame]
      obtain ⟨x, hx⟩ := Element.value?_of_passes hpasses
      obtain ⟨n, rfl⟩ := View.exists_int hvinteger (hvalue.trans hx)
      refine ⟨i, hi, helement, ?_⟩
      rw [← hv.valid.value?_inKind_iff hvinteger hi, hvalue, Element.storedAs_eq_iff hinteger hx,
        hx, hsame]
      simp

/-- A base of 32767 and a delta of 127, the largest of 16 and of 8 bits. The filter tests their sum
and stores another number. -/
theorem filter_stores_outside_kind :
    let r : BlockedRegion := ⟨⟨.i16, .i8, 1, 1, .always⟩, 1, #[⟨0, 3, 1, true⟩], ⟨1, #[⟨0, 1⟩]⟩,
      ⟨1, #[⟨0, 1⟩]⟩, #[255, 127, 127]⟩
    let q : Query := .filter (.input 0) (.binary .gt (.input 0) (.const (.int 32767)))
    r.Reachable ∧ (View.blocked r).value? 0 = some (.int 32894) ∧
      ¬ (View.blocked r).SumsInKind 0 ∧
      ∃ out', q.run [.blocked r] 0 1 (.allocate .i16 1 0) = (out', .ok ()) ∧
        out'.elements = [⟨⟨0, 1⟩, some (.int (-32642))⟩] := by
  intro r q
  let r₀ : BlockedRegion := ⟨r.layout, 0, #[], .empty r.layout.blockCount, .empty r.layout.length,
    .zeroed r.layout.payloadBytes⟩
  have hallocate : BlockedRegion.allocate r.layout = .ok r₀ := rfl
  have hcalls : [.commit (.block 0 ⟨0, 1⟩ true), .write (.base 0) 32767,
      .commit (.element 0 ⟨0, 1⟩), .write (.delta 0) 127].foldlM BlockedRegion.Call.perform? r₀ =
        some r := by decide
  have hr : r.Reachable := .run (.allocate hallocate) hcalls
  have hspan : (View.blocked r).span? 0 = some ⟨0, 1⟩ := by decide
  have hwf : (View.blocked r).WellFormed := by
    refine ⟨fun i hi s hs => ?_, fun i hi =>
      absurd (Nat.lt_one_iff.mp hi) (Nat.succ_ne_zero i)⟩
    rw [Nat.lt_one_iff.mp hi, hspan, Option.some.injEq] at hs
    rw [← hs]
    exact Int.one_pos
  have helements : elementsIn (View.blocked r).feed.elements 0 1 =
      [⟨⟨0, 1⟩, some (.int 32894)⟩] := by
    rw [View.elementsIn_feed (v := .blocked r) hr.valid hwf (by decide)]
    decide
  have hfeed := @View.feed_input [.blocked r] 0 (.blocked r) rfl hr.valid 0 1
  have hrun : q.run [.blocked r] 0 1 (.allocate .i16 1 0) =
      ((PlainRegion.allocate .i16 1 0).record ⟨0, 1⟩ (.int 32894), .ok ()) := by
    simp only [q, Query.run, Query.emissions, hfeed, bind, Except.bind, helements]
    rfl
  have hreach : ∀ v ∈ [View.blocked r], v.Reachable := by
    intro v hv
    rw [List.mem_singleton.mp hv]
    exact hr
  have hvalue : (View.blocked r).value? 0 = some (.int 32894) := by decide
  obtain ⟨hvalues, hstored⟩ := filter_stores hreach
    (@PlainRegion.Reachable.allocate .i16 1 0 _ rfl) rfl rfl hrun
  refine ⟨hr, hvalue, ?outside, _, hrun, ?stored⟩
  case outside =>
    rw [← hvalues (.blocked r) List.mem_cons_self rfl 0 (by decide)]
    rintro ⟨n, hn, hmem⟩
    rw [hvalue, Option.some.injEq, Value.int.injEq] at hn
    subst hn
    exact absurd ((Kind.contains_iff rfl).mp hmem) (by decide)
  case stored =>
    rcases hstored with ⟨x, hx, -⟩ | ⟨v, hv, -, -, -, done, rest, hsplit, hrest, hextends, -⟩
    · rw [hfeed] at hx
      cases hx
    · rw [hfeed, Except.ok.injEq] at hv
      rw [← hv, helements, hrest rfl, List.append_nil] at hsplit
      rw [hextends.elements, ← hsplit]
      decide

end StreamGauge
