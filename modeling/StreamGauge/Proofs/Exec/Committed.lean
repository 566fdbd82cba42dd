import Mathlib.Data.List.Basic
import StreamGauge.Proofs.Exec.Appending
import StreamGauge.Proofs.Exec.Completion

/-!
# What queries commit

The elements that a query commits (`Query.committed`) are those that a run appends
(`Query.extends_committed`), and those that a query around it reads (`Source.Gives.committed`).

* A window over plain elements commits the results of its reducer, each with the time between two
  ticks (`Query.committed_window`). A reducer takes elements one by one (`Reducer.result`).
* An inner join commits one element for each overlap (`Query.committed_innerJoin`).
-/

namespace StreamGauge

/-! ## Results of reducers -/

/-- The result of a reducer over elements, taken one by one. -/
def Reducer.result (reducer : Reducer) (es : List Element) : Option Value :=
  ((valuesOf es).foldl Tally.push .empty).finish reducer

theorem Tally.Matches.foldl {t : Tally} {vs : List Value} (h : t.Matches vs) (ws : List Value) :
    (ws.foldl Tally.push t).Matches (vs ++ ws) := by
  induction ws generalizing t vs with
  | nil =>
    rw [List.append_nil]
    exact h
  | cons w ws ih =>
    have hnext := ih (h.push w)
    rwa [List.append_assoc] at hnext

/-- Without elements, most reducers have no result. -/
theorem Reducer.result_eq_none_iff {reducer : Reducer} {es : List Element}
    (h : ∀ e ∈ es, e.value?.isSome) :
    reducer.result es = none ↔ es = [] ∧ reducer.emitsEmpty = false := by
  have hnil : valuesOf es = [] ↔ es = [] := by
    rw [← List.length_eq_zero_iff, length_valuesOf h, List.length_eq_zero_iff]
  rw [result, (Tally.Matches.empty.foldl (valuesOf es)).finish_eq_none_iff reducer, List.nil_append,
    hnil]

/-- A fold takes elements with values one by one. -/
theorem Feed.foldElements_ok {f : Feed} {lo hi : Nat}
    (hread : ∀ e ∈ (f.elements.extract lo hi).toList, e.value?.isSome) (t : Tally) :
    f.foldElements lo hi t =
      .ok ((valuesOf (f.elements.extract lo hi).toList).foldl Tally.push t) := by
  rw [foldElements_eq]
  generalize (f.elements.extract lo hi).toList = es at hread
  induction es generalizing t with
  | nil => rfl
  | cons e es ih =>
    obtain ⟨hvalue, hread⟩ := List.forall_mem_cons.mp hread
    obtain ⟨v, hv⟩ := Option.isSome_iff_exists.mp hvalue
    rw [List.foldlM_cons, valuesOf_cons hv, List.foldl_cons, ← ih _ hread]
    simp only [Element.read, hv]
    rfl

/-- The emission at a tick of plain elements, where nothing is missing. -/
theorem View.emissionAt_of_plain {v : View} {reducer : Reducer}
    {start stop length period tick : Int} (h : v.Valid) (hwf : v.WellFormed) (hle : start ≤ stop)
    (hlength : 0 < length) (hplain : v.blocks? = none)
    (hs : v.CompleteAt reducer start stop length period tick) :
    emissionAt v.feed length period reducer start stop tick =
      (reducer.result (windowAt v.elements start stop length tick)).elim (.pass tick)
        (.upTo tick) := by
  have horder : InOrder v.feed.elements.toList := hwf.inOrder h
  have hwindow := extract_eq_windowAt horder hle length tick
  have htimes := ((completeAt_iff h hwf hle hlength).mp hs).1
  have hread := hs.value
  change ∀ e ∈ windowAt v.feed.elements.toList start stop length tick, _ at hread
  rw [← hwindow] at hread
  have hfold := Feed.foldElements_ok hread .empty
  rw [hwindow] at hfold
  have hplain' : v.feed.blocks? = none := hplain
  simp only [emissionAt, needing_eq htimes, windowEmission, Feed.fold, hplain', hfold]
  have hresult : ((valuesOf (windowAt v.feed.elements.toList start stop length tick)).foldl
      Tally.push .empty).finish reducer =
        reducer.result (windowAt v.elements start stop length tick) := rfl
  rw [hresult]
  cases reducer.result (windowAt v.elements start stop length tick) <;> rfl

/-- The time of window `k`, from the tick before its own to its own. -/
def tickSpan (start period : Int) (k : Nat) : Span :=
  .between (start + (k - 1 : Nat) * period) (start + k * period)

/-- The results of a reducer at the ticks of a run over `[start, stop)`. -/
def Reducer.windows (reducer : Reducer) (es : List Element) (start stop length period : Int)
    (kind : Kind) : List Element :=
  (tickNumbers start stop period).filterMap fun k : Nat =>
    (reducer.result (windowAt es start stop length (start + k * period))).map fun x =>
      ⟨tickSpan start period k, some (kind.convert x)⟩

section Windows

variable {reducer : Reducer} {es : List Element} {start stop length period : Int} {kind : Kind}

theorem Reducer.mem_windows {e : Element} :
    e ∈ reducer.windows es start stop length period kind ↔
      ∃ k ∈ tickNumbers start stop period, ∃ x,
        reducer.result (windowAt es start stop length (start + k * period)) = some x ∧
          e = ⟨tickSpan start period k, some (kind.convert x)⟩ := by
  simp only [windows, List.mem_filterMap, Option.map_eq_some_iff, eq_comm (a := e)]

/-- There is an element for each tick where the reducer has a result. -/
theorem Reducer.spans_windows (h : ∀ e ∈ es, e.value?.isSome) :
    (reducer.windows es start stop length period kind).map (·.span) =
      ((tickNumbers start stop period).filter fun k : Nat => reducer.emitsEmpty ||
        !(windowAt es start stop length (start + k * period)).isEmpty).map
          (tickSpan start period) := by
  rw [windows, List.map_filterMap, ← congrFun List.filterMap_eq_map, List.filterMap_filter]
  refine List.filterMap_congr fun k _ => ?_
  have hnone := @result_eq_none_iff reducer (windowAt es start stop length (start + k * period))
    fun e he => h e (List.mem_filter.mp he).1
  cases hresult : reducer.result (windowAt es start stop length (start + k * period)) with
  | none =>
    obtain ⟨hempty, hemits⟩ := hnone.mp hresult
    simp [hempty, hemits]
  | some x =>
    have hsome : (reducer.emitsEmpty ||
        !(windowAt es start stop length (start + k * period)).isEmpty) = true := by
      rw [← Bool.not_eq_false, Bool.or_eq_false_iff, Bool.not_eq_false', List.isEmpty_iff]
      rintro ⟨hemits, hempty⟩
      rw [hnone.mpr ⟨hempty, hemits⟩] at hresult
      cases hresult
    rw [hsome]
    rfl

end Windows

/-! ## Runs and nested queries -/

section

variable {inputs : List View} {start stop : Int} {q : Query} {kind : Kind}

/-- A run that ends well appends what the query commits. -/
theorem Query.extends_committed {out out' : PlainRegion}
    (hrun : q.run inputs start stop out = (out', .ok ())) (hout : out.Valid) :
    out.Extends out' (q.committed inputs start stop out.kind out.stop) := by
  unfold Query.run at hrun
  unfold Query.committed
  cases hs : q.emissions inputs start stop with
  | ok s =>
    obtain ⟨es, hext, -, -, hall⟩ := PlainRegion.play_committed hout s
    rw [hs] at hrun
    simp only at hrun
    rw [hrun] at hext hall
    simp only
    rw [← hall rfl]
    exact hext
  | error x =>
    rw [hs] at hrun
    cases hrun

/-- What a nested query gives to the query around it are the elements that it commits. -/
theorem Source.Gives.committed {P : Int → Prop} {v : View}
    (h : (Source.query q).Gives inputs start stop P v)
    (hkind : q.outputKind? (inputs.map (·.kind)) = some kind) :
    v.blocks? = none ∧ v.elements = q.committed inputs start stop kind start := by
  have hfeed := h.feed
  rw [Source.feed_query, hkind] at hfeed
  obtain ⟨n, -, hfeed⟩ := eq_ok_of_bind hfeed
  obtain ⟨r, hscratch, hfeed⟩ := eq_ok_of_bind hfeed
  obtain ⟨_, hended, hfeed⟩ := eq_ok_of_bind hfeed
  obtain ⟨-, rfl⟩ := scratch_eq_ok_iff.mp hscratch
  have hempty := PlainRegion.valid_allocate kind n start
  have hext := Query.extends_committed (Prod.ext rfl hended) hempty
  rw [View.ofView_eq (v := .plain _) hext.valid] at hfeed
  -- The view is known by its feed only: its elements are those of the region, and it has no blocks.
  have hsame := Except.ok.inj hfeed
  refine ⟨(congrArg Feed.blocks? hsame).symm, ?_⟩
  have helements : (q.run inputs start stop (.allocate kind n start)).1.elements = v.elements :=
    congrArg Array.toList (congrArg Feed.elements hsame)
  rw [← helements, hext.elements]
  rfl

end

/-! ## Windows and joins -/

section

variable {inputs : List View} {start stop : Int} {P Q : Int → Prop} {v u : View}
  {source left right : Source}

/-- A window over plain elements, none of whose times leaves 64 bits. -/
theorem Query.committed_window (h : source.Gives inputs start stop P v) (hplain : v.blocks? = none)
    (hle : start ≤ stop) {length period : Int} (hlength : 0 < length) (hperiod : 0 < period)
    {reducer : Reducer} {output : Kind}
    (htimes : (Query.window source length period reducer output).TimesFit start stop)
    (kind : Kind) :
    (Query.window source length period reducer output).committed inputs start stop kind start =
      reducer.windows v.elements start stop length period kind := by
  obtain ⟨hvalid, hwf, hno⟩ := h.sound
  obtain ⟨-, -, hend, hticks⟩ := htimes
  have hemissions : (Query.window source length period reducer output).emissions inputs start
      stop = .ok (StreamGauge.window length period reducer v.feed start stop) := by
    simp only [Query.emissions, h.feed]
    rfl
  let result (k : Nat) : Option Value :=
    reducer.result (windowAt v.elements start stop length (start + k * period))
  have hemission : ∀ k ∈ List.range' 1 ((stop - start) / period).toNat,
      emissionAt v.feed length period reducer start stop (start + k * period) =
        if (result k).isSome then .upTo (start + k * period) ((result k).getD (.int 0))
        else .pass (start + k * period) := by
    intro k hk
    obtain ⟨htick, hbegin⟩ := hticks k hk
    rw [View.emissionAt_of_plain hvalid hwf hle hlength hplain
      (hno.completeAt hvalid hwf hle hlength htick hbegin)]
    change (result k).elim _ _ = _
    cases result k <;> rfl
  have hplaced := @placed_ticks (fun k => start + k * period) _ start (fun k => (result k).isSome)
    (fun k => (result k).getD (.int 0)) kind 1 ((stop - start) / period).toNat hemission
  simp only [Query.committed, hemissions]
  rw [toList_window (hwf.inOrder hvalid) hperiod hle, endOfRun, if_pos hend, List.append_nil]
  refine hplaced.trans ?_
  rw [← congrFun List.filterMap_eq_map, List.filterMap_filter]
  refine List.filterMap_congr fun k hk => ?_
  -- The run starts where the output stops, so the first window is no exception here.
  have hbegin : (if k = 1 then start else start + (k - 1 : Nat) * period) =
      start + (k - 1 : Nat) * period := by
    split
    case isTrue hone => rw [hone, Nat.sub_self, Int.natCast_zero, Int.zero_mul, Int.add_zero]
    case isFalse => rfl
  simp only [Function.comp_apply, hbegin]
  change _ = (result k).map _
  cases result k <;> rfl

theorem Element.value?_of_read {e : Element} {v : Value} (h : e.read = .ok v) :
    e.value? = some v := by
  unfold read at h
  split at h
  case h_1 x hx =>
    cases h
    exact hx
  case h_2 => cases h

/-- The value of an expression over the values of two elements. -/
def Expr.onPair (expr : Expr) (p : Element × Element) : Option Value :=
  p.1.value?.bind fun a => p.2.value?.bind fun b => (expr.eval [a, b]).toOption

/-- A join of elements with values, by an expression that does not fail. -/
theorem Query.committed_innerJoin (hl : left.Gives inputs start stop P v)
    (hr : right.Gives inputs start stop Q u) (hle : start ≤ stop) {expr : Expr}
    (hexpr : expr.Safe 2) (output kind : Kind) (time : Int) :
    (Query.join left right expr none output).committed inputs start stop kind time =
      (overlaps (v.elementsIn start stop) (u.elementsIn start stop)).map fun p =>
        ⟨overlap p.1 p.2, (expr.onPair p).map kind.convert⟩ := by
  have hleft := hl.sound.readable start stop
  have hright := hr.sound.readable start stop
  have hemissions : (Query.join left right expr none output).emissions inputs start stop =
      .ok (StreamGauge.innerJoin expr (v.elementsIn start stop) (u.elementsIn start stop)) := by
    simp only [Query.emissions, hl.feed, hr.feed, bind, Except.bind,
      View.elementsIn_feed hl.sound.valid hl.sound.wellFormed hle,
      View.elementsIn_feed hr.sound.valid hr.sound.wellFormed hle]
    rfl
  have hvalue : ∀ p ∈ overlaps (v.elementsIn start stop) (u.elementsIn start stop), ∃ x,
      expr.onPair p = some x ∧
        joined expr (overlap p.1 p.2) p.1.read p.2.read = .during (overlap p.1 p.2) x := by
    intro p hp
    obtain ⟨a, ha⟩ := hleft.value p.1 (mem_overlaps hp).1
    obtain ⟨b, hb⟩ := hright.value p.2 (mem_overlaps hp).2.1
    obtain ⟨x, hx⟩ :=
      @Expr.eval_of_dividesByFloats [a, b] expr (Expr.readsBelow_of_check hexpr.check)
        hexpr.division
    refine ⟨x, ?_, ?_⟩
    · simp only [Expr.onPair, Element.value?_of_read ha, Element.value?_of_read hb,
        Option.bind_some, hx]
      rfl
    · rw [ha, hb]
      change Emission.ofResult _ ((expr.eval [a, b]).mapError (·.toExecError)) = _
      rw [hx]
      rfl
  -- `placed_map` takes a value for every pair, so `onPair` gets one outside the join.
  have hduring : ∀ p ∈ overlaps (v.elementsIn start stop) (u.elementsIn start stop),
      joined expr (overlap p.1 p.2) p.1.read p.2.read =
        .during (overlap p.1 p.2) ((expr.onPair p).getD (.int 0)) := by
    intro p hp
    obtain ⟨x, hx, hjoined⟩ := hvalue p hp
    rw [hjoined, hx]
    rfl
  simp only [Query.committed, hemissions]
  rw [toList_innerJoin, placed_map kind hduring]
  refine List.map_congr_left fun p hp => ?_
  obtain ⟨x, hx, -⟩ := hvalue p hp
  rw [hx]
  rfl

end

end StreamGauge
