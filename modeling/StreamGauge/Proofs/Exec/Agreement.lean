import StreamGauge.Proofs.Exec.Run

/-!
# Runs and the layout of their inputs

`run_agree`: a query without averages does the same over inputs that show the same elements,
whether they lie in blocks or not.

Only a fold sees the blocks of a view. A fold a block at a time adds integers, so what it gives for
a sum or a count is determined by the elements (`windowEmission_agree`). An average is not: it
converts the sum of a block to a double at once. Every other operator reads the elements alone, and
the region of a nested query is the same on both sides (`InputsAlike.emissions_query`).
-/

namespace StreamGauge

/-! ## Views of the same elements -/

/-- The views show the same elements, in whatever layout. -/
structure View.Agrees (v v' : View) : Prop where
  size : v.size = v'.size
  kind : v.kind = v'.kind
  span : ∀ i < v.size, v.span? i = v'.span? i
  value : ∀ i < v.size, v.value? i = v'.value? i

/-- The views agree, and nothing in them overflows. -/
structure View.Alike (v v' : View) : Prop where
  valid : v.Valid
  valid' : v'.Valid
  noOverflow : v.NoOverflow
  noOverflow' : v'.NoOverflow
  agrees : v.Agrees v'

namespace View

variable {v v' : View}

theorem Alike.of_plain {r : PlainRegion} (h : r.Valid) : (plain r).Alike (plain r) :=
  ⟨h, h, trivial, trivial, rfl, rfl, fun _ _ => rfl, fun _ _ => rfl⟩

theorem Alike.elements_eq (h : v.Alike v') : v.elements = v'.elements := by
  apply List.ext_getElem?
  intro i
  rw [getElem?_elements h.valid, getElem?_elements h.valid', ← h.agrees.size]
  by_cases hi : i < v.size
  · rw [if_pos hi, if_pos hi, element?, element?, h.agrees.span i hi, h.agrees.value i hi]
  · rw [if_neg hi, if_neg hi]

theorem Alike.elements_feed (h : v.Alike v') : v.feed.elements = v'.feed.elements :=
  congrArg List.toArray h.elements_eq

end View

/-! ## Folds -/

section

variable {v v' : View} {reducer : Reducer} {lo hi : Nat}

theorem Feed.foldElements_congr {f f' : Feed} (h : f.elements = f'.elements) (lo hi : Nat)
    (t : Tally) : f.foldElements lo hi t = f'.foldElements lo hi t := by
  unfold foldElements
  rw [h]

/-- The elements of blocks are integers. -/
theorem View.not_isFloat_of_blocked {r : BlockedRegion} (h : r.Valid) :
    ((valuesOf ((View.blocked r).feed.elements.extract lo hi).toList).any (·.isFloat)) = false := by
  rw [List.any_eq_false]
  intro x hx
  obtain ⟨e, he, hex⟩ := List.mem_filterMap.mp hx
  obtain ⟨i, -, -, -, hv⟩ := mem_extract (v := .blocked r) h he
  rw [hex] at hv
  obtain ⟨n, -, rfl⟩ := Option.map_eq_some_iff.mp hv.symm
  exact Bool.false_ne_true

/-- A fold takes the elements one by one, or it adds integers. -/
theorem View.fold_cases (h : v.Valid) (reducer : Reducer) (lo hi : Nat) :
    v.feed.fold reducer lo hi = v.feed.foldElements lo hi .empty ∨
      reducer.foldsBlocks = true ∧
        (valuesOf (v.feed.elements.extract lo hi).toList).any (·.isFloat) = false := by
  cases v with
  | plain r => exact .inl rfl
  | blocked r =>
    by_cases hfolds : reducer.foldsBlocks = true
    · exact .inr ⟨hfolds, not_isFloat_of_blocked h⟩
    · exact .inl (if_neg hfolds)

/-- Whole blocks and single elements lead to the same emission, unless it is an average. -/
theorem windowEmission_agree (h : v.Alike v') (haverage : reducer ≠ .average) (hhi : hi ≤ v.size)
    (tick : Int) :
    windowEmission v.feed reducer tick lo hi = windowEmission v'.feed reducer tick lo hi := by
  obtain ⟨t, ht, hmatches⟩ := (@View.NoOverflow.summable v reducer lo hi h.noOverflow h.valid
    hhi).fold_matches h.valid hhi
  have hhi' : hi ≤ v'.size := by
    rw [← h.agrees.size]
    exact hhi
  obtain ⟨t', ht', hmatches'⟩ := (@View.NoOverflow.summable v' reducer lo hi h.noOverflow' h.valid'
    hhi').fold_matches h.valid' hhi'
  -- An integer result is determined by the values, which are the same on both sides.
  have hinteger : reducer.foldsBlocks = true →
      (valuesOf (v.feed.elements.extract lo hi).toList).any (·.isFloat) = false →
      t.finish reducer = t'.finish reducer := by
    intro hfolds hints
    rw [← h.elements_feed] at hmatches'
    have hsome : ∃ y, reducer.integer? (valuesOf (v.feed.elements.extract lo hi).toList) =
        some y := by
      cases reducer with
      | sum => exact ⟨_, by rw [Reducer.integer?, hints]; rfl⟩
      | count => exact ⟨_, rfl⟩
      | average => exact absurd rfl haverage
      | variance | deviationState => cases hfolds
    obtain ⟨y, hy⟩ := hsome
    have hnone := hmatches.finish_eq_none_iff reducer
    have hnone' := hmatches'.finish_eq_none_iff reducer
    cases hfinish : t.finish reducer with
    | none => exact (hnone'.mpr (hnone.mp hfinish)).symm
    | some x =>
      cases hfinish' : t'.finish reducer with
      | none =>
        rw [hnone.mpr (hnone'.mp hfinish')] at hfinish
        cases hfinish
      | some x' =>
        rw [hmatches.finish_integer hfinish hy, hmatches'.finish_integer hfinish' hy]
  have hfinish : t.finish reducer = t'.finish reducer := by
    rcases View.fold_cases h.valid reducer lo hi with hone | ⟨hfolds, hints⟩
    · rcases View.fold_cases h.valid' reducer lo hi with hone' | ⟨hfolds, hints⟩
      · rw [hone, Feed.foldElements_congr h.elements_feed, ← hone', ht'] at ht
        cases ht
        rfl
      · rw [← h.elements_feed] at hints
        exact hinteger hfolds hints
    · exact hinteger hfolds hints
  simp only [windowEmission, ht, ht', hfinish]

/-! ## Windows -/

theorem skipStopped_le_size {es : Array Element} {limit i : Nat} (time : Int)
    (hlimit : limit ≤ es.size) (hi : i ≤ es.size) : skipStopped es limit time i ≤ es.size := by
  rcases Nat.le_total i limit with hle | hge
  · exact Nat.le_trans (skipStopped_le es time hle).2 hlimit
  · rw [skipStopped, if_neg (Nat.not_lt.mpr hge)]
    exact hi

theorem windowFrom_agree (h : v.Alike v') (haverage : reducer ≠ .average) {last : Nat}
    (hlast : last ≤ v.size) (length period : Int) (count : Nat) (tick : Int) (lo : Nat)
    (hhi : hi ≤ v.size) :
    windowFrom v.feed length period reducer last count tick lo hi =
      windowFrom v'.feed length period reducer last count tick lo hi := by
  have hsize : v.feed.elements.size = v.size := View.length_elements h.valid
  induction count generalizing tick lo hi with
  | zero => rw [windowFrom, windowFrom]
  | succ count ih =>
    have hnext := @skipStopped_le_size v.feed.elements last hi tick (by omega) (by omega)
    rw [hsize] at hnext
    rw [windowFrom, windowFrom, ← h.elements_feed]
    simp only [windowEmission_agree h haverage hnext]
    congr 1
    funext _
    exact ih _ _ hnext

theorem window_agree (h : v.Alike v') (haverage : reducer ≠ .average)
    (length period start stop : Int) :
    window length period reducer v.feed start stop =
      window length period reducer v'.feed start stop := by
  have hsize : v.feed.elements.size = v.size := View.length_elements h.valid
  have hle : ∀ time, startIndex v.feed.elements time ≤ v.size := by
    intro time
    rw [← hsize]
    exact startIndex_le _ time
  unfold window rangeOf
  rw [← h.elements_feed]
  exact windowFrom_agree h haverage (hle stop) length period _ _ _ (hle start)

end

/-! ## Queries -/

mutual

/-- No window computes an average. -/
def Query.NoAverage : Query → Prop
  | .select source _ _ => source.NoAverage
  | .filter source _ => source.NoAverage
  | .window source _ _ reducer _ => reducer ≠ .average ∧ source.NoAverage
  | .join left right _ _ _ => left.NoAverage ∧ right.NoAverage

@[inherit_doc Query.NoAverage]
def Source.NoAverage : Source → Prop
  | .input _ => True
  | .query q => q.NoAverage

end

/-- The inputs are alike slot by slot. -/
structure InputsAlike (inputs inputs' : List View) : Prop where
  length : inputs.length = inputs'.length
  alike : ∀ (slot : Nat) (v v' : View), inputs[slot]? = some v → inputs'[slot]? = some v' →
    v.Alike v'

/-- Two sources end for the same reason, or they give the elements of views that are alike. -/
def FeedsAlike (r r' : Except ExecError Feed) : Prop :=
  (∃ x, r = .error x ∧ r' = .error x) ∨
    ∃ v v' : View, r = .ok v.feed ∧ r' = .ok v'.feed ∧ v.Alike v'

/-- What goes on from sources that are alike is the same, if it is for views that are alike. -/
theorem FeedsAlike.bind {α : Type} {r r' : Except ExecError Feed}
    {f f' : Feed → Except ExecError α} (h : FeedsAlike r r')
    (hf : ∀ v v' : View, v.Alike v' → f v.feed = f' v'.feed) : (r >>= f) = (r' >>= f') := by
  rcases h with ⟨x, rfl, rfl⟩ | ⟨v, v', rfl, rfl, halike⟩
  · rfl
  · exact hf v v' halike

theorem FeedsAlike.of_ok {r : Except ExecError Feed}
    (h : ∀ f, r = .ok f → ∃ v : View, v.Alike v ∧ f = v.feed) : FeedsAlike r r := by
  cases r with
  | error x => exact .inl ⟨x, rfl, rfl⟩
  | ok f =>
    obtain ⟨v, hv, rfl⟩ := h f rfl
    exact .inr ⟨v, v, rfl, rfl, hv⟩

/-- The region of a nested query gives a view that is like itself. -/
theorem feedsAlike_nested {kind : Kind} {start : Int} {bound : Except ExecError Nat}
    {emissions : Except ExecError (Sequence Emission)} :
    let nested : Except ExecError Feed := do
      let region ← scratch kind (← bound) start
      let (region, ended) := region.play (← emissions)
      ended
      Feed.ofView (.plain region)
    FeedsAlike nested nested := by
  refine FeedsAlike.of_ok fun f hf => ?_
  obtain ⟨n, -, hf⟩ := eq_ok_of_bind hf
  obtain ⟨r, hr, hf⟩ := eq_ok_of_bind hf
  obtain ⟨s, -, hf⟩ := eq_ok_of_bind hf
  obtain ⟨_, -, hf⟩ := eq_ok_of_bind hf
  have hvalid := ((reachable_scratch hr).play s).valid
  rw [View.ofView_eq (v := .plain (r.play s).1) hvalid] at hf
  cases hf
  exact ⟨_, .of_plain hvalid, rfl⟩

namespace InputsAlike

variable {inputs inputs' : List View} {start stop : Int}

/-- A slot is empty on both sides, or it has views that are alike. -/
theorem slot_cases (h : InputsAlike inputs inputs') (slot : Nat) :
    inputs[slot]? = none ∧ inputs'[slot]? = none ∨
      ∃ v v', inputs[slot]? = some v ∧ inputs'[slot]? = some v' ∧ v.Alike v' := by
  have hlength := h.length
  by_cases hslot : slot < inputs.length
  · have hv := List.getElem?_eq_getElem hslot
    have hv' := List.getElem?_eq_getElem (show slot < inputs'.length by omega)
    exact .inr ⟨_, _, hv, hv', h.alike slot _ _ hv hv'⟩
  · exact .inl ⟨List.getElem?_eq_none (by omega), List.getElem?_eq_none (by omega)⟩

theorem kinds_eq (h : InputsAlike inputs inputs') :
    inputs.map (·.kind) = inputs'.map (·.kind) := by
  apply List.ext_getElem?
  intro slot
  rw [List.getElem?_map, List.getElem?_map]
  rcases h.slot_cases slot with ⟨hv, hv'⟩ | ⟨v, v', hv, hv', halike⟩
  · rw [hv, hv']
  · rw [hv, hv', Option.map_some, Option.map_some, halike.agrees.kind]

mutual

theorem bound_query (h : InputsAlike inputs inputs') (start stop : Int) (q : Query) :
    q.bound inputs start stop = q.bound inputs' start stop := by
  match q with
  | .select source _ _ => exact h.bound_source start stop source
  | .filter source _ => exact h.bound_source start stop source
  | .window _ _ _ _ _ => rfl
  | .join left right _ _ _ =>
    simp only [Query.bound, h.bound_source start stop left, h.bound_source start stop right]

theorem bound_source (h : InputsAlike inputs inputs') (start stop : Int) (s : Source) :
    s.bound inputs start stop = s.bound inputs' start stop := by
  match s with
  | .input slot =>
    simp only [Source.bound, inputAt]
    rcases h.slot_cases slot with ⟨hv, hv'⟩ | ⟨v, v', hv, hv', halike⟩
    · rw [hv, hv']
    · rw [hv, hv']
      exact congrArg Except.ok halike.agrees.size
  | .query q => exact h.bound_query start stop q

end

mutual

/-- A query does the same over inputs that are alike. -/
theorem emissions_query (h : InputsAlike inputs inputs') (start stop : Int) (q : Query)
    (haverage : q.NoAverage) :
    q.emissions inputs start stop = q.emissions inputs' start stop := by
  match q with
  | .select source expr _ =>
    refine (h.feed_source start stop source haverage).bind fun v v' halike => ?_
    rw [halike.elements_feed]
  | .filter source predicate =>
    refine (h.feed_source start stop source haverage).bind fun v v' halike => ?_
    rw [halike.elements_feed]
  | .window source length period reducer _ =>
    refine (h.feed_source start stop source haverage.2).bind fun v v' halike => ?_
    rw [window_agree halike haverage.1]
  | .join left right expr fill? _ =>
    refine (h.feed_source start stop left haverage.1).bind fun v v' halike => ?_
    refine (h.feed_source start stop right haverage.2).bind fun w w' halike' => ?_
    simp only [outerJoinIn, halike.elements_feed, halike'.elements_feed]

/-- Its sources are alike. -/
theorem feed_source (h : InputsAlike inputs inputs') (start stop : Int) (s : Source)
    (haverage : s.NoAverage) :
    FeedsAlike (s.feed inputs start stop) (s.feed inputs' start stop) := by
  match s with
  | .input slot =>
    rcases h.slot_cases slot with ⟨hv, hv'⟩ | ⟨v, v', hv, hv', halike⟩
    · simp only [Source.feed, inputAt, hv, hv']
      exact .inl ⟨_, rfl, rfl⟩
    · rw [View.feed_input hv halike.valid, View.feed_input hv' halike.valid']
      exact .inr ⟨v, v', rfl, rfl, halike⟩
  | .query q =>
    simp only [Source.feed]
    rw [← h.kinds_eq, ← h.length, ← h.bound_query start stop q,
      ← h.emissions_query start stop q haverage]
    cases q.outputKind? (inputs.map (·.kind)) with
    | none => exact .inl ⟨_, rfl, rfl⟩
    | some kind => exact feedsAlike_nested

end

end InputsAlike

/-! ## The run -/

section

variable {inputs inputs' : List View} {start stop : Int}

/-- Over inputs that show the same elements, in blocks or not, a query without averages ends in the
same way and leaves the same output region. -/
theorem run_agree {q : Query} (hlength : inputs.length = inputs'.length)
    (hagree : ∀ (slot : Nat) (v v' : View), inputs[slot]? = some v → inputs'[slot]? = some v' →
      v.Agrees v')
    (hreach : ∀ v ∈ inputs, v.Reachable) (hreach' : ∀ v ∈ inputs', v.Reachable)
    (hno : ∀ v ∈ inputs, v.NoOverflow) (hno' : ∀ v ∈ inputs', v.NoOverflow)
    (haverage : q.NoAverage) (out : PlainRegion) :
    q.run inputs start stop out = q.run inputs' start stop out := by
  have halike : InputsAlike inputs inputs' := by
    refine ⟨hlength, fun slot v v' hv hv' => ?_⟩
    have hmem := List.mem_of_getElem? hv
    have hmem' := List.mem_of_getElem? hv'
    exact ⟨(hreach v hmem).valid, (hreach' v' hmem').valid, hno v hmem, hno' v' hmem',
      hagree slot v v' hv hv'⟩
  unfold Query.run
  rw [halike.emissions_query start stop q haverage]

/-- Two elements, as a block and one by one: the nested window takes the block as a whole, the
outer one reads the result together with the elements. -/
theorem run_agree_of_pair :
    let q : Query := .window (.query (.join (.query (.window (.input 0) 2 2 .sum .i64)) (.input 0)
      (.binary .sub (.input 0) (.input 1)) none .i64)) 1 1 .count .i64
    let block := BlockedRegion.pair 100 7
    let plain := ((PlainRegion.allocate .i64 2 0).record ⟨0, 1⟩ (.int 100)).record ⟨1, 1⟩
      (.int 107)
    let out := PlainRegion.allocate .i64 4 0
    q.run [.blocked block] 0 2 out = q.run [.plain plain] 0 2 out := by
  intro q block plain out
  have hplain : plain.Reachable :=
    .record (.record (@PlainRegion.Reachable.allocate .i64 2 0 _ rfl) (by decide) _) (by decide) _
  have hblock : block.NoOverflow := by
    refine ⟨by decide, fun k hk hend => ?_⟩
    have hfirst : k = 0 := by
      change k * 2 + _ ≤ 2 at hend
      omega
    subst hfirst
    decide
  have hagree : (View.blocked block).Agrees (.plain plain) :=
    ⟨rfl, rfl, by decide, by decide⟩
  have hall : ∀ {P : View → Prop} {v : View}, P v → ∀ w ∈ [v], P w :=
    fun h w hw => by rwa [List.mem_singleton.mp hw]
  refine @run_agree [.blocked block] [.plain plain] 0 2 q rfl (fun slot v v' hv hv' => ?_)
    (hall (BlockedRegion.reachable_pair _ _)) (hall hplain) (hall hblock) (hall trivial)
    ⟨nofun, ⟨nofun, trivial⟩, trivial⟩ out
  obtain ⟨hlt, rfl⟩ := List.getElem?_eq_some_iff.mp hv
  obtain rfl : slot = 0 := Nat.lt_one_iff.mp hlt
  cases hv'
  exact hagree

end

end StreamGauge
