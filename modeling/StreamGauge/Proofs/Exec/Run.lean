import StreamGauge.Proofs.Exec.JoinRun
import StreamGauge.Proofs.Exec.Pointwise
import StreamGauge.Proofs.Exec.WindowRun

/-!
# Runs of checked queries

`run_ends`: a checked query over well-formed inputs runs into an output with room for its bound
until it is done, or until an expression divides by zero. It has one other way to stop: a nested
query whose bound no buffer can hold.

The proof goes over the tree. A source yields a view that is as sound as the inputs and keeps to
its bound (`Source.feed_yields`), so that each operator's emissions are orderly
(`Query.emissions_yields`), and the region of a nested query takes them all.
-/

namespace StreamGauge

/-! ## Outcomes -/

theorem eq_ok_of_map {ε α β : Type} {f : α → β} {x : Except ε α} {b : β} (h : x.map f = .ok b) :
    ∃ a, x = .ok a ∧ f a = b := by
  cases x with
  | error e => cases h
  | ok a =>
    cases h
    exact ⟨a, rfl, rfl⟩

theorem eq_error_of_map {ε α β : Type} {f : α → β} {x : Except ε α} {e : ε}
    (h : x.map f = .error e) : x = .error e := by
  cases x with
  | error e' =>
    cases h
    rfl
  | ok a => cases h

/-- Why a checked query can stop: it divides by zero, or a nested query needs more slots than any
buffer has. -/
def ExecError.Expected (fit : Prop) (x : ExecError) : Prop :=
  x = .divisionByZero ∨
    ¬ fit ∧ ∃ n, x = .fault (.noBuffer n) ∧ SpanLog.fits (slotCapacity n) = false

/-- A computation gives a result with a property, or it stops for an expected reason. -/
def Yields {α : Type} (r : Except ExecError α) (fit : Prop) (P : α → Prop) : Prop :=
  (∃ a, r = .ok a ∧ P a) ∨ ∃ x, r = .error x ∧ x.Expected fit

namespace Yields

variable {α β : Type} {r : Except ExecError α} {fit fit' : Prop} {P : α → Prop} {Q : β → Prop}

theorem pure {a : α} (h : P a) : Yields (.ok a) fit P := .inl ⟨a, rfl, h⟩

theorem mono (h : Yields r fit P) (himp : fit' → fit) : Yields r fit' P := by
  rcases h with hok | ⟨x, hx, hdiv | ⟨hfit, hbuffer⟩⟩
  · exact .inl hok
  · exact .inr ⟨x, hx, .inl hdiv⟩
  · exact .inr ⟨x, hx, .inr ⟨mt himp hfit, hbuffer⟩⟩

theorem bind {f : α → Except ExecError β} (h : Yields r fit P)
    (hf : ∀ a, P a → Yields (f a) fit Q) : Yields (r >>= f) fit Q := by
  rcases h with ⟨a, rfl, ha⟩ | ⟨x, rfl, hx⟩
  · exact hf a ha
  · exact .inr ⟨x, rfl, hx⟩

end Yields

/-! ## What a run presumes -/

/-- A view that operators can read: its elements follow each other, and nothing in it overflows. -/
structure View.Sound (v : View) : Prop where
  valid : v.Valid
  wellFormed : v.WellFormed
  noOverflow : v.NoOverflow

mutual

/-- Every time that a run over `[start, stop)` computes is within 64 bits: the length of the range,
the ticks, the one that ends the run among them, and where the windows begin. -/
def Query.TimesFit (start stop : Int) : Query → Prop
  | .select source _ _ => source.TimesFit start stop
  | .filter source _ => source.TimesFit start stop
  | .window source length period _ _ =>
    source.TimesFit start stop ∧ isInt64 (stop - start) = true ∧
      isInt64 (endTick start stop period) = true ∧
      ∀ k ∈ tickNumbers start stop period, isInt64 (start + k * period) = true ∧
        isInt64 (start + k * period - length) = true
  | .join left right _ _ _ => left.TimesFit start stop ∧ right.TimesFit start stop

@[inherit_doc Query.TimesFit]
def Source.TimesFit (start stop : Int) : Source → Prop
  | .input _ => True
  | .query q => q.TimesFit start stop

end

mutual

/-- There is a buffer for the bound of every nested query. -/
def Query.BuffersFit (inputs : List View) (start stop : Int) : Query → Prop
  | .select source _ _ => source.BuffersFit inputs start stop
  | .filter source _ => source.BuffersFit inputs start stop
  | .window source _ _ _ _ => source.BuffersFit inputs start stop
  | .join left right _ _ _ =>
    left.BuffersFit inputs start stop ∧ right.BuffersFit inputs start stop

@[inherit_doc Query.BuffersFit]
def Source.BuffersFit (inputs : List View) (start stop : Int) : Source → Prop
  | .input _ => True
  | .query q => q.BuffersFit inputs start stop ∧
      ∀ n, q.bound inputs start stop = .ok n → SpanLog.fits (slotCapacity n) = true

end

theorem Query.outputKind?_isSome (q : Query) {kinds : List Kind} (h : q.arity ≤ kinds.length) :
    (q.outputKind? kinds).isSome := by
  match q with
  | .select _ _ _ => rfl
  | .filter (.input slot) _ =>
    have hslot : slot < kinds.length := h
    simp [outputKind?, Source.outputKind?, List.getElem?_eq_getElem hslot]
  | .filter (.query q') _ => exact q'.outputKind?_isSome h
  | .window _ _ _ _ _ => rfl
  | .join _ _ _ _ _ => rfl

/-! ## Nested regions -/

section

variable {inputs : List View} {start stop : Int}

/-- The region of a nested query comes about if there is a buffer for its bound. -/
theorem scratch_eq_ok_iff {kind : Kind} {n : Nat} {r : PlainRegion} :
    scratch kind n start = .ok r ↔
      SpanLog.fits (slotCapacity n) = true ∧ PlainRegion.allocate kind n start = r := by
  rw [← PlainRegion.allocate?_eq_some_iff, scratch]
  cases PlainRegion.allocate? kind n start <;> simp

theorem reachable_scratch {kind : Kind} {n : Nat} {r : PlainRegion}
    (h : scratch kind n start = .ok r) : r.Reachable :=
  .allocate (PlainRegion.allocate?_eq_some_iff.mpr (scratch_eq_ok_iff.mp h))

/-- An output region for a bound takes the emissions of a nested query, and its view is sound. -/
theorem nested_yields {n : Nat} {kind : Kind} {fit : Prop}
    {emissions : Except ExecError (Sequence Emission)}
    (h : Yields emissions fit fun s => Orderly start n s.toList)
    (hfit : fit → SpanLog.fits (slotCapacity n) = true) :
    Yields (do
      let region ← scratch kind n start
      let (region, ended) := region.play (← emissions)
      ended
      Feed.ofView (.plain region)) fit
      fun f => ∃ v : View, f = v.feed ∧ v.Sound ∧ v.size ≤ n := by
  cases hbuffer : SpanLog.fits (slotCapacity n) with
  | false =>
    have hscratch : scratch kind n start = .error (.fault (.noBuffer n)) := by
      simp only [scratch, PlainRegion.allocate?, hbuffer]
      rfl
    rw [hscratch]
    -- No buffer holds the bound, so `fit` does not hold either: the disjunct says both.
    refine .inr ⟨_, rfl, .inr ⟨fun hf => ?_, n, rfl, hbuffer⟩⟩
    rw [hfit hf] at hbuffer
    cases hbuffer
  | true =>
    rw [scratch_eq_ok_iff.mpr ⟨hbuffer, rfl⟩]
    -- The region starts empty at `start`, so the whole bound is room for the emissions.
    refine h.bind fun s hs => ?_
    obtain ⟨r, ended, hplay, hvalid, -, hcount, hended⟩ :=
      hs.play (PlainRegion.valid_allocate kind n start) (Int.le_refl _) (by
        have := le_leastPowerOfTwo n
        change 0 + n ≤ slotCapacity n
        unfold slotCapacity
        omega)
    simp only [hplay]
    rcases hended with rfl | rfl
    · refine .inl ⟨(View.plain r).feed, View.ofView_eq (v := .plain r) hvalid, .plain r, rfl,
        ⟨hvalid, hvalid.wellFormed, trivial⟩, ?_⟩
      change r.count ≤ n
      have hzero : (PlainRegion.allocate kind n start).count = 0 := rfl
      omega
    · exact .inr ⟨_, rfl, .inl rfl⟩

/-- The view of a nested query is the region that it has run into. -/
theorem Source.feed_query (q : Query) :
    Source.feed inputs start stop (.query q) =
      match q.outputKind? (inputs.map (·.kind)) with
      | none => .error (.missingInput q.arity inputs.length)
      | some kind => (do
        let n ← q.bound inputs start stop
        let region ← scratch kind n start
        (q.run inputs start stop region).2
        Feed.ofView (.plain (q.run inputs start stop region).1)) := by
  simp only [Source.feed]
  cases q.outputKind? (inputs.map (·.kind)) with
  | none => rfl
  | some kind =>
    cases q.bound inputs start stop with
    | error x => rfl
    | ok n =>
      cases hscratch : scratch kind n start with
      | error x => simp only [bind, Except.bind, hscratch]
      | ok region =>
        simp only [bind, Except.bind, hscratch, Query.run]
        cases q.emissions inputs start stop <;> rfl

/-! ## Operators over sound views -/

/-- What operators read of a sound view. -/
theorem View.Sound.readable {v : View} (h : v.Sound) (start stop : Int) :
    Readable start (v.elementsIn start stop) where
  inOrder := inOrder_elementsIn h.valid h.wellFormed
  start_le e he := start_le_of_elementsIn he
  value e he := by
    obtain ⟨x, hx⟩ := Option.isSome_iff_exists.mp
      (h.noOverflow.value?_isSome h.valid e (List.mem_filter.mp he).1)
    exact ⟨x, by rw [Element.read, hx]⟩

theorem tickBound_eq {period : Int} (hle : start ≤ stop) (hperiod : 0 < period)
    (hfits : isInt64 (stop - start) = true) :
    tickBound start stop period = .ok (((stop - start) / period).toNat + 1) := by
  have hquotient : (max (stop - start) 0).tdiv period = (stop - start) / period := by
    rw [Int.max_eq_left (by omega), Int.tdiv_eq_ediv_of_nonneg (by omega)]
  have hnonneg : 0 ≤ (stop - start) / period := Int.ediv_nonneg (by omega) (by omega)
  unfold tickBound
  simp only [hquotient, hfits]
  rw [if_neg (by simp), if_neg (by omega)]

/-- A window over a sound view commits no more elements than it has ticks, and it ends well. -/
theorem orderly_window {v : View} {length period : Int} {reducer : Reducer} (h : v.Sound)
    (hle : start ≤ stop) (hlength : 0 < length) (hperiod : 0 < period)
    (hend : isInt64 (endTick start stop period) = true)
    (hticks : ∀ k ∈ tickNumbers start stop period, isInt64 (start + k * period) = true ∧
      isInt64 (start + k * period - length) = true) :
    Orderly start ((stop - start) / period).toNat
      (window length period reducer v.feed start stop).toList where
  ascending := View.ascending_window h.valid h.wellFormed hle hperiod (Int.le_refl _)
  count := by
    refine Nat.le_trans
      (View.countP_window_le h.valid h.wellFormed hle hlength hperiod) ?_
    refine Nat.le_trans (List.length_filter_le _ _) ?_
    exact Nat.le_of_eq List.length_range'
  halts x hx := by
    have hcomplete : v.Complete reducer start stop length period :=
      ⟨fun k hk => h.noOverflow.completeAt h.valid h.wellFormed hle hlength (hticks k hk).1
        (hticks k hk).2, hend⟩
    have hnone := (View.halts_window h.valid h.wellFormed hle hlength hperiod).1.mp hcomplete _ hx
    cases hnone

mutual

/-- A checked query has a bound, and its emissions keep to it. -/
theorem Query.emissions_yields (hin : ∀ v ∈ inputs, v.Sound) (hle : start ≤ stop) (q : Query)
    (hcheck : q.check = .ok ()) (harity : q.arity ≤ inputs.length)
    (htimes : q.TimesFit start stop) :
    ∃ n, q.bound inputs start stop = .ok n ∧
      Yields (q.emissions inputs start stop) (q.BuffersFit inputs start stop)
        fun s => Orderly start n s.toList := by
  -- Mutual with `feed_yields`, on the nesting: a source gives a sound view of a size that is
  -- bounded, and the operator over it emits in order, within its own bound.
  match q with
  | .select source expr output =>
    obtain ⟨_, hexpr, hsource⟩ := eq_ok_of_bind hcheck
    obtain ⟨n, hbound, hfeed⟩ := source.feed_yields hin hle hsource harity htimes
    refine ⟨n, hbound, ?_⟩
    simp only [Query.emissions]
    refine hfeed.bind fun f hf => ?_
    obtain ⟨v, rfl, hv, hn⟩ := hf
    rw [View.elementsIn_feed hv.valid hv.wellFormed hle]
    have horderly := orderly_select (hv.readable start stop) hexpr
    exact .pure (horderly.mono (Nat.le_trans (View.length_elementsIn_le hv.valid) hn))
  | .filter source predicate =>
    obtain ⟨_, hexpr, hsource⟩ := eq_ok_of_bind hcheck
    obtain ⟨n, hbound, hfeed⟩ := source.feed_yields hin hle hsource harity htimes
    refine ⟨n, hbound, ?_⟩
    simp only [Query.emissions]
    refine hfeed.bind fun f hf => ?_
    obtain ⟨v, rfl, hv, hn⟩ := hf
    rw [View.elementsIn_feed hv.valid hv.wellFormed hle]
    have horderly := orderly_filter (hv.readable start stop) hexpr
    exact .pure (horderly.mono (Nat.le_trans (View.length_elementsIn_le hv.valid) hn))
  | .window source length period reducer output =>
    simp only [Query.check] at hcheck
    split at hcheck
    case isTrue => cases hcheck
    case isFalse hpositive =>
      obtain ⟨hsourceTimes, hrange, hend, hticks⟩ := htimes
      -- The bound is the number of ticks, whatever the size of the source.
      obtain ⟨_, _, hfeed⟩ := source.feed_yields hin hle hcheck harity hsourceTimes
      refine ⟨_, tickBound_eq hle (by omega) hrange, ?_⟩
      simp only [Query.emissions]
      refine hfeed.bind fun f hf => ?_
      obtain ⟨v, rfl, hv, -⟩ := hf
      have horderly := @orderly_window start stop v length period reducer hv hle (by omega)
        (by omega) hend hticks
      exact .pure (horderly.mono (Nat.le_succ _))
  | .join left right expr fill? output =>
    obtain ⟨_, hexpr, hsources⟩ := eq_ok_of_bind hcheck
    obtain ⟨_, hleft, hright⟩ := eq_ok_of_bind hsources
    have harity' : max left.arity right.arity ≤ inputs.length := harity
    obtain ⟨n, hn, hl⟩ := left.feed_yields hin hle hleft (by omega) htimes.1
    obtain ⟨m, hm, hr⟩ := right.feed_yields hin hle hright (by omega) htimes.2
    refine ⟨if fill?.isSome then 2 * (n + m) else n + m, ?_, ?_⟩
    · simp only [Query.bound, hn, hm]
      rfl
    simp only [Query.emissions]
    -- `BuffersFit` of a join is a conjunction, and a failed side needs only its own half to fail.
    refine (hl.mono And.left).bind fun f hf => (hr.mono And.right).bind fun g hg => ?_
    obtain ⟨v, rfl, hv, hvn⟩ := hf
    obtain ⟨w, rfl, hw, hwm⟩ := hg
    have hlv := @View.length_elementsIn_le v start stop hv.valid
    have hlw := @View.length_elementsIn_le w start stop hw.valid
    cases fill? with
    | none =>
      simp only
      rw [View.elementsIn_feed hv.valid hv.wellFormed hle,
        View.elementsIn_feed hw.valid hw.wellFormed hle]
      have horderly := orderly_innerJoin (hv.readable start stop) (hw.readable start stop) hexpr
      exact .pure (horderly.mono (by change _ ≤ n + m; omega))
    | some fill =>
      simp only
      rw [outerJoinIn_eq expr fill hv.valid hw.valid hv.wellFormed hw.wellFormed hle]
      have horderly := @orderly_outerJoin _ _ _ _ fill (hv.readable start stop)
        (hw.readable start stop) hexpr
      exact .pure (horderly.mono (by change _ ≤ 2 * (n + m); omega))

/-- A source of a checked query has a bound, and its view keeps to it. -/
theorem Source.feed_yields (hin : ∀ v ∈ inputs, v.Sound) (hle : start ≤ stop) (s : Source)
    (hcheck : s.check = .ok ()) (harity : s.arity ≤ inputs.length)
    (htimes : s.TimesFit start stop) :
    ∃ n, s.bound inputs start stop = .ok n ∧
      Yields (s.feed inputs start stop) (s.BuffersFit inputs start stop)
        fun f => ∃ v : View, f = v.feed ∧ v.Sound ∧ v.size ≤ n := by
  match s with
  | .input slot =>
    have hslot : slot < inputs.length := harity
    have hv := List.getElem?_eq_getElem hslot
    have hsound := hin _ (List.getElem_mem hslot)
    refine ⟨inputs[slot].size, ?_, ?_⟩
    · simp only [Source.bound, inputAt, hv]
      rfl
    · rw [View.feed_input hv hsound.valid]
      exact .pure ⟨_, rfl, hsound, Nat.le_refl _⟩
  | .query q =>
    obtain ⟨n, hbound, hemissions⟩ := q.emissions_yields hin hle hcheck harity htimes
    obtain ⟨kind, hkind⟩ := Option.isSome_iff_exists.mp
      (@Query.outputKind?_isSome q (inputs.map (·.kind)) (by rw [List.length_map]; exact harity))
    refine ⟨n, hbound, ?_⟩
    have hnested := @nested_yields start n kind (Source.BuffersFit inputs start stop (.query q)) _
      (hemissions.mono And.left) (fun hfit => hfit.2 n hbound)
    simp only [Source.feed, hkind, hbound]
    exact hnested

end

/-! ## The run -/

/-- A checked query has a bound. Into an output region with room for it, a run over well-formed
inputs in which nothing overflows ends well or with a division by zero. Only a nested query whose
bound no buffer can hold ends it in another way. -/
theorem run_ends {q : Query} {out : PlainRegion} (hcheck : q.check = .ok ())
    (harity : q.arity ≤ inputs.length) (hreach : ∀ v ∈ inputs, v.Reachable)
    (hwf : ∀ v ∈ inputs, v.WellFormed) (hno : ∀ v ∈ inputs, v.NoOverflow)
    (htimes : q.TimesFit start stop) (hle : start ≤ stop) (hout : out.Reachable)
    (hstop : out.stop ≤ start) :
    ∃ n, q.bound inputs start stop = .ok n ∧ (out.count + n ≤ out.capacity →
      ∃ out' ended, q.run inputs start stop out = (out', ended) ∧
        (ended = .ok () ∨ ended = .error .divisionByZero ∨
          ¬ q.BuffersFit inputs start stop ∧ ∃ m, ended = .error (.fault (.noBuffer m)) ∧
            SpanLog.fits (slotCapacity m) = false)) := by
  have hin : ∀ v ∈ inputs, v.Sound := fun v hv => ⟨(hreach v hv).valid, hwf v hv, hno v hv⟩
  obtain ⟨n, hbound, hemissions⟩ := q.emissions_yields hin hle hcheck harity htimes
  refine ⟨n, hbound, fun room => ?_⟩
  -- Either there are emissions, which play into the room, or the query fails before the first.
  rcases hemissions with ⟨s, hs, horderly⟩ | ⟨x, hx, hdiv | ⟨hfit, m, hbuffer, hfits⟩⟩
  · obtain ⟨out', ended, hplay, -, -, -, hended⟩ := horderly.play hout.valid hstop room
    refine ⟨out', ended, ?_, ?_⟩
    · simp only [Query.run, hs, hplay]
    · rcases hended with hok | hdiv
      · exact .inl hok
      · exact .inr (.inl hdiv)
  · refine ⟨out, _, ?_, .inr (.inl rfl)⟩
    simp only [Query.run, hx, hdiv]
  · refine ⟨out, _, ?_, .inr (.inr ⟨hfit, m, rfl, hfits⟩)⟩
    simp only [Query.run, hx, hbuffer]

/-- A filter over a window of sums, joined with the input itself. -/
theorem run_ends_of_nested :
    let q : Query := .join (.query (.filter (.query (.window (.input 0) 2 2 .sum .i64))
      (.binary .gt (.input 0) (.const (.int 0))))) (.input 0)
      (.binary .div (.input 0) (.input 1)) none .i64
    let input := (PlainRegion.allocate .i64 2 0).record ⟨0, 2⟩ (.int 5)
    let out := PlainRegion.allocate .i64 4 0
    ∃ out', (q.run [.plain input] 0 4 out = (out', .ok ()) ∨
      q.run [.plain input] 0 4 out = (out', .error .divisionByZero)) := by
  intro q input out
  have hinput : input.Reachable :=
    .record (@PlainRegion.Reachable.allocate .i64 2 0 _ rfl) (by decide) _
  have hall : ∀ {P : View → Prop}, P (.plain input) → ∀ v ∈ [View.plain input], P v :=
    fun h v hv => by rwa [List.mem_singleton.mp hv]
  have hticks : q.TimesFit 0 4 := by
    refine ⟨⟨trivial, by decide, by decide, fun k hk => ?_⟩, trivial⟩
    have := (mem_tickNumbers (by decide) k).mp hk
    rw [isInt64_iff, isInt64_iff]
    unfold minInt64 maxInt64
    omega
  obtain ⟨n, hn, hrun⟩ := @run_ends [.plain input] 0 4 q out rfl (by decide) (hall hinput)
    (hall hinput.valid.wellFormed) (hall trivial) hticks (by decide)
    (@PlainRegion.Reachable.allocate .i64 4 0 _ rfl) (by decide)
  have hbound : q.bound [.plain input] 0 4 = .ok 4 := rfl
  rw [hbound] at hn
  cases hn
  have hfit : q.BuffersFit [.plain input] 0 4 := by
    refine ⟨⟨⟨trivial, fun n hn => ?_⟩, fun n hn => ?_⟩, trivial⟩
    · cases hn
      decide
    · cases hn
      decide
  obtain ⟨out', ended, hplay, rfl | rfl | ⟨hnot, -⟩⟩ := hrun (by decide)
  · exact ⟨out', .inl hplay⟩
  · exact ⟨out', .inr hplay⟩
  · exact absurd hfit hnot

/-- Sixty-two bits of ticks: the nested window expects more elements than a buffer holds, though
its input has none. -/
theorem run_without_buffer :
    let q : Query := .window (.query (.window (.input 0) 1 1 .average .f64)) 2305843009213693952
      2305843009213693952 .count .i64
    let input := View.plain (.allocate .i64 1 0)
    let out := PlainRegion.allocate .i64 4 0
    q.check = .ok () ∧ q.arity ≤ [input].length ∧ input.Reachable ∧ input.WellFormed ∧
      input.NoOverflow ∧ q.TimesFit 0 4611686018427387904 ∧ out.Reachable ∧ out.stop ≤ 0 ∧
      q.bound [input] 0 4611686018427387904 = .ok 3 ∧ out.count + 3 ≤ out.capacity ∧
      q.run [input] 0 4611686018427387904 out =
        (out, .error (.fault (.noBuffer 4611686018427387905))) := by
  intro q input out
  have hinput : (PlainRegion.allocate .i64 1 0).Reachable :=
    @PlainRegion.Reachable.allocate .i64 1 0 _ rfl
  refine ⟨rfl, by decide, hinput, hinput.valid.wellFormed, trivial, ?_,
    @PlainRegion.Reachable.allocate .i64 4 0 _ rfl, by decide, rfl, by decide, ?_⟩
  · refine ⟨⟨trivial, by decide, by decide, fun k hk => ?_⟩, by decide, by decide, fun k hk => ?_⟩
    · have := (mem_tickNumbers (by decide) k).mp hk
      rw [isInt64_iff, isInt64_iff]
      unfold minInt64 maxInt64
      omega
    · have := (mem_tickNumbers (by decide) k).mp hk
      rw [isInt64_iff, isInt64_iff]
      unfold minInt64 maxInt64
      omega
  · rfl

end

end StreamGauge
