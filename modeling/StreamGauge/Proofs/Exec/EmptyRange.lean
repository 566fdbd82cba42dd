import StreamGauge.Proofs.Exec.Run

/-!
# Runs over empty ranges

No element starts in a range that ends where it starts or before, and it has no ticks. So a run
over such a range should do nothing, whatever the query is. `run_emptyRange` says how far it does:

* the output stays as it is, in any case;
* the run ends well unless an outer join counts the elements of a side by the difference of their
  indices where that is negative (`Query.Inverts`), or a nested query has more slots than any
  buffer;
* where the range starts and ends at one time, no difference is negative.

Indices get out of order where elements lie between the end of a range and its later start
(`startIndex_lt_iff`). Every other operator goes from the first index up and finds nothing there
(`elementsIn_eq_nil`).
-/

namespace StreamGauge

/-! ## Inverted indices -/

/-- The view has an element that starts before `start`, but not before `stop`. -/
def View.StartsBetween (stop start : Int) (v : View) : Prop :=
  ∃ e ∈ v.elements, stop ≤ e.span.start ∧ e.span.start < start

/-- The source is an input with an element between the end of the range and its later start. A
nested query commits no element there. -/
def Source.Inverted (inputs : List View) (start stop : Int) : Source → Prop
  | .input slot => ∃ v, inputs[slot]? = some v ∧ v.StartsBetween stop start
  | .query _ => False

mutual

/-- Somewhere in the query, a side of an outer join is inverted. -/
def Query.Inverts (inputs : List View) (start stop : Int) : Query → Prop
  | .select source _ _ => source.Inverts inputs start stop
  | .filter source _ => source.Inverts inputs start stop
  | .window source _ _ _ _ => source.Inverts inputs start stop
  | .join left right _ fill? _ =>
    (left.Inverts inputs start stop ∨ right.Inverts inputs start stop) ∨ fill?.isSome = true ∧
      (left.Inverted inputs start stop ∨ right.Inverted inputs start stop)

@[inherit_doc Query.Inverts]
def Source.Inverts (inputs : List View) (start stop : Int) : Source → Prop
  | .input _ => False
  | .query q => q.Inverts inputs start stop

end

section Indices

variable {es : Array Element} {start stop : Int}

/-- The index of the end is before that of the start if and only if an element lies between. -/
theorem startIndex_lt_iff (hs : es.toList.Pairwise (·.span.start ≤ ·.span.start)) :
    startIndex es stop < startIndex es start ↔
      ∃ e ∈ es.toList, stop ≤ e.span.start ∧ e.span.start < start := by
  constructor
  · intro hlt
    have hsize : startIndex es stop < es.size := Nat.lt_of_lt_of_le hlt (startIndex_le es start)
    have hstop := mt (startIndex_spec hs stop hsize).mpr (Nat.lt_irrefl _)
    -- The element where the range ends starts at `stop` or later, and it comes before `start`.
    refine ⟨es[startIndex es stop], ?_, by omega, (startIndex_spec hs start hsize).mp hlt⟩
    rw [Array.mem_toList_iff]
    exact Array.getElem_mem hsize
  · rintro ⟨e, he, hstop, hstart⟩
    rw [Array.mem_toList_iff] at he
    obtain ⟨i, hi, rfl⟩ := Array.mem_iff_getElem.mp he
    have hge := mt (startIndex_spec hs stop hi).mp (by omega)
    have hlt := (startIndex_spec hs start hi).mpr hstart
    omega

theorem elementsIn_eq_nil (hs : es.toList.Pairwise (·.span.start ≤ ·.span.start))
    (hle : stop ≤ start) : elementsIn es start stop = [] := by
  have hmono := startIndex_mono hs hle
  change (es.extract (startIndex es start) (startIndex es stop)).toList = []
  simp
  omega

end Indices

/-! ## Outcomes -/

/-- What comes of a computation over an empty range: a result with a property, or one of two
faults. Which of them it is decides whether an outer join inverts and whether buffers fit. -/
inductive Idles {α : Type} (start stop : Int) (inverts fit : Prop) (P : α → Prop) :
    Except ExecError α → Prop where
  | done {a : α} (ha : P a) (hinverts : ¬ inverts) (hfit : fit) :
      Idles start stop inverts fit P (.ok a)
  | inverted (h : inverts) :
      Idles start stop inverts fit P (.error (.fault (.invertedRange start stop)))
  | unbuffered {n : Nat} (h : ¬ fit) (hn : SpanLog.fits (slotCapacity n) = false) :
      Idles start stop inverts fit P (.error (.fault (.noBuffer n)))

namespace Idles

variable {α β : Type} {start stop : Int} {inverts inverts' fit fit' : Prop} {P : α → Prop}
  {Q : β → Prop} {r : Except ExecError α}

theorem congr (h : Idles start stop inverts fit P r) (hinverts : inverts ↔ inverts')
    (hfit : fit ↔ fit') : Idles start stop inverts' fit' P r := by
  cases h with
  | done ha hnot hfits => exact .done ha (mt hinverts.mpr hnot) (hfit.mp hfits)
  | inverted h => exact .inverted (hinverts.mp h)
  | unbuffered h hn => exact .unbuffered (mt hfit.mpr h) hn

/-- Of two steps, each can be the one that faults. -/
theorem bind {f : α → Except ExecError β} (h : Idles start stop inverts fit P r)
    (hf : ∀ a, P a → Idles start stop inverts' fit' Q (f a)) :
    Idles start stop (inverts ∨ inverts') (fit ∧ fit') Q (r >>= f) := by
  cases h with
  | @done a ha hnot hfits =>
    have hnext := hf a ha
    change Idles start stop _ _ Q (f a)
    generalize f a = r' at hnext ⊢
    cases hnext with
    | done hb hnot' hfits' => exact .done hb (by simp [hnot, hnot']) ⟨hfits, hfits'⟩
    | inverted h => exact .inverted (.inr h)
    | unbuffered h hn => exact .unbuffered (mt And.right h) hn
  | inverted h => exact .inverted (.inl h)
  | unbuffered h hn => exact .unbuffered (mt And.left h) hn

/-- A step that cannot fail follows. -/
theorem map {f : α → Except ExecError β} (h : Idles start stop inverts fit P r)
    (hf : ∀ a, P a → ∃ b, f a = .ok b ∧ Q b) : Idles start stop inverts fit Q (r >>= f) := by
  cases h with
  | @done a ha hnot hfits =>
    obtain ⟨b, hb, hQ⟩ := hf a ha
    change Idles start stop _ _ Q (f a)
    rw [hb]
    exact .done hQ hnot hfits
  | inverted h => exact .inverted h
  | unbuffered h hn => exact .unbuffered h hn

theorem eq_ok_iff (h : Idles start stop inverts fit P r) :
    (∃ a, r = .ok a) ↔ ¬ inverts ∧ fit := by
  cases h with
  | done ha hnot hfits => simp [hnot, hfits]
  | inverted h => simp [h]
  | unbuffered h hn => simp [h]

theorem error (h : Idles start stop inverts fit P r) {x : ExecError} (hx : r = .error x) :
    x = .fault (.invertedRange start stop) ∧ inverts ∨
      ¬ fit ∧ ∃ n, x = .fault (.noBuffer n) ∧ SpanLog.fits (slotCapacity n) = false := by
  cases h with
  | done ha hnot hfits => cases hx
  | inverted h =>
    cases hx
    exact .inl ⟨rfl, h⟩
  | unbuffered h hn =>
    cases hx
    exact .inr ⟨h, _, rfl, hn⟩

end Idles

/-- Emissions that change no region. They end well, or they halt because a side is inverted. -/
def Still (start stop : Int) (inverts : Prop) (s : Sequence Emission) : Prop :=
  ∀ out : PlainRegion, (out.play s).1 = out ∧
    Idles start stop inverts True (fun _ => True) (out.play s).2

section

variable {start stop : Int}

theorem still_nil : Still start stop False .nil :=
  fun _ => ⟨rfl, .done trivial not_false trivial⟩

theorem still_halt {inverts : Prop} (h : inverts) :
    Still start stop inverts (.ofList [.halt (.fault (.invertedRange start stop))]) :=
  fun _ => ⟨rfl, .inverted h⟩

/-! ## Operators over an empty range -/

/-- A window has no ticks. The first one, which ends the run, has to be within 64 bits. -/
theorem still_window (hle : stop ≤ start) {length period : Int} (hperiod : 0 < period)
    (hend : isInt64 (endTick start stop period) = true) (reducer : Reducer) (f : Feed) :
    Still start stop False (window length period reducer f start stop) := by
  have hzero : ((stop - start) / period).toNat = 0 := by
    have := Int.ediv_le_ediv hperiod (show stop - start ≤ 0 by omega)
    simp at this
    omega
  have hcount : tickCount start stop period = 0 := by
    rw [tickCount, if_pos hperiod, hzero]
  have htick : endTick start stop period = start + period := by
    simp [endTick, hzero]
  have hnil : window length period reducer f start stop = .nil := by
    rw [htick] at hend
    simp only [window, hcount, windowFrom, hend, if_true]
  rw [hnil]
  exact still_nil

/-- A view that operators find nothing in: valid, in order, and with elements between the end of
the range and its start only where `inverted` says so. -/
structure View.Vacant (start stop : Int) (inverted : Prop) (v : View) : Prop where
  valid : v.Valid
  wellFormed : v.WellFormed
  between : v.StartsBetween stop start ↔ inverted

namespace View.Vacant

variable {v w : View} {i j : Prop}

theorem starts_le (h : v.Vacant start stop i) :
    v.feed.elements.toList.Pairwise (·.span.start ≤ ·.span.start) :=
  (h.wellFormed.inOrder h.valid).starts_le

theorem elementsIn_feed (h : v.Vacant start stop i) (hle : stop ≤ start) :
    StreamGauge.elementsIn v.feed.elements start stop = [] := elementsIn_eq_nil h.starts_le hle

theorem startIndex_lt_iff (h : v.Vacant start stop i) :
    startIndex v.feed.elements stop < startIndex v.feed.elements start ↔ i :=
  (StreamGauge.startIndex_lt_iff h.starts_le).trans h.between

theorem still_innerJoin (hle : stop ≤ start) (expr : Expr) (h : v.Vacant start stop i)
    (h' : w.Vacant start stop j) :
    Still start stop False (innerJoin expr (StreamGauge.elementsIn v.feed.elements start stop)
      (StreamGauge.elementsIn w.feed.elements start stop)) := by
  rw [h.elementsIn_feed hle, h'.elementsIn_feed hle, innerJoin]
  · exact still_nil
  · simp

/-- An outer join makes no piece of nothing, but it counts the elements first. -/
theorem still_outerJoinIn (hle : stop ≤ start) (expr : Expr) (fill : Value)
    (h : v.Vacant start stop i) (h' : w.Vacant start stop j) :
    Still start stop (i ∨ j) (outerJoinIn expr fill v.feed w.feed start stop) := by
  change Still start stop _ (if startIndex v.feed.elements stop < startIndex v.feed.elements start ∨
    startIndex w.feed.elements stop < startIndex w.feed.elements start then
      .ofList [.halt (.fault (.invertedRange start stop))]
    else outerJoin expr fill (StreamGauge.elementsIn v.feed.elements start stop)
      (StreamGauge.elementsIn w.feed.elements start stop))
  have hcount := or_congr h.startIndex_lt_iff h'.startIndex_lt_iff
  by_cases hinverted : i ∨ j
  · rw [if_pos (hcount.mpr hinverted)]
    exact still_halt hinverted
  · rw [if_neg (mt hcount.mp hinverted), h.elementsIn_feed hle, h'.elementsIn_feed hle]
    have hnil : outerJoin expr fill [] [] = .nil := by
      simp only [outerJoin, cutsOf, List.append_nil, List.flatMap_nil, List.mergeSort_nil]
      rfl
    rw [hnil]
    exact fun out => ⟨rfl, .done trivial hinverted trivial⟩

end View.Vacant

end

/-! ## Queries over an empty range -/

section

variable {inputs : List View} {start stop : Int}

/-- A run whose emissions change nothing, if there are any. -/
theorem Query.run_idles_of_emissions {q : Query} {below here inverts fit : Prop}
    (h : Idles start stop below fit (Still start stop here) (q.emissions inputs start stop))
    (hinverts : below ∨ here ↔ inverts) (out : PlainRegion) :
    (q.run inputs start stop out).1 = out ∧
      Idles start stop inverts fit (fun _ => True) (q.run inputs start stop out).2 := by
  unfold Query.run
  generalize q.emissions inputs start stop = emissions at h ⊢
  cases h with
  | done hs hnot hfits =>
    obtain ⟨hsame, hended⟩ := hs out
    exact ⟨hsame, hended.congr (by simp [← hinverts, hnot]) (by simp [hfits])⟩
  | inverted h => exact ⟨rfl, .inverted (hinverts.mp (.inl h))⟩
  | unbuffered h hn => exact ⟨rfl, .unbuffered h hn⟩

theorem tickBound_eq_one {period : Int} (hle : stop ≤ start) (hperiod : 0 < period)
    (hfits : isInt64 (stop - start) = true) : tickBound start stop period = .ok 1 := by
  have hmax : max (stop - start) 0 = 0 := Int.max_eq_right (by omega)
  simp only [tickBound, hmax, hfits, Int.zero_tdiv]
  rw [if_neg (by simp), if_neg (by omega)]
  rfl

/-- A region for a bound, if there is a buffer for it. -/
theorem scratch_idles (kind : Kind) (n : Nat) :
    Idles start stop False (SpanLog.fits (slotCapacity n) = true)
      (fun r => r = PlainRegion.allocate kind n start) (scratch kind n start) := by
  unfold scratch PlainRegion.allocate?
  cases hbuffer : SpanLog.fits (slotCapacity n) with
  | false => exact .unbuffered (by simp) hbuffer
  | true => exact .done rfl not_false rfl

/-- The region of a nested query that commits nothing. -/
theorem View.vacant_allocate (kind : Kind) (n : Nat) :
    (View.plain (.allocate kind n start)).Vacant start stop False where
  valid := PlainRegion.valid_allocate kind n start
  wellFormed := (PlainRegion.valid_allocate kind n start).wellFormed
  between := by
    have hnone : (View.plain (.allocate kind n start)).elements = [] := rfl
    simp [StartsBetween, hnone]

/-! ### One operator over an empty range -/

/-- Over the range, the view of the source has nothing for operators, if there is one. -/
def Source.FeedIdles (inputs : List View) (start stop : Int) (s : Source) : Prop :=
  Idles start stop (s.Inverts inputs start stop) (s.BuffersFit inputs start stop)
    (fun f => ∃ v : View, f = v.feed ∧ v.Vacant start stop (s.Inverted inputs start stop))
    (s.feed inputs start stop)

section

variable {source left right : Source}

theorem Query.select_idles (hle : stop ≤ start) (h : source.FeedIdles inputs start stop)
    (expr : Expr) (output : Kind) :
    Idles start stop (source.Inverts inputs start stop) (source.BuffersFit inputs start stop)
      (Still start stop False) ((Query.select source expr output).emissions inputs start stop) := by
  simp only [Query.emissions]
  refine h.map fun f hf => ⟨_, rfl, ?_⟩
  obtain ⟨v, rfl, hv⟩ := hf
  rw [hv.elementsIn_feed hle]
  exact still_nil

theorem Query.filter_idles (hle : stop ≤ start) (h : source.FeedIdles inputs start stop)
    (predicate : Expr) :
    Idles start stop (source.Inverts inputs start stop) (source.BuffersFit inputs start stop)
      (Still start stop False) ((Query.filter source predicate).emissions inputs start stop) := by
  simp only [Query.emissions]
  refine h.map fun f hf => ⟨_, rfl, ?_⟩
  obtain ⟨v, rfl, hv⟩ := hf
  rw [hv.elementsIn_feed hle]
  exact still_nil

theorem Query.window_idles (hle : stop ≤ start) (h : source.FeedIdles inputs start stop)
    {length period : Int} (hperiod : 0 < period)
    (hend : isInt64 (endTick start stop period) = true) (reducer : Reducer) (output : Kind) :
    Idles start stop (source.Inverts inputs start stop) (source.BuffersFit inputs start stop)
      (Still start stop False)
      ((Query.window source length period reducer output).emissions inputs start stop) := by
  simp only [Query.emissions]
  exact h.map fun f _ => ⟨_, rfl, still_window hle hperiod hend reducer f⟩

/-- Only an outer join can stop, and only because of a side that is an input. -/
theorem Query.join_idles (hle : stop ≤ start) (hl : left.FeedIdles inputs start stop)
    (hr : right.FeedIdles inputs start stop) (expr : Expr) (fill? : Option Value)
    (output : Kind) :
    Idles start stop (left.Inverts inputs start stop ∨ right.Inverts inputs start stop)
      (left.BuffersFit inputs start stop ∧ right.BuffersFit inputs start stop)
      (Still start stop (fill?.isSome = true ∧
        (left.Inverted inputs start stop ∨ right.Inverted inputs start stop)))
      ((Query.join left right expr fill? output).emissions inputs start stop) := by
  simp only [Query.emissions]
  refine hl.bind fun f hf => hr.map fun g hg => ?_
  obtain ⟨v, rfl, hv⟩ := hf
  obtain ⟨w, rfl, hw⟩ := hg
  cases fill? with
  | none => exact ⟨_, rfl, by simpa using hv.still_innerJoin hle expr hw⟩
  | some fill => exact ⟨_, rfl, by simpa using hv.still_outerJoinIn hle expr fill hw⟩

end

mutual

/-- Over an empty range, a checked query changes nothing, and it ends well if no side of an outer
join is inverted and every nested region has a buffer. -/
theorem Query.run_idles (hvalid : ∀ v ∈ inputs, v.Valid) (hwf : ∀ v ∈ inputs, v.WellFormed)
    (hle : stop ≤ start) (q : Query) (hcheck : q.check = .ok ()) (harity : q.arity ≤ inputs.length)
    (htimes : q.TimesFit start stop) :
    (∃ n, q.bound inputs start stop = .ok n) ∧ ∀ out,
      (q.run inputs start stop out).1 = out ∧
      Idles start stop (q.Inverts inputs start stop) (q.BuffersFit inputs start stop)
        (fun _ => True) (q.run inputs start stop out).2 := by
  -- Mutual with `feed_idles`: a nested query writes nothing, so its view is that of a new region.
  match q with
  | .select source expr output =>
    obtain ⟨_, -, hsource⟩ := eq_ok_of_bind hcheck
    obtain ⟨hbound, hfeed⟩ := source.feed_idles hvalid hwf hle hsource harity htimes
    exact ⟨hbound, Query.run_idles_of_emissions (Query.select_idles hle hfeed expr output)
      (Iff.of_eq (or_false _))⟩
  | .filter source predicate =>
    obtain ⟨_, -, hsource⟩ := eq_ok_of_bind hcheck
    obtain ⟨hbound, hfeed⟩ := source.feed_idles hvalid hwf hle hsource harity htimes
    exact ⟨hbound, Query.run_idles_of_emissions (Query.filter_idles hle hfeed predicate)
      (Iff.of_eq (or_false _))⟩
  | .window source length period reducer output =>
    simp only [Query.check] at hcheck
    split at hcheck
    case isTrue => cases hcheck
    case isFalse hpositive =>
      obtain ⟨hsourceTimes, hrange, hend, -⟩ := htimes
      obtain ⟨-, hfeed⟩ := source.feed_idles hvalid hwf hle hcheck harity hsourceTimes
      exact ⟨⟨1, tickBound_eq_one hle (by omega) hrange⟩,
        Query.run_idles_of_emissions (Query.window_idles hle hfeed (by omega) hend reducer output)
          (Iff.of_eq (or_false _))⟩
  | .join left right expr fill? output =>
    obtain ⟨_, -, hsources⟩ := eq_ok_of_bind hcheck
    obtain ⟨_, hleft, hright⟩ := eq_ok_of_bind hsources
    have harity' : max left.arity right.arity ≤ inputs.length := harity
    obtain ⟨⟨n, hn⟩, hl⟩ := left.feed_idles hvalid hwf hle hleft (by omega) htimes.1
    obtain ⟨⟨m, hm⟩, hr⟩ := right.feed_idles hvalid hwf hle hright (by omega) htimes.2
    refine ⟨⟨if fill?.isSome then 2 * (n + m) else n + m, ?_⟩,
      Query.run_idles_of_emissions (Query.join_idles hle hl hr expr fill? output) Iff.rfl⟩
    simp only [Query.bound, hn, hm]
    rfl

/-- Over an empty range, the view of a source has nothing for operators. -/
theorem Source.feed_idles (hvalid : ∀ v ∈ inputs, v.Valid) (hwf : ∀ v ∈ inputs, v.WellFormed)
    (hle : stop ≤ start) (s : Source) (hcheck : s.check = .ok ())
    (harity : s.arity ≤ inputs.length) (htimes : s.TimesFit start stop) :
    (∃ n, s.bound inputs start stop = .ok n) ∧ s.FeedIdles inputs start stop := by
  match s with
  | .input slot =>
    have hslot : slot < inputs.length := harity
    have hv := List.getElem?_eq_getElem hslot
    have hmem := List.getElem_mem hslot
    refine ⟨⟨inputs[slot].size, ?_⟩, ?_⟩
    · simp only [Source.bound, inputAt, hv]
      rfl
    · rw [Source.FeedIdles, View.feed_input hv (hvalid _ hmem)]
      refine .done ⟨_, rfl, hvalid _ hmem, hwf _ hmem, ?_⟩ not_false trivial
      simp [Source.Inverted, hv]
  | .query q =>
    obtain ⟨⟨n, hbound⟩, hrun⟩ := q.run_idles hvalid hwf hle hcheck harity htimes
    obtain ⟨kind, hkind⟩ := Option.isSome_iff_exists.mp
      (@Query.outputKind?_isSome q (inputs.map (·.kind)) (by rw [List.length_map]; exact harity))
    refine ⟨⟨n, hbound⟩, ?_⟩
    rw [Source.FeedIdles, Source.feed_query, hkind]
    simp only [hbound]
    have hnested : ∀ r, r = PlainRegion.allocate kind n start →
        Idles start stop (q.Inverts inputs start stop) (q.BuffersFit inputs start stop)
          (fun f => ∃ v : View, f = v.feed ∧ v.Vacant start stop False) (do
            (q.run inputs start stop r).2
            Feed.ofView (.plain (q.run inputs start stop r).1)) := by
      rintro r rfl
      obtain ⟨hsame, hended⟩ := hrun (.allocate kind n start)
      have hview := @View.vacant_allocate start stop kind n
      rw [hsame]
      exact hended.map fun _ _ => ⟨_, View.ofView_eq hview.valid, _, rfl, hview⟩
    refine ((scratch_idles kind n).bind hnested).congr ?_ ?_
    · simp [Source.Inverts]
    · simp [Source.BuffersFit, hbound, and_comm]

end

/-! ## The run -/

/-- A query over an empty range does not invert: no element lies between one time and itself. -/
theorem Source.not_inverted (s : Source) : ¬ s.Inverted inputs start start := by
  cases s with
  | input slot =>
    rintro ⟨v, -, e, -, hstop, hstart⟩
    omega
  | query q => exact not_false

mutual

theorem Query.not_inverts (q : Query) : ¬ q.Inverts inputs start start := by
  match q with
  | .select source _ _ => exact source.not_inverts
  | .filter source _ => exact source.not_inverts
  | .window source _ _ _ _ => exact source.not_inverts
  | .join left right _ _ _ =>
    rintro ((h | h) | ⟨-, h | h⟩)
    · exact left.not_inverts h
    · exact right.not_inverts h
    · exact left.not_inverted h
    · exact right.not_inverted h

theorem Source.not_inverts (s : Source) : ¬ s.Inverts inputs start start := by
  match s with
  | .input _ => exact not_false
  | .query q => exact q.not_inverts

end

/-- A run of a checked query over well-formed inputs and a range that ends where it starts or
before; no time that it computes leaves 64 bits.

* The output stays exactly as it is.
* The run ends well if and only if no outer join of the query has an input with elements between
  the end of the range and its start, and each nested query has a buffer.
* Otherwise one of the two is why it stops: the number of elements of that input is negative, or
  the buffer is missing.
* A range that starts and ends at the same time inverts nothing. -/
theorem run_emptyRange {q : Query} (hcheck : q.check = .ok ()) (harity : q.arity ≤ inputs.length)
    (hreach : ∀ v ∈ inputs, v.Reachable) (hwf : ∀ v ∈ inputs, v.WellFormed)
    (htimes : q.TimesFit start stop) (hle : stop ≤ start) (out : PlainRegion) :
    (q.run inputs start stop out).1 = out ∧
    ((q.run inputs start stop out).2 = .ok () ↔
      ¬ q.Inverts inputs start stop ∧ q.BuffersFit inputs start stop) ∧
    (∀ x, (q.run inputs start stop out).2 = .error x →
      x = .fault (.invertedRange start stop) ∧ q.Inverts inputs start stop ∨
      ¬ q.BuffersFit inputs start stop ∧
        ∃ n, x = .fault (.noBuffer n) ∧ SpanLog.fits (slotCapacity n) = false) ∧
    (start = stop → ¬ q.Inverts inputs start stop) := by
  obtain ⟨-, hrun⟩ :=
    q.run_idles (fun v hv => (hreach v hv).valid) hwf hle hcheck harity htimes
  obtain ⟨hsame, hended⟩ := hrun out
  refine ⟨hsame, ?iff, fun x hx => hended.error hx, ?_⟩
  case iff =>
    rw [← hended.eq_ok_iff]
    exact ⟨fun h => ⟨(), h⟩, fun ⟨_, h⟩ => h⟩
  · rintro rfl
    exact q.not_inverts

/-- An outer join of an input with itself, whose element begins at 0. Over `[1, 1)` it does
nothing, over `[1, 0)` it stops. -/
theorem run_emptyRange_outerJoin :
    let q : Query := .join (.input 0) (.input 0) (.binary .add (.input 0) (.input 1))
      (some (.int 0)) .i64
    let input := (PlainRegion.allocate .i64 1 0).record ⟨0, 1⟩ (.int 7)
    let out := PlainRegion.allocate .i64 2 0
    q.run [.plain input] 1 1 out = (out, .ok ()) ∧
      q.run [.plain input] 1 0 out = (out, .error (.fault (.invertedRange 1 0))) := by
  intro q input out
  have hinput : input.Reachable :=
    .record (@PlainRegion.Reachable.allocate .i64 1 0 _ rfl) (by decide) _
  have hall : ∀ {P : View → Prop}, P (.plain input) → ∀ v ∈ [View.plain input], P v :=
    fun h v hv => by rwa [List.mem_singleton.mp hv]
  have hempty := @run_emptyRange [.plain input] 1 1 q rfl (by decide) (hall hinput)
    (hall hinput.valid.wellFormed) ⟨trivial, trivial⟩ (by decide) out
  have hinverted := @run_emptyRange [.plain input] 1 0 q rfl (by decide) (hall hinput)
    (hall hinput.valid.wellFormed) ⟨trivial, trivial⟩ (by decide) out
  refine ⟨Prod.ext hempty.1 (hempty.2.1.mpr ⟨hempty.2.2.2 rfl, trivial, trivial⟩),
    Prod.ext hinverted.1 ?_⟩
  have hbetween : q.Inverts [.plain input] 1 0 :=
    .inr ⟨rfl, .inl ⟨.plain input, rfl, ⟨⟨0, 1⟩, some (.int 7)⟩, by decide, by decide, by decide⟩⟩
  cases hended : (q.run [.plain input] 1 0 out).2 with
  | ok u => exact absurd hbetween (hinverted.2.1.mp hended).1
  | error x =>
    rcases hinverted.2.2.1 x hended with ⟨hx, -⟩ | ⟨hnot, -⟩
    · rw [hx]
    · exact absurd ⟨trivial, trivial⟩ hnot

end

end StreamGauge
