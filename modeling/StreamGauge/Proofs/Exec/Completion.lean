import StreamGauge.Proofs.Exec.Run

/-!
# Completed runs

A query whose expressions divide by floating point numbers only is never stopped by a division by
zero. `Query.Emits` says of a query that its emissions are there, that none of them ends the run
(`Unbroken`), how many elements they commit at most, and that each time that they name has some
property `Q`.

* There is one rule for each operator: `Query.Emits.select`, `Query.Emits.filter`,
  `Query.Emits.window`, `Query.Emits.innerJoin` and `Query.Emits.outerJoin`. They ask what the
  sources give (`Source.Gives`).
* A nested query that emits gives a view (`Query.Emits.gives`), whose times have the property, too.
* `Query.Emits.run`: an output with the slots for them takes all the emissions.

The property serves to bound times, and to count: elements that begin and end at multiples of a
period are no more than there are periods (`mul_length_overlaps_le`, `mul_length_pieces_le`).
-/

namespace StreamGauge

/-! ## Unbroken emissions -/

/-- The emission is no halt, and each time that it names has a property. -/
def Emission.Names (Q : Int → Prop) : Emission → Prop
  | during span _ => Q span.start ∧ Q span.stop
  | upTo time _ => Q time
  | pass time => Q time
  | halt _ => False

/-- Emissions that follow each other from a time on and are never broken off. At most `bound` of
them commit an element, and each time that they name has a property. -/
structure Unbroken (time : Int) (bound : Nat) (Q : Int → Prop) (es : List Emission) : Prop where
  ascending : Ascending time es
  count : es.countP Emission.isElement ≤ bound
  names : ∀ e ∈ es, e.Names Q

section Names

variable {Q : Int → Prop} {e : Emission} {es : List Emission} {time : Int}

theorem Emission.Names.imp {Q' : Int → Prop} (h : e.Names Q) (himp : ∀ t, Q t → Q' t) :
    e.Names Q' := by
  cases e with
  | during span v => exact ⟨himp _ h.1, himp _ h.2⟩
  | upTo stop v => exact himp _ h
  | pass stop => exact himp _ h
  | halt x => exact h

theorem Emission.Names.isHalt_eq (h : e.Names Q) : e.isHalt = false := by
  cases e with
  | halt x => exact h.elim
  | _ => rfl

theorem Emission.Names.stopAfter (h : e.Names Q) (ht : Q time) : Q (e.stopAfter time) := by
  cases e with
  | during span v => exact h.2
  | upTo stop v => exact h
  | pass stop => exact h
  | halt x => exact ht

theorem names_stopAfterAll (h : ∀ e ∈ es, e.Names Q) (ht : Q time) : Q (stopAfterAll time es) := by
  induction es generalizing time with
  | nil => exact ht
  | cons e es ih =>
    obtain ⟨he, hes⟩ := List.forall_mem_cons.mp h
    exact ih hes (he.stopAfter ht)

theorem names_placed (kind : Kind) (h : ∀ e ∈ es, e.Names Q) (ht : Q time) :
    ∀ x ∈ placed kind time es, Q x.span.start ∧ Q x.span.stop := by
  induction es generalizing time with
  | nil => simp [placed]
  | cons e es ih =>
    obtain ⟨he, hes⟩ := List.forall_mem_cons.mp h
    intro x hx
    rcases List.mem_append.mp hx with hx | hx
    · cases e with
      | during span v =>
        obtain rfl := List.mem_singleton.mp hx
        exact he
      | upTo stop v =>
        obtain rfl := List.mem_singleton.mp hx
        refine ⟨ht, ?_⟩
        rw [Span.stop_between]
        exact he
      | pass stop => cases hx
      | halt y => cases hx
    · exact ih hes (he.stopAfter ht) x hx

theorem length_placed (kind : Kind) (time : Int) (es : List Emission) :
    (placed kind time es).length = es.countP Emission.isElement := by
  induction es generalizing time with
  | nil => rfl
  | cons e es ih =>
    rw [placed, List.length_append, PlainRegion.length_element?, ih, List.countP_cons, Nat.add_comm]

end Names

/-- A valid region with the slots for them takes unbroken emissions to the end. -/
theorem Unbroken.play {time : Int} {bound : Nat} {Q : Int → Prop} {s : Sequence Emission}
    (h : Unbroken time bound Q s.toList) {r : PlainRegion} (hr : r.Valid) (hstop : r.stop = time)
    (hQ : Q time) (room : r.count + bound ≤ r.capacity) :
    ∃ r', r.play s = (r', .ok ()) ∧ r'.Valid ∧ r'.count ≤ r.count + bound ∧ Q r'.stop ∧
      ∀ e ∈ r'.elements, e ∈ r.elements ∨ Q e.span.start ∧ Q e.span.stop := by
  subst hstop
  have hcount := h.count
  obtain ⟨r', hplay, hext, hend⟩ := PlainRegion.play_ascending hr h.ascending (by omega)
    fun e he => (h.names e he).isHalt_eq
  rw [Sequence.ofList_toList] at hplay
  refine ⟨r', hplay, hext.valid, ?_, ?_, fun e he => ?_⟩
  · rw [hext.count hr, length_placed]
    omega
  · rw [hend]
    exact names_stopAfterAll h.names hQ
  · rw [hext.elements, List.mem_append] at he
    exact he.imp_right (names_placed _ h.names hQ e)

/-! ## Elements by time -/

section Times

variable {Q : Int → Prop} {left right es : List Element} {period stop : Int}

/-- An overlap begins where one of the sides begins, and ends where one of them ends. -/
theorem names_overlaps (hl : ∀ e ∈ left, Q e.span.start ∧ Q e.span.stop)
    (hr : ∀ e ∈ right, Q e.span.start ∧ Q e.span.stop) {p : Element × Element}
    (hp : p ∈ overlaps left right) : Q (overlap p.1 p.2).start ∧ Q (overlap p.1 p.2).stop := by
  obtain ⟨hfirst, hsecond, -⟩ := mem_overlaps hp
  obtain ⟨hlstart, hlstop⟩ := hl p.1 hfirst
  obtain ⟨hrstart, hrstop⟩ := hr p.2 hsecond
  rw [start_overlap, stop_overlap]
  constructor
  · rcases Int.le_total p.1.span.start p.2.span.start with hle | hle
    · rwa [Int.max_eq_right hle]
    · rwa [Int.max_eq_left hle]
  · rcases Int.le_total p.1.span.stop p.2.span.stop with hle | hle
    · rwa [Int.min_eq_left hle]
    · rwa [Int.min_eq_right hle]

/-- A piece begins and ends where an element begins or ends. -/
theorem names_coveredPieces (h : ∀ e ∈ es, Q e.span.start ∧ Q e.span.stop) {p : Int × Int}
    (hp : p ∈ coveredPieces es) : Q p.1 ∧ Q (Span.between p.1 p.2).stop := by
  obtain ⟨⟨a, ha, hlo⟩, ⟨b, hb, hhi⟩, -⟩ := mem_coveredPieces.mp hp
  rw [Span.stop_between]
  constructor
  · rcases hlo with hlo | hlo
    · exact hlo ▸ (h a ha).1
    · exact hlo ▸ (h a ha).2
  · rcases hhi with hhi | hhi
    · exact hhi ▸ (h b hb).1
    · exact hhi ▸ (h b hb).2

/-- Spans that follow each other, each at least as long as a period, are no more than there are
periods. -/
theorem mul_length_le {α : Type} {xs : List α} {span : α → Span} {start : Int}
    (hord : xs.Pairwise fun x y => (span x).stop ≤ (span y).start)
    (hlength : ∀ x ∈ xs, period ≤ (span x).length) (hstart : ∀ x ∈ xs, start ≤ (span x).start)
    (hstop : ∀ x ∈ xs, (span x).stop ≤ stop) (hle : start ≤ stop) :
    period * xs.length ≤ stop - start := by
  induction xs generalizing start with
  | nil =>
    rw [List.length_nil, Int.natCast_zero, Int.mul_zero]
    omega
  | cons x xs ih =>
    obtain ⟨hnext, hord⟩ := List.pairwise_cons.mp hord
    obtain ⟨hx, hlength⟩ := List.forall_mem_cons.mp hlength
    obtain ⟨hxstart, -⟩ := List.forall_mem_cons.mp hstart
    obtain ⟨hxstop, hstop⟩ := List.forall_mem_cons.mp hstop
    have hrest := ih hord hlength hnext hstop hxstop
    have hspan : (span x).stop = (span x).start + (span x).length := rfl
    rw [List.length_cons, Int.natCast_add, Int.mul_add]
    omega

/-- Different multiples of a period are a period apart. -/
theorem period_le_sub {a b : Int} (ha : period ∣ a) (hb : period ∣ b) (hlt : a < b) :
    period ≤ b - a := Int.le_of_dvd (by omega) (Int.dvd_sub hb ha)

/-- Overlaps that begin and end at multiples of a period are no more than there are periods. -/
theorem mul_length_overlaps_le (hl : InOrder left) (hr : InOrder right)
    (hstart : ∀ e ∈ left, 0 ≤ e.span.start)
    (hends : ∀ p ∈ overlaps left right, (period ∣ (overlap p.1 p.2).start ∧
      (overlap p.1 p.2).start ≤ stop) ∧ period ∣ (overlap p.1 p.2).stop ∧
      (overlap p.1 p.2).stop ≤ stop) (hle : 0 ≤ stop) :
    period * (overlaps left right).length ≤ stop := by
  have hcount := @mul_length_le period stop _ (overlaps left right) (fun p => overlap p.1 p.2) 0
    (ordered_overlaps hl hr) (fun p hp => ?_) (fun p hp => ?_) (fun p hp => (hends p hp).2.2) hle
  · omega
  · obtain ⟨⟨hfirst, -⟩, hlast, -⟩ := hends p hp
    have hpos := (mem_overlaps hp).2.2
    have hfar := period_le_sub hfirst hlast (by unfold Span.stop; omega)
    unfold Span.stop at hfar
    omega
  · have := hstart p.1 (mem_overlaps hp).1
    rw [start_overlap]
    omega

/-- The same for pieces. -/
theorem mul_length_pieces_le (hlength : ∀ e ∈ es, 0 < e.span.length)
    (hstart : ∀ e ∈ es, 0 ≤ e.span.start)
    (hends : ∀ e ∈ es, (period ∣ e.span.start ∧ e.span.start ≤ stop) ∧ period ∣ e.span.stop ∧
      e.span.stop ≤ stop) (hle : 0 ≤ stop) : period * (coveredPieces es).length ≤ stop := by
  have hnames : ∀ p ∈ coveredPieces es, (period ∣ p.1 ∧ p.1 ≤ stop) ∧
      period ∣ (Span.between p.1 p.2).stop ∧ (Span.between p.1 p.2).stop ≤ stop := fun p hp =>
    names_coveredPieces (Q := fun t => period ∣ t ∧ t ≤ stop) hends hp
  have hcount := @mul_length_le period stop _ (coveredPieces es) (fun p => .between p.1 p.2) 0
    ?_ (fun p hp => ?_) (fun p hp => start_le_of_coveredPieces hlength hstart hp)
    (fun p hp => (hnames p hp).2.2) hle
  · omega
  · refine (ordered_coveredPieces es).imp fun hord => ?_
    rw [Span.stop_between]
    exact hord
  · obtain ⟨⟨hfirst, -⟩, hlast, -⟩ := hnames p hp
    rw [Span.stop_between] at hlast
    exact period_le_sub hfirst hlast (mem_coveredPieces.mp hp).lt

end Times

/-! ## Sources and queries -/

/-- What a source gives to its operator is a sound view, and the times of the elements that take
part have a property. -/
structure Source.Gives (inputs : List View) (start stop : Int) (Q : Int → Prop) (s : Source)
    (v : View) : Prop where
  feed : s.feed inputs start stop = .ok v.feed
  sound : v.Sound
  times : ∀ e ∈ v.elementsIn start stop, Q e.span.start ∧ Q e.span.stop

/-- The query has unbroken emissions. -/
def Query.Emits (inputs : List View) (start stop : Int) (bound : Nat) (Q : Int → Prop)
    (q : Query) : Prop :=
  ∃ s, q.emissions inputs start stop = .ok s ∧ Unbroken start bound Q s.toList

/-- A checked expression that divides by floating point numbers only. -/
structure Expr.Safe (slots : Nat) (e : Expr) : Prop where
  check : e.checkSlots slots = .ok ()
  division : e.dividesByFloats = true

theorem Expr.Safe.compute_eq {e : Expr} (slots : List Value) (h : e.Safe slots.length) :
    ∃ v, e.compute slots = .ok v := by
  obtain ⟨v, hv⟩ := eval_of_dividesByFloats (readsBelow_of_check h.check) h.division
  exact ⟨v, by rw [compute, hv]; rfl⟩

/-- An element of a join with values on both sides has a value. -/
theorem joined_eq_during {expr : Expr} (h : expr.Safe 2) (span : Span)
    {left right : Except ExecError Value} (hleft : ∃ a, left = .ok a)
    (hright : ∃ b, right = .ok b) : ∃ v, joined expr span left right = .during span v := by
  obtain ⟨a, rfl⟩ := hleft
  obtain ⟨b, rfl⟩ := hright
  obtain ⟨v, hv⟩ := Expr.Safe.compute_eq [a, b] h
  refine ⟨v, ?_⟩
  change Emission.ofResult (.during span) (expr.compute [a, b]) = _
  rw [hv]
  rfl

section

variable {inputs : List View} {start stop : Int} {Q : Int → Prop} {source : Source} {v w : View}
  {expr : Expr} {kind : Kind} {n : Nat}

theorem Source.Gives.input {slot : Nat} (hv : inputs[slot]? = some v) (hsound : v.Sound)
    (htimes : ∀ e ∈ v.elementsIn start stop, Q e.span.start ∧ Q e.span.stop) :
    (Source.input slot).Gives inputs start stop Q v :=
  ⟨View.feed_input hv hsound.valid start stop, hsound, htimes⟩

theorem Source.Gives.imp (h : source.Gives inputs start stop Q v) {Q' : Int → Prop}
    (himp : ∀ t, Q t → Q' t) : source.Gives inputs start stop Q' v :=
  { h with times := fun e he => ⟨himp _ (h.times e he).1, himp _ (h.times e he).2⟩ }

namespace Query.Emits

/-- An output that stops where the range starts takes all the emissions, if it has the slots. -/
theorem run {q : Query} (h : q.Emits inputs start stop n Q) {out : PlainRegion} (hout : out.Valid)
    (hstop : out.stop = start) (hQ : Q start) (room : out.count + n ≤ out.capacity) :
    ∃ out', q.run inputs start stop out = (out', .ok ()) ∧ out'.Valid ∧
      out'.count ≤ out.count + n ∧ Q out'.stop := by
  obtain ⟨s, hs, hunbroken⟩ := h
  obtain ⟨out', hplay, hvalid, hcount, htime, -⟩ := hunbroken.play hout hstop hQ room
  refine ⟨out', ?_, hvalid, hcount, htime⟩
  rw [Query.run, hs]
  exact hplay

/-- A nested query gives what it emits. -/
theorem gives {q : Query} (h : q.Emits inputs start stop n Q) (hin : ∀ v ∈ inputs, v.Sound)
    (hle : start ≤ stop) (hcheck : q.check = .ok ()) (harity : q.arity ≤ inputs.length)
    (htimes : q.TimesFit start stop) (hfit : (Source.query q).BuffersFit inputs start stop)
    (hQ : Q start) : ∃ v, v.size ≤ n ∧ (Source.query q).Gives inputs start stop Q v := by
  obtain ⟨s, hs, hunbroken⟩ := h
  obtain ⟨m, hbound, hyields⟩ := q.emissions_yields hin hle hcheck harity htimes
  have horderly : Orderly start m s.toList := by
    rcases hyields with ⟨s', hs', horderly⟩ | ⟨x, hx, -⟩
    · rw [hs] at hs'
      cases hs'
      exact horderly
    · rw [hs] at hx
      cases hx
  obtain ⟨kind, hkind⟩ := Option.isSome_iff_exists.mp
    (@Query.outputKind?_isSome q (inputs.map (·.kind)) (by rw [List.length_map]; exact harity))
  have hscratch := (@scratch_eq_ok_iff start kind m _).mpr ⟨hfit.2 m hbound, rfl⟩
  -- The region has room for the bound of the query, which may be less than `n`.
  have hleast : Unbroken start (min m n) Q s.toList :=
    { hunbroken with count := Nat.le_min.mpr ⟨horderly.count, hunbroken.count⟩ }
  have hroom : 0 + min m n ≤ slotCapacity m := by
    have := le_leastPowerOfTwo m
    unfold slotCapacity
    omega
  obtain ⟨r, hplay, hvalid, hcount, -, helements⟩ :=
    hleast.play (PlainRegion.valid_allocate kind m start) rfl hQ hroom
  have hsize : r.count ≤ 0 + min m n := hcount
  refine ⟨.plain r, ?_, ?_, ⟨hvalid, hvalid.wellFormed, trivial⟩, fun e he => ?_⟩
  · show r.count ≤ n
    omega
  · simp only [Source.feed, hkind, hbound, hs, hscratch, bind, Except.bind, hplay]
    exact View.ofView_eq (v := .plain r) hvalid
  · rcases helements e (List.mem_filter.mp he).1 with hnone | hnames
    · cases hnone
    · exact hnames

theorem mono {q : Query} (h : q.Emits inputs start stop n Q) {m : Nat} (hle : n ≤ m)
    {Q' : Int → Prop} (himp : ∀ t, Q t → Q' t) : q.Emits inputs start stop m Q' := by
  obtain ⟨s, hs, hunbroken⟩ := h
  exact ⟨s, hs, hunbroken.ascending, Nat.le_trans hunbroken.count hle,
    fun e he => (hunbroken.names e he).imp himp⟩

theorem imp {q : Query} (h : q.Emits inputs start stop n Q) {Q' : Int → Prop}
    (himp : ∀ t, Q t → Q' t) : q.Emits inputs start stop n Q' := h.mono (Nat.le_refl n) himp

theorem select (h : source.Gives inputs start stop Q v) (hle : start ≤ stop) (hexpr : expr.Safe 1)
    (kind : Kind) :
    (Query.select source expr kind).Emits inputs start stop v.size Q := by
  have hread := h.sound.readable start stop
  have horderly := orderly_select hread hexpr.check
  refine ⟨StreamGauge.select expr (v.elementsIn start stop), ?_, horderly.ascending,
    Nat.le_trans horderly.count (View.length_elementsIn_le h.sound.valid), fun e he => ?_⟩
  · simp only [Query.emissions, h.feed, bind, Except.bind,
      View.elementsIn_feed h.sound.valid h.sound.wellFormed hle]
    rfl
  · rw [toList_select] at he
    obtain ⟨x, hx, rfl⟩ := List.mem_map.mp he
    obtain ⟨a, ha⟩ := hread.value x hx
    obtain ⟨b, hb⟩ := Expr.Safe.compute_eq [a] hexpr
    have hone : selectOne expr x = .during x.span b := by
      simp only [selectOne, ha, bind, Except.bind, hb, Emission.ofResult]
    rw [hone]
    exact h.times x hx

theorem filter (h : source.Gives inputs start stop Q v) (hle : start ≤ stop)
    (hexpr : expr.Safe 1) : (Query.filter source expr).Emits inputs start stop v.size Q := by
  have hread := h.sound.readable start stop
  have horderly := orderly_filter hread hexpr.check
  refine ⟨StreamGauge.filter expr (v.elementsIn start stop), ?_, horderly.ascending,
    Nat.le_trans horderly.count (View.length_elementsIn_le h.sound.valid), fun e he => ?_⟩
  · simp only [Query.emissions, h.feed, bind, Except.bind,
      View.elementsIn_feed h.sound.valid h.sound.wellFormed hle]
    rfl
  · rw [toList_filter] at he
    obtain ⟨x, hx, rfl⟩ := List.mem_map.mp he
    obtain ⟨a, ha⟩ := hread.value x hx
    obtain ⟨b, hb⟩ := Expr.Safe.compute_eq [a] hexpr
    simp only [filterOne, ha, hb]
    split
    · exact h.times x hx
    · exact (h.times x hx).2

/-- Windows name their ticks and no other time, whatever their elements are. -/
theorem window {P : Int → Prop} {length period : Int} {reducer : Reducer}
    (h : source.Gives inputs start stop P v) (hle : start ≤ stop) (hlength : 0 < length)
    (hperiod : 0 < period) (htimes : (Query.window source length period reducer kind).TimesFit start
      stop) (hQ : ∀ k ∈ tickNumbers start stop period, Q (start + k * period)) :
    (Query.window source length period reducer kind).Emits inputs start stop
      ((stop - start) / period).toNat Q := by
  obtain ⟨hvalid, hwf, hno⟩ := h.sound
  obtain ⟨-, -, hend, hticks⟩ := htimes
  have horderly := @orderly_window start stop v length period reducer h.sound hle hlength hperiod
    hend hticks
  have hcomplete : v.Complete reducer start stop length period :=
    ⟨fun k hk => hno.completeAt hvalid hwf hle hlength (hticks k hk).1 (hticks k hk).2, hend⟩
  have hhalts := (View.halts_window hvalid hwf hle hlength hperiod).1.mp hcomplete
  refine ⟨StreamGauge.window length period reducer v.feed start stop, ?_, horderly.ascending,
    horderly.count, fun e he => ?_⟩
  · simp only [Query.emissions, h.feed, bind, Except.bind]
    rfl
  · have hhalt := hhalts e he
    rw [toList_window (hwf.inOrder hvalid) hperiod hle, endOfRun, if_pos hend,
      List.append_nil] at he
    obtain ⟨k, hk, rfl⟩ := List.mem_map.mp he
    have hat := emissionAt_isAt v.feed length period reducer start stop (start + k * period)
    have htick := hQ k hk
    cases hek : emissionAt v.feed length period reducer start stop (start + k * period) with
    | during span x =>
      rw [hek] at hat
      exact hat.elim
    | upTo time x =>
      rw [hek] at hat
      cases hat
      exact htick
    | pass time =>
      rw [hek] at hat
      cases hat
      exact htick
    | halt x =>
      rw [hek] at hhalt
      cases hhalt

/-- A join names the ends of its overlaps. -/
theorem innerJoin {left right : Source} {Ql Qr : Int → Prop}
    (hl : left.Gives inputs start stop Ql v) (hr : right.Gives inputs start stop Qr w)
    (hle : start ≤ stop) (hexpr : expr.Safe 2) (kind : Kind)
    (hQ : ∀ p ∈ overlaps (v.elementsIn start stop) (w.elementsIn start stop),
      Q (overlap p.1 p.2).start ∧ Q (overlap p.1 p.2).stop) :
    (Query.join left right expr none kind).Emits inputs start stop
      (overlaps (v.elementsIn start stop) (w.elementsIn start stop)).length Q := by
  have hleft := hl.sound.readable start stop
  have hright := hr.sound.readable start stop
  refine ⟨StreamGauge.innerJoin expr (v.elementsIn start stop) (w.elementsIn start stop), ?_,
    (orderly_innerJoin hleft hright hexpr.check).ascending, ?_, fun e he => ?_⟩
  · simp only [Query.emissions, hl.feed, hr.feed, bind, Except.bind,
      View.elementsIn_feed hl.sound.valid hl.sound.wellFormed hle,
      View.elementsIn_feed hr.sound.valid hr.sound.wellFormed hle]
    rfl
  · rw [toList_innerJoin]
    exact Nat.le_trans List.countP_le_length (Nat.le_of_eq (List.length_map _))
  · rw [toList_innerJoin] at he
    obtain ⟨p, hp, rfl⟩ := List.mem_map.mp he
    obtain ⟨x, hx⟩ := joined_eq_during hexpr (overlap p.1 p.2)
      (hleft.value p.1 (mem_overlaps hp).1) (hright.value p.2 (mem_overlaps hp).2.1)
    rw [hx]
    exact hQ p hp

/-- An outer join names the ends of its pieces, each of which is an end of an element. -/
theorem outerJoin {left right : Source} (hl : left.Gives inputs start stop Q v)
    (hr : right.Gives inputs start stop Q w) (hle : start ≤ stop) (hexpr : expr.Safe 2)
    (fill : Value) (kind : Kind) :
    (Query.join left right expr (some fill) kind).Emits inputs start stop
      (coveredPieces (v.elementsIn start stop ++ w.elementsIn start stop)).length Q := by
  have hleft := hl.sound.readable start stop
  have hright := hr.sound.readable start stop
  have hside : ∀ es, Readable start es → ∀ p : Int × Int,
      ∃ x, sideValue fill (es.find? (·.covers p.1 p.2)) = .ok x := by
    intro es hes p
    cases hfind : es.find? (·.covers p.1 p.2) with
    | none => exact ⟨fill, rfl⟩
    | some e => exact hes.value e (List.mem_of_find?_eq_some hfind)
  have hlist := toList_outerJoin expr fill hleft.inOrder hright.inOrder
  refine ⟨StreamGauge.outerJoin expr fill (v.elementsIn start stop) (w.elementsIn start stop), ?_,
    (orderly_outerJoin hleft hright hexpr.check).ascending,
    countP_outerJoin_le hleft.inOrder hright.inOrder, fun e he => ?_⟩
  · simp only [Query.emissions, hl.feed, hr.feed, bind, Except.bind,
      outerJoinIn_eq expr fill hl.sound.valid hr.sound.valid hl.sound.wellFormed
        hr.sound.wellFormed hle]
    rfl
  · rw [hlist] at he
    obtain ⟨p, hp, rfl⟩ := List.mem_map.mp he
    obtain ⟨x, hx⟩ := joined_eq_during hexpr (.between p.1 p.2) (hside _ hleft p) (hside _ hright p)
    rw [pieceEmission, hx]
    exact names_coveredPieces (fun e he =>
      (List.mem_append.mp he).elim (hl.times e) (hr.times e)) hp

end Query.Emits

end

end StreamGauge
