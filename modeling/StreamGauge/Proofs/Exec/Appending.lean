import StreamGauge.Proofs.Exec.Run

/-!
# Runs only append

However a run ends, what it does to its output is to append elements and to move its stop forward.

* `PlainRegion.play_committed`: the elements are the first of those that the emissions commit
  (`placed`), and all of them if nothing stops the run.
* `PlainRegion.play_wider`: a region with fewer slots gets the first of the elements that a wider
  one gets, as many as it has slots. What lies in the slots before plays no part, so a slot is read
  as the run wrote it.
* `PlainRegion.play_full`: a run that stops for want of a slot has used all of them.

`run_appends` says the same of the run of a checked query.
-/

namespace StreamGauge

/-! ## Emissions that a region takes -/

/-- The emission follows the stop of the region, and there is a slot for its element. -/
structure Emission.Fits (r : PlainRegion) (e : Emission) : Prop where
  follows : e.Follows r.stop
  goesOn : e.isHalt = false
  room : e.isElement = true → r.count < r.capacity

theorem Emission.Follows.stop_le {time : Int} {e : Emission} (h : e.Follows time) :
    time ≤ e.stopAfter time := by
  cases e with
  | during span v =>
    obtain ⟨hstart, hlength⟩ := h
    show time ≤ span.stop
    unfold Span.stop
    omega
  | upTo stop v => exact Int.le_of_lt h
  | pass stop => exact h
  | halt x => exact Int.le_refl time

namespace PlainRegion

variable {r wide : PlainRegion}

/-- Of a region with the same elements and times, this one has as many slots or fewer. -/
structure Wider (r wide : PlainRegion) : Prop where
  start : wide.start = r.start
  stop : wide.stop = r.stop
  kind : wide.kind = r.kind
  elements : wide.elements = r.elements
  capacity : r.capacity ≤ wide.capacity

theorem Valid.length_elements (h : r.Valid) : r.elements.length = r.count :=
  View.length_elements (v := .plain r) h

theorem Wider.count (h : r.Wider wide) (hr : r.Valid) (hw : wide.Valid) :
    wide.count = r.count := by
  rw [← hw.length_elements, h.elements, hr.length_elements]

theorem Valid.accept_of_fits (h : r.Valid) {e : Emission} (hfits : e.Fits r) :
    ∃ r', r.accept e = (r', .ok ()) ∧ r.Extends r' (e.element? r.kind r.stop).toList ∧
      r'.stop = e.stopAfter r.stop :=
  accept_follows h hfits.follows hfits.room hfits.goesOn

/-- An emission that does not fit is refused. The region is the reason if it has no slot left. -/
theorem Valid.accept_of_not_fits (h : r.Valid) {e : Emission} (hfits : ¬ e.Fits r) :
    ∃ x, r.accept e = (r, .error x) ∧ ∀ c, x = .region (.full c) →
      (c = r.capacity ∧ r.count = r.capacity) ∨ e = .halt x := by
  have hle := h.count_le
  cases e with
  | during span v =>
    rw [h.accept_during]
    split
    case isTrue => exact ⟨_, rfl, fun c hc => by cases hc⟩
    case isFalse hgap =>
      split
      case isTrue hfull => exact ⟨_, rfl, fun c hc => by cases hc; exact .inl ⟨rfl, hfull⟩⟩
      case isFalse hroom =>
        refine absurd ⟨?_, rfl, fun _ => by omega⟩ hfits
        show r.stop ≤ span.start ∧ 0 < span.length
        omega
  | upTo time v =>
    rw [h.accept_upTo]
    split
    case isTrue hfull => exact ⟨_, rfl, fun c hc => by cases hc; exact .inl ⟨rfl, hfull⟩⟩
    case isFalse hroom =>
      split
      case isTrue => exact ⟨_, rfl, fun c hc => by cases hc⟩
      case isFalse hstop =>
        refine absurd ⟨?_, rfl, fun _ => by omega⟩ hfits
        show r.stop < time
        omega
  | pass time =>
    rw [accept_pass]
    split
    case isTrue => exact ⟨_, rfl, fun c hc => by cases hc⟩
    case isFalse hlt => exact absurd ⟨Int.not_lt.mp hlt, rfl, fun he => by cases he⟩ hfits
  | halt x => exact ⟨x, rfl, fun c _ => .inr rfl⟩

/-- A wider region takes what a region takes; if the region still has a slot, it takes nothing
else. -/
theorem Wider.fits_iff (h : r.Wider wide) (hr : r.Valid) (hw : wide.Valid) (e : Emission)
    (hroom : r.count < r.capacity) : e.Fits wide ↔ e.Fits r := by
  have hcount := h.count hr hw
  have hcapacity := h.capacity
  constructor
  · rintro ⟨hfollows, hhalt, -⟩
    exact ⟨h.stop ▸ hfollows, hhalt, fun _ => hroom⟩
  · rintro ⟨hfollows, hhalt, -⟩
    exact ⟨h.stop.symm ▸ hfollows, hhalt, fun _ => by omega⟩

theorem Wider.fits (h : r.Wider wide) (hr : r.Valid) (hw : wide.Valid) {e : Emission}
    (hfits : e.Fits r) : e.Fits wide := by
  have hcount := h.count hr hw
  have hcapacity := h.capacity
  exact ⟨h.stop.symm ▸ hfits.follows, hfits.goesOn, fun he => by have := hfits.room he; omega⟩

/-! ## Plays -/

/-- The run appends the first of the elements that the emissions commit, and all of them if it ends
well. The stop only moves forward. -/
theorem play_committed (h : r.Valid) (s : Sequence Emission) :
    ∃ es, r.Extends (r.play s).1 es ∧ r.stop ≤ (r.play s).1.stop ∧
      es <+: placed r.kind r.stop s.toList ∧
      ((r.play s).2 = .ok () → es = placed r.kind r.stop s.toList) := by
  -- On the emissions: each that fits adds its element, and the first that does not ends the run.
  induction s generalizing r with
  | nil => exact ⟨[], .refl h, Int.le_refl _, List.prefix_rfl, fun _ => rfl⟩
  | cons e rest ih =>
    rw [play]
    by_cases hfits : e.Fits r
    · obtain ⟨r', haccept, hext, hstop⟩ := h.accept_of_fits hfits
      obtain ⟨es, hes, hle, hprefix, hall⟩ := ih () hext.valid
      have hforward := hfits.follows.stop_le
      rw [hext.kind, hstop] at hprefix hall
      rw [haccept]
      refine ⟨_, hext.trans hes, by show r.stop ≤ (r'.play _).1.stop; omega, ?_, fun hok => ?_⟩
      · exact (List.prefix_append_right_inj _).mpr hprefix
      · rw [hall hok]
        rfl
    · obtain ⟨x, haccept, -⟩ := h.accept_of_not_fits hfits
      rw [haccept]
      exact ⟨[], .refl h, Int.le_refl _, List.nil_prefix, fun hok => by cases hok⟩

/-- A region gets the first of the elements that a wider one gets, as many as it has slots. -/
theorem play_wider (hr : r.Valid) (hw : wide.Valid) (h : r.Wider wide) (s : Sequence Emission) :
    ∃ es es', r.Extends (r.play s).1 es ∧ wide.Extends (wide.play s).1 es' ∧
      es = es'.take (r.capacity - r.count) := by
  -- Both regions go on together while the narrow one has room, so both are generalized.
  induction s generalizing r wide with
  | nil => exact ⟨[], [], .refl hr, .refl hw, by simp⟩
  | cons e rest ih =>
    rw [play, play]
    by_cases hfits : e.Fits r
    · obtain ⟨r', haccept, hext, hstop⟩ := hr.accept_of_fits hfits
      obtain ⟨wide', haccept', hext', hstop'⟩ := hw.accept_of_fits (h.fits hr hw hfits)
      rw [h.kind, h.stop] at hext'
      rw [h.stop] at hstop'
      have hwider : r'.Wider wide' := by
        refine ⟨?_, hstop'.trans hstop.symm, ?_, ?_, ?_⟩
        · rw [hext'.start, hext.start, h.start]
        · rw [hext'.kind, hext.kind, h.kind]
        · rw [hext'.elements, hext.elements, h.elements]
        · rw [hext'.capacity, hext.capacity]
          exact h.capacity
      obtain ⟨es, es', hes, hes', htake⟩ := ih () hext.valid hext'.valid hwider
      have hcount := hext.count hr
      rw [haccept, haccept']
      refine ⟨_, _, hext.trans hes, hext'.trans hes', ?_⟩
      have hle := hext.valid.count_le
      rw [hcount, hext.capacity] at hle
      have hfree : r'.capacity - r'.count =
          r.capacity - r.count - (e.element? r.kind r.stop).toList.length := by
        rw [hext.capacity, hcount]
        omega
      rw [htake, hfree, List.take_append,
        List.take_of_length_le (l := (e.element? r.kind r.stop).toList) (by omega)]
    · obtain ⟨x, haccept, -⟩ := hr.accept_of_not_fits hfits
      rw [haccept]
      by_cases hroom : r.count < r.capacity
      · -- With a slot left, the wider region has the same reason to refuse.
        obtain ⟨y, haccept', -⟩ :=
          hw.accept_of_not_fits (mt (h.fits_iff hr hw e hroom).mp hfits)
        rw [haccept']
        exact ⟨[], [], .refl hr, .refl hw, by simp⟩
      -- Without a slot, the narrow region keeps no more, whatever the wider one goes on to take.
      · obtain ⟨es', hes'⟩ := play_extends hw (.cons e rest)
        rw [play] at hes'
        refine ⟨[], es', .refl hr, hes', ?_⟩
        rw [show r.capacity - r.count = 0 by omega, List.take_zero]

/-- A run that stops for want of a slot has used all of them. -/
theorem play_full (h : r.Valid) {s : Sequence Emission} {c : Nat}
    (hhalts : .halt (.region (.full c)) ∉ s.toList)
    (hfull : (r.play s).2 = .error (.region (.full c))) :
    c = r.capacity ∧ (r.play s).1.count = r.capacity := by
  induction s generalizing r with
  | nil => cases hfull
  | cons e rest ih =>
    simp only [Sequence.toList, List.mem_cons, not_or] at hhalts
    rw [play] at hfull ⊢
    by_cases hfits : e.Fits r
    · obtain ⟨r', haccept, hext, -⟩ := h.accept_of_fits hfits
      rw [haccept] at hfull ⊢
      rw [← hext.capacity]
      exact ih () hext.valid hhalts.2 hfull
    · obtain ⟨x, haccept, hreason⟩ := h.accept_of_not_fits hfits
      rw [haccept] at hfull ⊢
      cases hfull
      rcases hreason c rfl with hregion | hhalt
      · exact hregion
      · exact absurd hhalt.symm hhalts.1

end PlainRegion

/-! ## The run -/

section

variable {inputs : List View} {start stop : Int} {q : Query} {out : PlainRegion}

/-- The elements that the query commits to a region of a kind that stops at `time`, if nothing
stops the run. -/
def Query.committed (inputs : List View) (start stop : Int) (q : Query) (kind : Kind)
    (time : Int) : List Element :=
  match q.emissions inputs start stop with
  | .ok emissions => placed kind time emissions.toList
  | .error _ => []

/-- A checked query over sound inputs does not halt for want of a slot. -/
theorem Query.emissions_ne_full (hin : ∀ v ∈ inputs, v.Sound) (hle : start ≤ stop)
    (hcheck : q.check = .ok ()) (harity : q.arity ≤ inputs.length) (htimes : q.TimesFit start stop)
    (c : Nat) :
    q.emissions inputs start stop ≠ .error (.region (.full c)) ∧
      ∀ s, q.emissions inputs start stop = .ok s → .halt (.region (.full c)) ∉ s.toList := by
  obtain ⟨n, -, hemissions⟩ := q.emissions_yields hin hle hcheck harity htimes
  rcases hemissions with ⟨s, hs, horderly⟩ | ⟨x, hx, hdiv | ⟨-, m, hbuffer, -⟩⟩
  · rw [hs]
    refine ⟨nofun, fun s' hs' hmem => ?_⟩
    cases hs'
    cases horderly.halts _ hmem
  · rw [hx, hdiv]
    exact ⟨nofun, nofun⟩
  · rw [hx, hbuffer]
    exact ⟨nofun, nofun⟩

/-- A run of a checked query over well-formed inputs, in which nothing overflows, into any region.
However it ends, it only appends elements:

* the region stays reachable, and so valid; its elements, start, kind and capacity stay as they
  were, and its stop does not go back;
* the new elements are the first of those that the query commits, each with its value, and all of
  them if the run ends well;
* a wider region, whatever lies in its free slots, gets the same elements up to the number of slots
  that are free here, and maybe more;
* if the run stops because the output is full, all its slots are used. -/
theorem run_appends (hcheck : q.check = .ok ()) (harity : q.arity ≤ inputs.length)
    (hreach : ∀ v ∈ inputs, v.Reachable) (hwf : ∀ v ∈ inputs, v.WellFormed)
    (hno : ∀ v ∈ inputs, v.NoOverflow) (htimes : q.TimesFit start stop) (hle : start ≤ stop)
    (hout : out.Reachable) :
    ∃ es, out.Extends (q.run inputs start stop out).1 es ∧
      (q.run inputs start stop out).1.Reachable ∧
      out.stop ≤ (q.run inputs start stop out).1.stop ∧
      es <+: q.committed inputs start stop out.kind out.stop ∧
      ((q.run inputs start stop out).2 = .ok () →
        es = q.committed inputs start stop out.kind out.stop) ∧
      (∀ wide : PlainRegion, wide.Reachable → out.Wider wide →
        ∃ es', wide.Extends (q.run inputs start stop wide).1 es' ∧
          es = es'.take (out.capacity - out.count)) ∧
      (∀ c, (q.run inputs start stop out).2 = .error (.region (.full c)) →
        c = out.capacity ∧ es.length = out.capacity - out.count) := by
  have hin : ∀ v ∈ inputs, v.Sound := fun v hv => ⟨(hreach v hv).valid, hwf v hv, hno v hv⟩
  have hvalid := hout.valid
  have hhalts := q.emissions_ne_full hin hle hcheck harity htimes
  unfold Query.run Query.committed
  cases hs : q.emissions inputs start stop with
  | error x =>
    refine ⟨[], .refl hvalid, hout, Int.le_refl _, List.nil_prefix, nofun,
      fun wide hwide _ => ⟨[], .refl hwide.valid, by simp⟩, fun c hc => ?_⟩
    cases hc
    exact absurd hs (hhalts c).1
  | ok s =>
    obtain ⟨es, hext, hforward, hprefix, hall⟩ := PlainRegion.play_committed hvalid s
    refine ⟨es, hext, hout.play s, hforward, hprefix, hall, fun wide hwide hwider => ?_,
      fun c hc => ?_⟩
    · obtain ⟨es₁, es', hes₁, hes', htake⟩ := PlainRegion.play_wider hvalid hwide.valid hwider s
      have hsame : es = es₁ := List.append_cancel_left (hext.elements.symm.trans hes₁.elements)
      exact ⟨es', hes', hsame.trans htake⟩
    · obtain ⟨hcapacity, hcount⟩ := PlainRegion.play_full hvalid ((hhalts c).2 s hs) hc
      have := hext.count hvalid
      exact ⟨hcapacity, by omega⟩

/-- Three elements for one free slot: the first is appended beside the old one, and the same run
into a region of four slots begins with it. -/
theorem run_appends_until_full :
    let q : Query := .select (.input 0) (.binary .add (.input 0) (.const (.int 3))) .i8
    let input := (((PlainRegion.allocate .i8 3 0).record ⟨1, 1⟩ (.int 5)).record ⟨2, 1⟩
      (.int 6)).record ⟨3, 1⟩ (.int 7)
    let out := (PlainRegion.allocate .i8 2 0).record ⟨0, 1⟩ (.int 1)
    let wide := (PlainRegion.allocate .i8 4 0).record ⟨0, 1⟩ (.int 1)
    ∃ out' wide' es', q.run [.plain input] 0 4 out = (out', .error (.region (.full 2))) ∧
      out'.elements = [⟨⟨0, 1⟩, some (.int 1)⟩, ⟨⟨1, 1⟩, some (.int 8)⟩] ∧
      q.run [.plain input] 0 4 wide = (wide', .ok ()) ∧ wide.Extends wide' es' ∧
      [⟨⟨1, 1⟩, some (.int 8)⟩] = es'.take 1 := by
  intro q input out wide
  have hinput : input.Reachable := .record (.record (.record
    (@PlainRegion.Reachable.allocate .i8 3 0 _ rfl) (by decide) _) (by decide) _) (by decide) _
  have hout : out.Reachable := .record (@PlainRegion.Reachable.allocate .i8 2 0 _ rfl) (by decide) _
  have hwide : wide.Reachable :=
    .record (@PlainRegion.Reachable.allocate .i8 4 0 _ rfl) (by decide) _
  have hall : ∀ {P : View → Prop}, P (.plain input) → ∀ v ∈ [View.plain input], P v :=
    fun h v hv => by rwa [List.mem_singleton.mp hv]
  have hread : (View.plain input).elementsIn 0 4 = [⟨⟨1, 1⟩, some (.int 5)⟩,
      ⟨⟨2, 1⟩, some (.int 6)⟩, ⟨⟨3, 1⟩, some (.int 7)⟩] := by decide
  have hrun : ∀ r, q.run [.plain input] 0 4 r = r.play (select (.binary .add (.input 0)
      (.const (.int 3))) ((View.plain input).elementsIn 0 4)) := fun r => by
    have hfeed := @View.feed_input [.plain input] 0 _ rfl hinput.valid 0 4
    simp only [q, Query.run, Query.emissions, hfeed, bind, Except.bind,
      View.elementsIn_feed (v := .plain input) hinput.valid hinput.valid.wellFormed
        (show (0 : Int) ≤ 4 by decide)]
    rfl
  obtain ⟨es, hext, -, -, -, -, hwider, hfull⟩ := @run_appends [.plain input] 0 4 q out rfl
    (by decide) (hall hinput) (hall hinput.valid.wellFormed) (hall trivial) trivial (by decide) hout
  obtain ⟨es', hext', htake⟩ := hwider wide hwide ⟨rfl, rfl, rfl, by decide, by decide⟩
  have hended : (q.run [.plain input] 0 4 out).2 = .error (.region (.full 2)) := by
    rw [hrun, hread]
    rfl
  have helements : (q.run [.plain input] 0 4 out).1.elements =
      [⟨⟨0, 1⟩, some (.int 1)⟩, ⟨⟨1, 1⟩, some (.int 8)⟩] := by
    rw [hrun, hread]
    decide
  have hes : es = [⟨⟨1, 1⟩, some (.int 8)⟩] := by
    have hold : out.elements = [⟨⟨0, 1⟩, some (.int 1)⟩] := by decide
    have hnew := hext.elements
    rw [helements, hold] at hnew
    simpa using hnew.symm
  refine ⟨_, _, es', Prod.ext rfl hended, helements, Prod.ext rfl ?_, hext', ?_⟩
  · rw [hrun, hread]
    rfl
  · rw [← hes, htake]
    rfl

end

end StreamGauge
