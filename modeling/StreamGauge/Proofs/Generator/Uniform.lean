import StreamGauge.Generator.Uniform
import StreamGauge.Proofs.Region.Plain
import StreamGauge.Proofs.Scalar.Codec
import StreamGauge.Random.Draw

/-!
# Fills of evenly spread values

A fill either refuses a region and changes nothing, or it appends all its elements
(`UniformStream.fill_cases`).

* `PlainRegion.Continued` says of two regions that the second one has `n` elements more, each one
  period long and none of them after a gap; `UniformStream.Written` adds that their values are the
  next ones of the generator.
* `fillFrom_written`: what is left of a fill appends all that is left of its elements, if all its
  times are within 64 bits.
* `check_cases`: a fill begins exactly if there are slots for the elements and the kind holds their
  values (`Fits`). So an integer is read back as it was drawn (`Written.integer`).
* `fill_stops`: a time is the stop of the region plus a number of periods, and the periods are
  counted first. A fill whose periods leave 64 bits ends there, also where its times do not
  (`fill_all_or_nothing`).
-/

namespace StreamGauge

/-- `r'` has `n` elements more than `r`. Each of them lasts one period, from where the one before it
stops; the others are as they were. -/
structure PlainRegion.Continued (r : PlainRegion) (period : Int) (n : Nat) (r' : PlainRegion) :
    Prop where
  reachable : r'.Reachable
  kind : r'.kind = r.kind
  capacity : r'.capacity = r.capacity
  count : r'.count = r.count + n
  stop : r'.stop = r.stop + n * period
  earlier : ∀ i < r.count, r'.span? i = r.span? i ∧ r'.value? i = r.value? i
  later : ∀ i < n, r'.span? (r.count + i) = some ⟨r.stop + i * period, period⟩

namespace PlainRegion.Continued

variable {r r' : PlainRegion} {period : Int} {n : Nat}

theorem zero (hr : r.Reachable) (period : Int) : r.Continued period 0 r where
  reachable := hr
  kind := rfl
  capacity := rfl
  count := rfl
  stop := by simp
  earlier _ _ := ⟨rfl, rfl⟩
  later i hi := absurd hi (Nat.not_lt_zero i)

/-- Where the next element stops, as a region that has all but it sees it. -/
theorem between_eq (h : r.Continued period n r') :
    Span.between r'.stop (r.stop + period * (n + 1 : Nat)) = ⟨r.stop + n * period, period⟩ := by
  have hnext : period * ((n + 1 : Nat) : Int) = n * period + period := by
    rw [Int.natCast_add, Int.mul_add, Int.mul_comm]
    omega
  rw [Span.between, h.stop, hnext, Span.mk.injEq]
  omega

/-- One element more: the commit is taken, and the value goes into the slot that it answers. -/
theorem succ (h : r.Continued period n r') (hperiod : 0 < period)
    (room : r.count + n < r.capacity) (v : Value) :
    let time := r.stop + period * (n + 1 : Nat)
    r'.commit time = (r'.append (.between r'.stop time), .ok r'.count) ∧
      r.Continued period (n + 1) ((r'.append (.between r'.stop time)).put r'.count v) := by
  intro time
  have hvalid := h.reachable.valid
  have hroom : r'.count < r'.capacity := by
    rw [h.count, h.capacity]
    exact room
  have hspan : Span.between r'.stop time = ⟨r.stop + n * period, period⟩ := h.between_eq
  have hlength : 0 < (Span.between r'.stop time).length := by
    rw [hspan]
    exact hperiod
  have htime : ¬ time ≤ r'.stop := Int.not_le.mpr (Int.lt_of_sub_pos hlength)
  rw [hvalid.commit_eq, if_neg (Nat.ne_of_lt hroom), if_neg htime, hvalid.put_append hroom]
  refine ⟨rfl, h.reachable.record ⟨hroom, Int.le_refl _, hlength⟩ v, h.kind, h.capacity, ?count,
    ?stop, fun i hi => ?earlier, fun i hi => ?later⟩
  case count =>
    rw [count_record, h.count]
    rfl
  case stop =>
    rw [stop_record, Span.stop_between, Int.mul_comm _ period]
  case earlier =>
    have hne : i ≠ r'.count := by
      rw [h.count]
      omega
    rw [span?_record _ _ hvalid, value?_record _ _ hvalid hroom (by rw [h.count]; omega),
      if_neg hne, if_neg hne]
    exact h.earlier i hi
  case later =>
    rw [span?_record _ _ hvalid, h.count]
    rcases Nat.lt_succ_iff_lt_or_eq.mp hi with hlt | rfl
    · rw [if_neg (by omega)]
      exact h.later i hlt
    · rw [if_pos rfl, hspan]

end PlainRegion.Continued

namespace UniformStream

/-- How many periods there are within 64 bits. -/
theorem periods_within {p : Int} (hp : 0 < p) {n : Nat} (hover : maxInt64 < n * p) :
    (maxInt64 / p).toNat < n ∧ (maxInt64 / p).toNat * p ≤ maxInt64 ∧
      maxInt64 < ((maxInt64 / p).toNat + 1 : Nat) * p := by
  have hnonneg : 0 ≤ maxInt64 / p := Int.ediv_nonneg (by decide) (Int.le_of_lt hp)
  have hle := Int.ediv_mul_le maxInt64 (Int.ne_of_gt hp)
  have hlt := Int.lt_ediv_add_one_mul_self maxInt64 hp
  rw [Int.natCast_add, Int.toNat_of_nonneg hnonneg]
  refine ⟨?_, hle, hlt⟩
  have := Int.ediv_lt_of_lt_mul hp hover
  omega

section Fills

variable [RandomSource] {g : UniformStream} {r r' : PlainRegion}

/-- A draw moves the draws on and nothing else. -/
theorem exists_draws_nextValue (g : UniformStream) (float : Bool) :
    ∃ draws, (g.nextValue float).2 = { g with draws := draws } := by
  unfold nextValue
  split <;> exact ⟨_, rfl⟩

/-- The times of a fill lie between its first and its last one. -/
theorem timeAfter_eq (hperiod : 0 < g.period) {base : Int} (hbase : minInt64 ≤ base) {k n : Nat}
    (hk : k ≤ n) (hn : n * g.period ≤ maxInt64) (hlast : base + n * g.period ≤ maxInt64) :
    g.timeAfter base k = .ok (base + g.period * k) := by
  have hle : (k : Int) * g.period ≤ n * g.period :=
    Int.mul_le_mul_of_nonneg_right (Int.ofNat_le.mpr hk) (Int.le_of_lt hperiod)
  have hnonneg : 0 ≤ (k : Int) * g.period :=
    Int.mul_nonneg (Int.natCast_nonneg k) (Int.le_of_lt hperiod)
  rw [Int.mul_comm] at hle hnonneg
  have helapsed : isInt64 (g.period * k) = true :=
    isInt64_iff.mpr ⟨by unfold minInt64; omega, by omega⟩
  have htime : isInt64 (base + g.period * k) = true := isInt64_iff.mpr ⟨by omega, by omega⟩
  simp only [timeAfter, helapsed, htime, Bool.not_true, Bool.false_eq_true, ↓reduceIte]

/-! ## What a fill writes -/

/-- The generator after `n` values. -/
def after (g : UniformStream) (float : Bool) : Nat → UniformStream
  | 0 => g
  | n + 1 => ((g.after float n).nextValue float).2

/-- The value of element `n` of a fill. -/
def valueAt (g : UniformStream) (float : Bool) (n : Nat) : Value :=
  ((g.after float n).nextValue float).1

theorem exists_draws_after (g : UniformStream) (float : Bool) (n : Nat) :
    ∃ draws, g.after float n = { g with draws := draws } := by
  induction n with
  | zero => exact ⟨g.draws, rfl⟩
  | succ n ih =>
    obtain ⟨draws, hdraws⟩ := ih
    obtain ⟨draws', hdraws'⟩ := (g.after float n).exists_draws_nextValue float
    exact ⟨draws', by rw [after, hdraws', hdraws]⟩

theorem timeAfter_after (g : UniformStream) (float : Bool) (n : Nat) (base : Int) (k : Nat) :
    (g.after float n).timeAfter base k = g.timeAfter base k := by
  obtain ⟨draws, hdraws⟩ := g.exists_draws_after float n
  rw [hdraws]
  rfl

/-- `r'` has the first `n` elements of a fill more than `r`, with the values that the generator
gives. -/
structure Written (g : UniformStream) (r : PlainRegion) (n : Nat) (r' : PlainRegion) : Prop extends
    r.Continued g.period n r' where
  values : ∀ i < n, r'.value? (r.count + i) =
    some (r.kind.convert (g.valueAt r.kind.isFloat i))

namespace Written

variable {n : Nat}

theorem zero (g : UniformStream) (hr : r.Reachable) : g.Written r 0 r :=
  ⟨.zero hr g.period, fun i hi => absurd hi (Nat.not_lt_zero i)⟩

/-- One element more, with the next value. -/
theorem succ (h : g.Written r n r') (hperiod : 0 < g.period) (room : r.count + n < r.capacity) :
    let time := r.stop + g.period * (n + 1 : Nat)
    r'.commit time = (r'.append (.between r'.stop time), .ok r'.count) ∧
      g.Written r (n + 1)
        ((r'.append (.between r'.stop time)).put r'.count (g.valueAt r.kind.isFloat n)) := by
  obtain ⟨hcommit, hnext⟩ := h.toContinued.succ hperiod room (g.valueAt r.kind.isFloat n)
  have hroom : r'.count < r'.capacity := by
    rw [h.count, h.capacity]
    exact room
  refine ⟨hcommit, hnext, fun i hi => ?_⟩
  have hvalid := h.reachable.valid
  rw [hvalid.put_append hroom,
    PlainRegion.value?_record _ _ hvalid hroom (by rw [h.count]; omega), h.count]
  rcases Nat.lt_succ_iff_lt_or_eq.mp hi with hlt | rfl
  · rw [if_neg (by omega)]
    exact h.values i hlt
  · rw [if_pos rfl, h.kind]

end Written

/-- What is left of a fill appends all that is left of its elements. -/
theorem fillFrom_written (hperiod : 0 < g.period) (hbase : minInt64 ≤ r.stop) (remaining : Nat)
    {done : Nat} (h : g.Written r done r') (room : r.count + (done + remaining) ≤ r.capacity)
    (helapsed : (done + remaining : Nat) * g.period ≤ maxInt64)
    (hlast : r.stop + (done + remaining : Nat) * g.period ≤ maxInt64) :
    ∃ r'', (g.after r.kind.isFloat done).fillFrom r.stop done remaining r' =
        ((g.after r.kind.isFloat (done + remaining), r''), .ok ()) ∧
      g.Written r (done + remaining) r'' := by
  -- On what is left: `done` elements are written, and the generator is the one after `done` draws.
  induction remaining generalizing r' done with
  | zero => exact ⟨r', rfl, h⟩
  | succ remaining ih =>
    have htime := timeAfter_eq hperiod hbase (show done + 1 ≤ done + (remaining + 1) by omega)
      helapsed hlast
    rw [← g.timeAfter_after r.kind.isFloat done] at htime
    obtain ⟨hcommit, hnext⟩ := h.succ hperiod (by omega)
    have hcount : done + 1 + remaining = done + (remaining + 1) := by omega
    obtain ⟨r'', hrun, hdone⟩ := ih hnext (by omega) (by rw [hcount]; exact helapsed)
      (by rw [hcount]; exact hlast)
    rw [hcount] at hrun hdone
    refine ⟨r'', ?_, hdone⟩
    rw [fillFrom]
    have hkind : (r'.append (.between r'.stop (r.stop + g.period * (done + 1 : Nat)))).kind =
      r.kind := h.kind
    simp only [htime, hcommit, hkind]
    exact hrun

/-! ## When a fill begins -/

/-- There are slots for the elements, and the kind holds their values. -/
structure Fits (g : UniformStream) (r : PlainRegion) : Prop where
  room : r.count + g.length ≤ r.capacity
  range : ∀ lo hi, r.kind.intRange? = some (lo, hi) → lo ≤ g.minValue ∧ g.maxValue ≤ hi

/-- All that a check can answer. -/
theorem check_cases (g : UniformStream) (hr : r.Valid) :
    (g.Fits r ∧ g.check r = .ok ()) ∨
      (¬ g.Fits r ∧ ∃ cause, g.check r = .error (.config cause)) := by
  have hle := hr.count_le
  unfold check
  by_cases hroom : r.capacity - r.count < g.length
  · refine .inr ⟨fun hfits => ?_, _, if_pos hroom⟩
    have := hfits.room
    omega
  rw [if_neg hroom]
  rcases checkFits_cases .value r.kind g.minValue g.maxValue with
    ⟨hrange, hok⟩ | ⟨⟨first, last, hrange, hout⟩, herror⟩
  · exact .inl ⟨⟨by omega, hrange⟩, hok⟩
  · refine .inr ⟨fun hfits => ?_, _, herror⟩
    have := hfits.range first last hrange
    omega

theorem fits_of_check (hr : r.Valid) (hcheck : g.check r = .ok ()) : g.Fits r := by
  rcases g.check_cases hr with ⟨hfits, -⟩ | ⟨-, cause, herror⟩
  · exact hfits
  · rw [herror] at hcheck
    cases hcheck

/-- A fill that is checked and in time writes all its elements. -/
theorem fill_written (hperiod : 0 < g.period) (hr : r.Reachable) (hbase : minInt64 ≤ r.stop)
    (hcheck : g.check r = .ok ()) (helapsed : g.length * g.period ≤ maxInt64)
    (hlast : r.stop + g.length * g.period ≤ maxInt64) :
    ∃ r', g.fill r = ((g.after r.kind.isFloat g.length, r'), .ok ()) ∧
      g.Written r g.length r' := by
  have hfits := fits_of_check hr.valid hcheck
  have hrun := fillFrom_written hperiod hbase g.length (.zero g hr)
    (by rw [Nat.zero_add]; exact hfits.room) (by rw [Nat.zero_add]; exact helapsed)
    (by rw [Nat.zero_add]; exact hlast)
  rw [Nat.zero_add] at hrun
  rw [fill, hcheck]
  exact hrun

/-- A fill with all its times within 64 bits is refused and changes nothing, or it appends all its
elements. It is refused if there are too few slots or if the kind does not hold all the values. -/
theorem fill_cases (hperiod : 0 < g.period) (hr : r.Reachable) (hbase : minInt64 ≤ r.stop)
    (helapsed : g.length * g.period ≤ maxInt64)
    (hlast : r.stop + g.length * g.period ≤ maxInt64) :
    (∃ e, g.check r = .error e ∧ g.fill r = ((g, r), .error e)) ∨
    (g.check r = .ok () ∧ ∃ draws r', g.fill r = (({ g with draws := draws }, r'), .ok ()) ∧
      r.Continued g.period g.length r') := by
  cases hcheck : g.check r with
  | error e =>
    refine .inl ⟨e, rfl, ?_⟩
    rw [fill, hcheck]
  | ok u =>
    obtain ⟨r', hfill, hdone⟩ := fill_written hperiod hr hbase hcheck helapsed hlast
    obtain ⟨draws, hdraws⟩ := g.exists_draws_after r.kind.isFloat g.length
    rw [hdraws] at hfill
    exact .inr ⟨rfl, draws, r', hfill, hdone.toContinued⟩

/-- What is left of a fill is done in two parts. -/
theorem fillFrom_add {g' : UniformStream} {base : Int} {i m : Nat}
    (h : g.fillFrom base i m r = ((g', r'), .ok ())) (n : Nat) :
    g.fillFrom base i (m + n) r = g'.fillFrom base (i + m) n r' := by
  induction m generalizing g r i with
  | zero =>
    cases h
    rw [Nat.zero_add, Nat.add_zero]
  | succ m ih =>
    rw [Nat.add_right_comm, fillFrom]
    rw [fillFrom] at h
    cases htime : g.timeAfter base (i + 1) with
    | error e =>
      rw [htime] at h
      cases h
    | ok time =>
      simp only [htime] at h ⊢
      split at h
      case h_1 => cases h
      case h_2 =>
        rw [ih h, Nat.add_right_comm]
        rfl

/-- A fill of which element `n` is the first one to stop past 64 bits, counted from the stop of the
region, ends there. -/
theorem fill_stops (hperiod : 0 < g.period) (hr : r.Reachable) (hbase : minInt64 ≤ r.stop)
    (hcheck : g.check r = .ok ()) {n : Nat} (hn : n < g.length) (helapsed : n * g.period ≤ maxInt64)
    (hlast : r.stop + n * g.period ≤ maxInt64) (hover : maxInt64 < (n + 1 : Nat) * g.period) :
    ∃ r', g.fill r = ((g.after r.kind.isFloat n, r'),
        .error (.time (g.period * (n + 1 : Nat)))) ∧ g.Written r n r' := by
  have hroom := (fits_of_check hr.valid hcheck).room
  obtain ⟨r', hrun, hdone⟩ := fillFrom_written hperiod hbase n (.zero g hr) (by omega)
    (by rw [Nat.zero_add]; exact helapsed) (by rw [Nat.zero_add]; exact hlast)
  rw [Nat.zero_add] at hrun hdone
  change g.fillFrom r.stop 0 n r = _ at hrun
  have htime : g.timeAfter r.stop (n + 1) = .error (.time (g.period * (n + 1 : Nat))) := by
    rw [Int.mul_comm] at hover
    have hnot : isInt64 (g.period * (n + 1 : Nat)) = false := by
      rw [← Bool.not_eq_true, isInt64_iff]
      omega
    simp only [timeAfter, hnot, Bool.not_false, ↓reduceIte]
  rw [← g.timeAfter_after r.kind.isFloat n] at htime
  refine ⟨r', ?_, hdone⟩
  rw [fill, hcheck]
  simp only
  rw [show g.length = n + (g.length - (n + 1) + 1) by omega]
  rw [fillFrom_add hrun, Nat.zero_add, fillFrom, htime]

/-- A fill of which all but the last element stop within 64 bits. -/
theorem fill_overruns (hperiod : 0 < g.period) (hr : r.Reachable) (hbase : minInt64 ≤ r.stop)
    (hcheck : g.check r = .ok ()) {n : Nat} (hlength : g.length = n + 1)
    (helapsed : n * g.period ≤ maxInt64) (hlast : r.stop + n * g.period ≤ maxInt64)
    (hover : maxInt64 < g.length * g.period) :
    (g.fill r).2 = .error (.time (g.length * g.period)) := by
  rw [hlength] at hover ⊢
  obtain ⟨r', hfill, -⟩ := fill_stops hperiod hr hbase hcheck (by omega) helapsed hlast hover
  rw [hfill, Int.mul_comm]

/-! ## Integers -/

/-- The generators that there are: new ones, and after fills. -/
inductive Configured : UniformStream → Prop where
  | make {period range : Int64} {length : Nat} {seed : UInt64} {g : UniformStream}
      (h : make period.toInt length range.toInt seed = .ok g) : Configured g
  | fill {g : UniformStream} (hg : Configured g) (r : PlainRegion) : Configured (g.fill r).1.1

/-- What the settings of a generator have in common. -/
structure Ranged (g : UniformStream) : Prop where
  period_pos : 0 < g.period
  range_pos : 0 < g.range
  range_le : g.range ≤ maxInt64

theorem exists_draws_fillFrom (base : Int) (done remaining : Nat) (g : UniformStream)
    (r : PlainRegion) :
    ∃ draws, (fillFrom base done remaining g r).1.1 = { g with draws := draws } := by
  induction remaining generalizing done g r with
  | zero => exact ⟨g.draws, rfl⟩
  | succ remaining ih =>
    rw [fillFrom]
    split
    · exact ⟨g.draws, rfl⟩
    · simp only
      split
      · exact ⟨g.draws, rfl⟩
      case h_2 r _ _ =>
        obtain ⟨draws, hdraws⟩ := g.exists_draws_nextValue r.kind.isFloat
        rw [hdraws]
        exact ih _ { g with draws := draws } _

theorem Configured.ranged (h : g.Configured) : g.Ranged := by
  induction h with
  | @make period range length seed g h =>
    have hlt := range.toInt_lt
    unfold UniformStream.make at h
    split at h
    · cases h
    · split at h
      · cases h
      · cases h
        exact ⟨by simp only; omega, by simp only; omega, by simp only [maxInt64]; omega⟩
  | @fill g _ r ih =>
    unfold UniformStream.fill
    split
    · exact ih
    · obtain ⟨draws, hdraws⟩ := exists_draws_fillFrom r.stop 0 g.length g r
      rw [hdraws]
      exact ⟨ih.period_pos, ih.range_pos, ih.range_le⟩

/-- The number that is drawn for element `n` of a fill of a region of integers. -/
def drawn (g : UniformStream) (n : Nat) : Int :=
  ((g.after false n).draws.int 0 (g.range - 1)).1

theorem drawn_mem (h : g.Ranged) (n : Nat) : 0 ≤ g.drawn n ∧ g.drawn n < g.range := by
  have hpos := h.range_pos
  have hle : 0 ≤ g.range - 1 := by omega
  have hmem := Draws.int_mem hle (g.after false n).draws
  unfold drawn
  omega

theorem valueAt_integer (g : UniformStream) (n : Nat) :
    g.valueAt false n = .int (Int64.ofInt (g.drawn n - g.range / 2)) := by
  obtain ⟨draws, hdraws⟩ := g.exists_draws_after false n
  unfold valueAt drawn
  rw [hdraws]
  rfl

/-- The numbers of the generator are integers of every kind that it fits. -/
theorem Fits.contains (hfits : g.Fits r) (hg : g.Ranged) (hkind : r.kind.isInteger = true)
    (n : Nat) : r.kind.Contains (g.drawn n - g.range / 2) := by
  obtain ⟨lo, hi, hrange⟩ := Kind.exists_intRange? hkind
  have hmem := g.drawn_mem hg n
  have hle := hfits.range lo hi hrange
  unfold minValue maxValue at hle
  rw [Kind.contains_iff hrange]
  omega

/-- An integer of a fill is read as the number drawn for it, less half of the range. -/
theorem Written.integer {n : Nat} (h : g.Written r n r') (hg : g.Ranged) (hfits : g.Fits r)
    (hkind : r.kind.isInteger = true) {i : Nat} (hi : i < n) :
    ∃ v : Int64, r'.value? (r.count + i) = some (.int v) ∧
      v.toInt = g.drawn i - g.range / 2 := by
  have hcontains := hfits.contains hg hkind i
  have hfloat : r.kind.isFloat = false := by
    unfold Kind.isInteger at hkind
    simpa using hkind
  refine ⟨Int64.ofInt (g.drawn i - g.range / 2), ?_, hcontains.toInt_ofInt⟩
  rw [h.values i hi, hfloat, valueAt_integer, Kind.convert_int hkind, Kind.wrap_ofInt hcontains]

/-- A fill whose last time is within 64 bits does nothing, or all of it, with one exception.

* If there are too few slots, or if the kind does not hold the values, it is refused, and nothing
  changes.
* Else it appends all its elements, one period each from the stop of the region on, and leaves
  those that were there. In a region of integers, element `i` is the number drawn for it less half
  of the range, which lies between the least and the greatest value.
* The exception is a region that stops so early that the periods alone leave 64 bits, although the
  last time does not. Such a fill ends after as many elements as there are periods within 64
  bits. -/
theorem fill_all_or_nothing (hg : g.Configured) (hr : r.Reachable) (hbase : minInt64 ≤ r.stop)
    (hlast : r.stop + g.length * g.period ≤ maxInt64) :
    let ended := (g.fill r).2
    let r' := (g.fill r).1.2
    (ended = .ok () ↔ g.Fits r ∧ g.length * g.period ≤ maxInt64) ∧
    (¬ g.Fits r → ∃ cause, g.fill r = ((g, r), .error (.config cause))) ∧
    (ended = .ok () → r'.Reachable ∧ r'.kind = r.kind ∧ r'.count = r.count + g.length ∧
      r'.stop = r.stop + g.length * g.period ∧
      (∀ i < r.count, r'.span? i = r.span? i ∧ r'.value? i = r.value? i) ∧
      ∀ i < g.length, r'.span? (r.count + i) = some ⟨r.stop + i * g.period, g.period⟩ ∧
        (r.kind.isInteger = true → ∃ v : Int64, r'.value? (r.count + i) = some (.int v) ∧
          v.toInt = g.drawn i - g.range / 2 ∧ (0 ≤ g.drawn i ∧ g.drawn i < g.range) ∧
          g.minValue ≤ v.toInt ∧ v.toInt ≤ g.maxValue)) ∧
    (g.Fits r → maxInt64 < g.length * g.period →
      let n := (maxInt64 / g.period).toNat
      n < g.length ∧ ended = .error (.time (g.period * (n + 1 : Nat))) ∧
        r'.count = r.count + n) := by
  intro ended r'
  have hranged := hg.ranged
  have hperiod := hranged.period_pos
  rcases g.check_cases hr.valid with ⟨hfits, hcheck⟩ | ⟨hnot, cause, hcheck⟩
  case inr =>
    have hfill : g.fill r = ((g, r), .error (.config cause)) := by rw [fill, hcheck]
    have herror : ended = .error (.config cause) := congrArg Prod.snd hfill
    rw [herror]
    exact ⟨⟨nofun, fun h => absurd h.1 hnot⟩, fun _ => ⟨cause, hfill⟩, nofun,
      fun hfits => absurd hfits hnot⟩
  -- The last time is within 64 bits, but from a stop below zero the periods alone may not be.
  by_cases helapsed : g.length * g.period ≤ maxInt64
  · obtain ⟨r'', hfill, hdone⟩ := fill_written hperiod hr hbase hcheck helapsed hlast
    have hok : ended = .ok () := congrArg Prod.snd hfill
    obtain rfl : r'' = r' := congrArg (·.1.2) hfill.symm
    refine ⟨⟨fun _ => ⟨hfits, helapsed⟩, fun _ => hok⟩, fun hnot => absurd hfits hnot, fun _ =>
      ⟨hdone.reachable, hdone.kind, hdone.count, hdone.stop, hdone.earlier, fun i hi =>
        ⟨hdone.later i hi, fun hkind => ?integer⟩⟩, fun _ hover => by omega⟩
    case integer =>
      obtain ⟨v, hv, hdrawn⟩ := hdone.integer hranged hfits hkind hi
      have hmem := g.drawn_mem hranged i
      refine ⟨v, hv, hdrawn, hmem, ?_⟩
      unfold minValue maxValue
      omega
  · obtain ⟨hn, hwithin, hover⟩ := periods_within hperiod (Int.not_le.mp helapsed)
    have hle : ((maxInt64 / g.period).toNat : Int) * g.period ≤ g.length * g.period :=
      Int.mul_le_mul_of_nonneg_right (Int.ofNat_le.mpr (Nat.le_of_lt hn)) (Int.le_of_lt hperiod)
    obtain ⟨r'', hfill, hdone⟩ := fill_stops hperiod hr hbase hcheck hn hwithin (by omega) hover
    have herror : ended = _ := congrArg Prod.snd hfill
    obtain rfl : r'' = r' := congrArg (·.1.2) hfill.symm
    rw [herror]
    exact ⟨⟨nofun, fun h => absurd h.2 helapsed⟩, fun hnot => absurd hfits hnot, nofun,
      fun _ _ => ⟨hn, rfl, hdone.count⟩⟩

end Fills

/-- Two elements that end at time zero. They begin so early that the second one stops 64 bits and
one after the first began, and the fill leaves the first one alone behind. A fill of the same length
from zero on writes all of it. -/
theorem fill_all_or_nothing_of_early_start :
    let _ : RandomSource := KeyStream.source
    ∃ (g g' : UniformStream) (r r' : PlainRegion),
      make 4611686018427387904 2 1 7 = .ok g ∧ make 3 2 10 7 = .ok g' ∧
      PlainRegion.allocate? .i64 2 (-9223372036854775808) = some r ∧
      PlainRegion.allocate? .i8 2 0 = some r' ∧
      r.stop + g.length * g.period = 0 ∧ g.Fits r ∧
      (g.fill r).2 = .error (.time 9223372036854775808) ∧ (g.fill r).1.2.count = 1 ∧
      (g'.fill r').2 = .ok () ∧ (g'.fill r').1.2.count = 2 := by
  intro _
  have hmake : make (4611686018427387904 : Int64).toInt 2 (1 : Int64).toInt 7 =
      .ok ⟨4611686018427387904, 2, 1, .ofSeed 7⟩ := rfl
  have hmake' : make (3 : Int64).toInt 2 (10 : Int64).toInt 7 = .ok ⟨3, 2, 10, .ofSeed 7⟩ := rfl
  have hr : PlainRegion.allocate? .i64 2 (-9223372036854775808) = some _ := rfl
  have hr' : PlainRegion.allocate? .i8 2 0 = some _ := rfl
  have hfits : Fits ⟨4611686018427387904, 2, 1, .ofSeed 7⟩
      (PlainRegion.allocate .i64 2 (-9223372036854775808)) :=
    ⟨show 0 + 2 ≤ 2 by decide, fun lo hi hrange => by
      cases hrange
      exact show minInt64 ≤ -(1 / 2) ∧ 1 - 1 / 2 - 1 ≤ maxInt64 by decide⟩
  have hfits' : Fits ⟨3, 2, 10, .ofSeed 7⟩ (PlainRegion.allocate .i8 2 0) :=
    ⟨show 0 + 2 ≤ 2 by decide, fun lo hi hrange => by
      cases hrange
      exact show (-128 : Int) ≤ -(10 / 2) ∧ (10 : Int) - 10 / 2 - 1 ≤ 127 by decide⟩
  obtain ⟨-, -, -, hover⟩ := fill_all_or_nothing (.make hmake) (.allocate hr) (by decide)
    (show (-9223372036854775808 : Int) + 2 * 4611686018427387904 ≤ maxInt64 by decide)
  obtain ⟨hok, -, hwritten, -⟩ := fill_all_or_nothing (.make hmake') (.allocate hr') (by decide)
    (show (0 : Int) + 2 * 3 ≤ maxInt64 by decide)
  obtain ⟨-, herror, hcount⟩ := hover hfits
    (show maxInt64 < (2 : Int) * 4611686018427387904 by decide)
  have hok := hok.mpr ⟨hfits', show (2 : Int) * 3 ≤ maxInt64 by decide⟩
  exact ⟨_, _, _, _, hmake, hmake', hr, hr',
    show (-9223372036854775808 : Int) + 2 * 4611686018427387904 = 0 by decide, hfits, herror,
    hcount, hok, (hwritten hok).2.2.1⟩

end UniformStream

end StreamGauge
