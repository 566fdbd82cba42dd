import StreamGauge.Exec.Emission
import StreamGauge.Proofs.Query.Expr
import StreamGauge.Proofs.Region.View

/-!
# Playing emissions

Emissions that follow each other in time (`Ascending`) are all taken by a valid region that has the
slots for them:

* `play_ascending`: without a halt among them, the region ends with exactly the elements that they
  stand for (`placed`), in order, and no other change (`PlainRegion.Extends`);
* `play_ascending_valid`: it ends valid in any case, and it is stopped if and only if there is a
  halt.

Of emissions in any order, a valid region takes each one or stays as it is (`Valid.accept_cases`),
and so it only gets further elements (`play_extends`).

`Orderly` is what every operator of a checked query makes of elements in order: such emissions, a
bounded number of elements, and no halt but for a division by zero.
-/

namespace StreamGauge

theorem Sequence.ofList_toList {α : Type} (s : Sequence α) : .ofList s.toList = s := by
  induction s with
  | nil => rfl
  | cons a tail ih =>
    simp only [toList, ofList, ih]

/-- A computation in steps gives a result only if its first step does. -/
theorem eq_ok_of_bind {ε α β : Type} {r : Except ε α} {f : α → Except ε β} {b : β}
    (h : (r >>= f) = .ok b) : ∃ a, r = .ok a ∧ f a = .ok b := by
  cases r with
  | error x => cases h
  | ok a => exact ⟨a, rfl, h⟩

namespace Emission

/-- Whether the emission commits an element. -/
def isElement : Emission → Bool
  | during _ _ | upTo _ _ => true
  | pass _ | halt _ => false

/-- The element that the emission commits to a region of a kind that stops at `time`. -/
def element? (kind : Kind) (time : Int) : Emission → Option Element
  | during span v => some ⟨span, some (kind.convert v)⟩
  | upTo stop v => some ⟨.between time stop, some (kind.convert v)⟩
  | pass _ | halt _ => none

/-- Where a region stops after the emission, if it stopped at `time` before. -/
def stopAfter (time : Int) : Emission → Int
  | during span _ => span.stop
  | upTo stop _ => stop
  | pass stop => stop
  | halt _ => time

/-- The emission does not go behind `time`, and its element takes some time. -/
def Follows (time : Int) : Emission → Prop
  | during span _ => time ≤ span.start ∧ 0 < span.length
  | upTo stop _ => time < stop
  | pass stop => time ≤ stop
  | halt _ => True

/-- Whether the emission ends the run. -/
def isHalt : Emission → Bool
  | halt _ => true
  | _ => false

end Emission

/-- Each emission follows the one before it, the first one follows `time`. -/
def Ascending (time : Int) : List Emission → Prop
  | [] => True
  | e :: es => e.Follows time ∧ Ascending (e.stopAfter time) es

/-- An earlier time can be followed as well. -/
theorem Ascending.mono {t t' : Int} {es : List Emission} (h : Ascending t es) (hle : t' ≤ t) :
    Ascending t' es := by
  induction es generalizing t t' with
  | nil => trivial
  | cons e es ih =>
    obtain ⟨hfollows, hrest⟩ := h
    cases e with
    | during span v => exact ⟨⟨Int.le_trans hle hfollows.1, hfollows.2⟩, hrest⟩
    | upTo stop v => exact ⟨Int.lt_of_le_of_lt hle hfollows, hrest⟩
    | pass stop => exact ⟨Int.le_trans hle hfollows, hrest⟩
    | halt e => exact ⟨trivial, ih hrest hle⟩

/-- Where a region stops after emissions. -/
def stopAfterAll (time : Int) (es : List Emission) : Int := es.foldl Emission.stopAfter time

theorem ascending_append {time : Int} {es es' : List Emission} :
    Ascending time (es ++ es') ↔ Ascending time es ∧ Ascending (stopAfterAll time es) es' := by
  induction es generalizing time with
  | nil => simp [Ascending, stopAfterAll]
  | cons e es ih => simp [Ascending, ih, stopAfterAll, and_assoc]

/-- The elements that emissions commit to a region of a kind that stops at `time`. -/
def placed (kind : Kind) (time : Int) : List Emission → List Element
  | [] => []
  | e :: es => (e.element? kind time).toList ++ placed kind (e.stopAfter time) es

/-! ## Emissions on given spans -/

/-- The emission commits an element with this span, passes to its stop, or ends the run. -/
def Emission.IsOn (span : Span) : Emission → Prop
  | during s _ => s = span
  | pass time => time = span.stop
  | upTo _ _ => False
  | halt _ => True

theorem Emission.ofResult_isOn (span : Span) (r : Except ExecError Value) :
    (Emission.ofResult (.during span) r).IsOn span := by
  cases r with
  | ok v => rfl
  | error x => trivial

section Spans

variable {α : Type} {xs : List α} {span : α → Span} {f : α → Emission} {t : Int}

/-- Emissions on spans that follow each other follow each other. -/
theorem ascending_map (hf : ∀ x ∈ xs, (f x).IsOn (span x)) (hpos : ∀ x ∈ xs, 0 < (span x).length)
    (hord : xs.Pairwise fun x y => (span x).stop ≤ (span y).start)
    (ht : ∀ x ∈ xs, t ≤ (span x).start) : Ascending t (xs.map f) := by
  induction xs generalizing t with
  | nil => trivial
  | cons x xs ih =>
    obtain ⟨hon, hf⟩ := List.forall_mem_cons.mp hf
    obtain ⟨hlength, hpos⟩ := List.forall_mem_cons.mp hpos
    obtain ⟨hstop, hord⟩ := List.pairwise_cons.mp hord
    obtain ⟨hstart, ht⟩ := List.forall_mem_cons.mp ht
    have hnext := ih hf hpos hord hstop
    rw [List.map_cons]
    cases hfx : f x with
    | during s v =>
      rw [hfx] at hon
      cases hon
      exact ⟨⟨hstart, hlength⟩, hnext⟩
    | pass time =>
      rw [hfx] at hon
      cases hon
      refine ⟨?_, hnext⟩
      change t ≤ (span x).stop
      unfold Span.stop
      omega
    | upTo time v =>
      rw [hfx] at hon
      exact hon.elim
    | halt e => exact ⟨trivial, ih hf hpos hord ht⟩

/-- Elements with their own spans are committed as they are. -/
theorem placed_map {value : α → Value} (kind : Kind)
    (hf : ∀ x ∈ xs, f x = .during (span x) (value x)) :
    placed kind t (xs.map f) = xs.map fun x => ⟨span x, some (kind.convert (value x))⟩ := by
  induction xs generalizing t with
  | nil => rfl
  | cons x xs ih =>
    obtain ⟨hx, hf⟩ := List.forall_mem_cons.mp hf
    rw [List.map_cons, List.map_cons, placed, hx, ih hf]
    rfl

end Spans

namespace PlainRegion

/-- A valid region that differs from another one only by further elements and a later stop. -/
structure Extends (r r' : PlainRegion) (es : List Element) : Prop where
  valid : r'.Valid
  elements : r'.elements = r.elements ++ es
  start : r'.start = r.start
  kind : r'.kind = r.kind
  capacity : r'.capacity = r.capacity

namespace Extends

variable {r r' r'' : PlainRegion} {es es' : List Element}

theorem refl (h : r.Valid) : r.Extends r [] := ⟨h, by simp, rfl, rfl, rfl⟩

theorem trans (h : r.Extends r' es) (h' : r'.Extends r'' es') : r.Extends r'' (es ++ es') :=
  ⟨h'.valid, by rw [h'.elements, h.elements, List.append_assoc], h'.start.trans h.start,
    h'.kind.trans h.kind, h'.capacity.trans h.capacity⟩

theorem count (hr : r.Valid) (h : r.Extends r' es) : r'.count = r.count + es.length := by
  have h1 : r.elements.length = r.count := View.length_elements (v := .plain r) hr
  have h2 : r'.elements.length = r'.count := View.length_elements (v := .plain r') h.valid
  rw [h.elements, List.length_append] at h2
  omega

end Extends

variable {r : PlainRegion}

theorem extends_record (h : r.Valid) (room : r.count < r.capacity) {span : Span}
    (hstart : r.stop ≤ span.start) (hlength : 0 < span.length) (v : Value) :
    r.Extends (r.record span v) [⟨span, some (r.kind.convert v)⟩] :=
  ⟨h.record room hstart hlength, elements_record h room hstart hlength v, rfl, rfl, rfl⟩

theorem elements_pass (r : PlainRegion) (time : Int) :
    { r with stop := time : PlainRegion }.elements = r.elements := rfl

/-- What a valid region does with an element on its own span. -/
theorem Valid.accept_during (h : r.Valid) (span : Span) (v : Value) :
    r.accept (.during span v) =
      if span.length ≤ 0 ∨ span.start < r.stop then
        (r, .error (.region (.notAdvancing span.stop r.stop)))
      else if r.count = r.capacity then (r, .error (.region (.full r.capacity)))
      else (r.record span v, .ok ()) := by
  have hle := h.count_le
  rw [accept, h.commitWithPeriod_eq, span.stop_sub_length]
  split
  case isTrue => rfl
  case isFalse =>
    split
    case isTrue => rfl
    case isFalse hfull => rw [putCommitted, h.put_append (by omega)]

/-- What a valid region does with an element from its stop on. -/
theorem Valid.accept_upTo (h : r.Valid) (time : Int) (v : Value) :
    r.accept (.upTo time v) =
      if r.count = r.capacity then (r, .error (.region (.full r.capacity)))
      else if time ≤ r.stop then (r, .error (.region (.notAdvancing time r.stop)))
      else (r.record (.between r.stop time) v, .ok ()) := by
  have hle := h.count_le
  rw [accept, h.commit_eq]
  split
  case isTrue => rfl
  case isFalse hfull =>
    split
    case isTrue => rfl
    case isFalse => rw [putCommitted, h.put_append (by omega)]

/-- What a region does with a stretch of time without an element. -/
theorem accept_pass (r : PlainRegion) (time : Int) :
    r.accept (.pass time) =
      if time < r.stop then (r, .error (.region (.notAdvancing time r.stop)))
      else ({ r with stop := time }, .ok ()) := by
  change ((r.pass time).1, (r.pass time).2.mapError _) = _
  rcases pass_cases r time with ⟨hle, heq⟩ | ⟨hlt, heq⟩
  · rw [heq, if_neg (Int.not_lt.mpr hle)]
    rfl
  · rw [heq, if_pos hlt]
    rfl

/-- What a valid region with a free slot does with an emission that follows its stop. -/
theorem accept_follows (h : r.Valid) {e : Emission} (hf : e.Follows r.stop)
    (room : e.isElement → r.count < r.capacity) (hhalt : e.isHalt = false) :
    ∃ r', r.accept e = (r', .ok ()) ∧ r.Extends r' (e.element? r.kind r.stop).toList ∧
      r'.stop = e.stopAfter r.stop := by
  cases e with
  | during span v =>
    obtain ⟨hstart, hlength⟩ := hf
    have hroom := room rfl
    refine ⟨r.record span v, ?_, extends_record h hroom hstart hlength v, rfl⟩
    rw [h.accept_during, if_neg (by omega), if_neg (by omega)]
  | upTo stop v =>
    have hroom := room rfl
    have hstop : r.stop < stop := hf
    have hlength : 0 < (Span.between r.stop stop).length := Int.sub_pos_of_lt hstop
    refine ⟨r.record (.between r.stop stop) v, ?_, extends_record h hroom (Int.le_refl _) hlength v,
      Span.stop_between _ _⟩
    rw [h.accept_upTo, if_neg (by omega), if_neg (by omega)]
  | pass stop =>
    have hle : r.stop ≤ stop := hf
    refine ⟨{ r with stop := stop }, ?_, ⟨h.pass hle, ?_, rfl, rfl, rfl⟩, rfl⟩
    · rw [accept_pass, if_neg (by omega)]
    · rw [elements_pass]
      exact (List.append_nil _).symm
  | halt e => cases hhalt

/-- An emission is taken, or it changes nothing. -/
theorem Valid.accept_cases (h : r.Valid) (e : Emission) :
    (∃ r', r.accept e = (r', .ok ()) ∧ r.Extends r' (e.element? r.kind r.stop).toList) ∨
      ∃ x, r.accept e = (r, .error x) := by
  have hle := h.count_le
  cases e with
  | during span v =>
    rw [h.accept_during]
    split
    case isTrue => exact .inr ⟨_, rfl⟩
    case isFalse hgap =>
      split
      case isTrue => exact .inr ⟨_, rfl⟩
      case isFalse hfull =>
        exact .inl ⟨_, rfl, extends_record h (by omega) (by omega) (by omega) v⟩
  | upTo time v =>
    rw [h.accept_upTo]
    split
    case isTrue => exact .inr ⟨_, rfl⟩
    case isFalse hfull =>
      split
      case isTrue => exact .inr ⟨_, rfl⟩
      case isFalse hstop =>
        have hlength : 0 < (Span.between r.stop time).length :=
          Int.sub_pos_of_lt (Int.not_le.mp hstop)
        exact .inl ⟨_, rfl, extends_record h (by omega) (Int.le_refl _) hlength v⟩
  | pass time =>
    rw [accept_pass]
    split
    case isTrue => exact .inr ⟨_, rfl⟩
    case isFalse hlt =>
      refine .inl ⟨_, rfl, h.pass (Int.not_lt.mp hlt), ?_, rfl, rfl, rfl⟩
      rw [elements_pass]
      exact (List.append_nil _).symm
  | halt x => exact .inr ⟨x, rfl⟩

/-- Whatever the emissions are, a valid region only gets further elements and a later stop. -/
theorem play_extends (h : r.Valid) (s : Sequence Emission) : ∃ es, r.Extends (r.play s).1 es := by
  induction s generalizing r with
  | nil => exact ⟨[], .refl h⟩
  | cons e rest ih =>
    rw [play]
    rcases h.accept_cases e with ⟨r', haccept, hext⟩ | ⟨x, haccept⟩
    · rw [haccept]
      obtain ⟨es, hes⟩ := ih () hext.valid
      exact ⟨_, hext.trans hes⟩
    · rw [haccept]
      exact ⟨[], .refl h⟩

theorem Reachable.putCommitted {v : Value} {answer : PlainRegion × Except RegionError Nat}
    (h : answer.1.Reachable) : (putCommitted v answer).1.Reachable := by
  obtain ⟨r', e | slot⟩ := answer
  · exact h
  · exact .put h

/-- Whatever an emission is, and however it ends, the region stays reachable. -/
theorem Reachable.accept (hr : r.Reachable) (e : Emission) : (r.accept e).1.Reachable := by
  cases e with
  | during span v => exact .putCommitted (.commitWithPeriod hr rfl)
  | upTo time v => exact .putCommitted (.commit hr rfl)
  | pass time => exact .pass hr rfl
  | halt x => exact hr

theorem Reachable.play (hr : r.Reachable) (s : Sequence Emission) : (play s r).1.Reachable := by
  induction s generalizing r with
  | nil => exact hr
  | cons e rest ih =>
    have haccept := hr.accept e
    rw [PlainRegion.play]
    split
    case h_1 r' heq =>
      rw [heq] at haccept
      exact ih () haccept
    case h_2 r' x heq =>
      rw [heq] at haccept
      exact haccept

theorem length_element? (kind : Kind) (time : Int) (e : Emission) :
    (e.element? kind time).toList.length = if e.isElement then 1 else 0 := by
  cases e <;> rfl

theorem play_cons (e : Emission) (es : List Emission) (r : PlainRegion) :
    play (.ofList (e :: es)) r =
      match r.accept e with
      | (r', .ok ()) => play (.ofList es) r'
      | (r', .error x) => (r', .error x) := rfl

/-- Emissions that follow each other, without a halt, leave exactly their elements. -/
theorem play_ascending (h : r.Valid) {es : List Emission} (ha : Ascending r.stop es)
    (room : r.count + es.countP Emission.isElement ≤ r.capacity)
    (hhalt : ∀ e ∈ es, e.isHalt = false) :
    ∃ r', play (.ofList es) r = (r', .ok ()) ∧ r.Extends r' (placed r.kind r.stop es) ∧
      r'.stop = stopAfterAll r.stop es := by
  -- The next emission follows the stop that this one leaves, so the region is generalized.
  induction es generalizing r with
  | nil => exact ⟨r, rfl, .refl h, rfl⟩
  | cons e es ih =>
    obtain ⟨hf, hrest⟩ := ha
    rw [List.countP_cons] at room
    obtain ⟨r₁, haccept, hext, hstop⟩ := accept_follows h hf
      (fun he => by rw [if_pos he] at room; omega) (hhalt e List.mem_cons_self)
    have hcount := hext.count h
    rw [length_element?] at hcount
    obtain ⟨r₂, hplay, hext', hstop'⟩ := ih hext.valid (by rwa [hstop])
      (by rw [hext.capacity, hcount]; omega) fun e' he' => hhalt e' (List.mem_cons_of_mem _ he')
    refine ⟨r₂, ?_, ?_, ?_⟩
    · rw [play_cons, haccept]
      exact hplay
    · rw [hext.kind, hstop] at hext'
      exact hext.trans hext'
    · rw [hstop', hstop]
      rfl

/-- Emissions that follow each other leave a valid region; a halt stops them, and nothing else. -/
theorem play_ascending_valid (h : r.Valid) {es : List Emission} (ha : Ascending r.stop es)
    (room : r.count + es.countP Emission.isElement ≤ r.capacity) :
    ∃ r' ended, play (.ofList es) r = (r', ended) ∧ r'.Valid ∧ r'.kind = r.kind ∧
      r'.count ≤ r.count + es.countP Emission.isElement ∧
      (ended = .ok () ∧ (∀ e ∈ es, e.isHalt = false) ∨ ∃ x, .halt x ∈ es ∧ ended = .error x) := by
  induction es generalizing r with
  | nil => exact ⟨r, _, rfl, h, rfl, Nat.le_add_right _ _, .inl ⟨rfl, by simp⟩⟩
  | cons e es ih =>
    obtain ⟨hf, hrest⟩ := ha
    cases hhalt : e.isHalt with
    | true =>
      cases e with
      | halt x => exact ⟨r, _, rfl, h, rfl, Nat.le_add_right _ _, .inr ⟨x, List.mem_cons_self, rfl⟩⟩
      | _ => cases hhalt
    | false =>
      rw [List.countP_cons] at room ⊢
      obtain ⟨r₁, haccept, hext, hstop⟩ := accept_follows h hf
        (fun he => by rw [if_pos he] at room; omega) hhalt
      have hcount := hext.count h
      rw [length_element?] at hcount
      obtain ⟨r₂, ended, hplay, hvalid, hkind, hle, hended⟩ := ih hext.valid (by rwa [hstop])
        (by rw [hext.capacity, hcount]; omega)
      refine ⟨r₂, ended, ?_, hvalid, hkind.trans hext.kind, by omega, ?_⟩
      · rw [play_cons, haccept]
        exact hplay
      · rcases hended with ⟨hok, hnone⟩ | ⟨x, hx, hend⟩
        · exact .inl ⟨hok, List.forall_mem_cons.mpr ⟨hhalt, hnone⟩⟩
        · exact .inr ⟨x, List.mem_cons_of_mem _ hx, hend⟩

end PlainRegion

/-! ## Orderly emissions -/

/-- Emissions that follow each other from a time on, with at most `bound` elements. Only a division
by zero ends them early. -/
structure Orderly (time : Int) (bound : Nat) (es : List Emission) : Prop where
  ascending : Ascending time es
  count : es.countP Emission.isElement ≤ bound
  halts : ∀ x, .halt x ∈ es → x = .divisionByZero

theorem Orderly.mono {time : Int} {bound bound' : Nat} {es : List Emission}
    (h : Orderly time bound es) (hle : bound ≤ bound') : Orderly time bound' es :=
  { h with count := Nat.le_trans h.count hle }

/-- A valid region with the slots for them takes orderly emissions, up to a division by zero. -/
theorem Orderly.play {time : Int} {bound : Nat} {s : Sequence Emission}
    (h : Orderly time bound s.toList) {r : PlainRegion} (hr : r.Valid) (hstop : r.stop ≤ time)
    (room : r.count + bound ≤ r.capacity) :
    ∃ r' ended, r.play s = (r', ended) ∧ r'.Valid ∧ r'.kind = r.kind ∧
      r'.count ≤ r.count + bound ∧ (ended = .ok () ∨ ended = .error .divisionByZero) := by
  have hcount := h.count
  obtain ⟨r', ended, hplay, hvalid, hkind, hle, hended⟩ :=
    PlainRegion.play_ascending_valid hr (h.ascending.mono hstop) (by omega)
  rw [Sequence.ofList_toList] at hplay
  refine ⟨r', ended, hplay, hvalid, hkind, by omega, ?_⟩
  rcases hended with ⟨hok, -⟩ | ⟨x, hx, hend⟩
  · exact .inl hok
  · exact .inr (by rw [hend, h.halts x hx])

/-- Elements that an operator of a checked query gets: in order, from a time on, with values. -/
structure Readable (time : Int) (es : List Element) : Prop where
  inOrder : InOrder es
  start_le : ∀ e ∈ es, time ≤ e.span.start
  value : ∀ e ∈ es, ∃ v, e.read = .ok v

/-- Emissions on spans that follow each other are orderly, one element for each span at most. -/
theorem orderly_map {α : Type} {xs : List α} {span : α → Span} {f : α → Emission} {t : Int}
    (hf : ∀ x ∈ xs, (f x).IsOn (span x)) (hpos : ∀ x ∈ xs, 0 < (span x).length)
    (hord : xs.Pairwise fun x y => (span x).stop ≤ (span y).start)
    (ht : ∀ x ∈ xs, t ≤ (span x).start)
    (hhalt : ∀ x ∈ xs, ∀ y, f x = .halt y → y = .divisionByZero) :
    Orderly t xs.length (xs.map f) where
  ascending := ascending_map hf hpos hord ht
  count := Nat.le_trans List.countP_le_length (Nat.le_of_eq (List.length_map _))
  halts y hy := by
    obtain ⟨x, hx, heq⟩ := List.mem_map.mp hy
    exact hhalt x hx y heq

/-- A checked expression over as many values as its operator binds has a value, or it divides by
zero. -/
theorem Expr.compute_error {e : Expr} {slots : List Value}
    (h : e.checkSlots slots.length = .ok ()) {x : ExecError}
    (hx : e.compute slots = .error x) : x = .divisionByZero := by
  unfold compute at hx
  cases heval : e.eval slots with
  | ok v =>
    rw [heval] at hx
    cases hx
  | error y =>
    rw [heval] at hx
    cases hx
    rw [eval_checked h heval]
    rfl

theorem Emission.ofResult_eq_halt {span : Span} {r : Except ExecError Value} {x : ExecError}
    (h : Emission.ofResult (.during span) r = .halt x) : r = .error x := by
  cases r with
  | ok v => cases h
  | error y =>
    cases h
    rfl

end StreamGauge
