import StreamGauge.Proofs.Region.Protocol
import StreamGauge.Proofs.Region.View

/-!
# A plain region as a list

What a reader sees of a plain region is a list to which elements are appended and whose values are
replaced (`Listing`). A commit that is granted appends an element whose value is zero; a write
replaces the value of its element by what the kind of the region keeps of it (`Listing.after`).

* The region keeps its values as bytes in slots. A write reaches the slot of its element and no
  other one (`PlainRegion.Valid.value?_writeSlot`), and a commit writes no slot at all.
* `Shows` says that a region shows a list: spans and values are those of the list, and the slots
  without an element hold zero. Every action keeps it (`Shows.perform`), and so does a run of them
  (`Shows.run`).
* `elements_listed` is what that means for a reader after any actions.
-/

namespace StreamGauge

namespace PlainRegion

/-! ## Actions -/

/-- What a writer does with a region. -/
inductive Action where
  /-- A commit, or time that passes without an element. -/
  | request (q : Request)
  /-- A value for element `i`. -/
  | put (i : Nat) (v : Value)
  /-- The bytes of element `i`; a number of the region's kind is written as its bytes. -/
  | store (i : Nat) (bytes : List UInt8)

namespace Action

/-- The region after an action. There is none after bytes for which there is no slot. -/
def perform? (r : PlainRegion) : Action → Option PlainRegion
  | request q => some (q.after r)
  | put i v => some (r.put i v)
  | store i bytes => r.store? i bytes

/-- The element that is written. -/
def target? : Action → Option Nat
  | request _ => none
  | put i _ | store i _ => some i

end Action

/-- The elements of a region as a list, the kind of their values, how many there can be, and the
time up to which the region has been written. -/
structure Listing where
  kind : Kind
  capacity : Nat
  stop : Int
  rows : List (Span × Value)

namespace Listing

/-- The list with another value at index `i`. -/
def setValue (l : Listing) (i : Nat) (v : Value) : Listing :=
  { l with rows := l.rows.modify i fun row => (row.1, v) }

/-- The list with one element more, whose value is zero. -/
def append (l : Listing) (span : Span) : Listing :=
  { l with stop := span.stop, rows := l.rows ++ [(span, l.kind.zero)] }

/-- The list after an action. -/
def after (l : Listing) : Action → Listing
  | .request (.commit time) =>
    if l.rows.length < l.capacity ∧ l.stop < time then l.append (.between l.stop time) else l
  | .request (.commitWithPeriod time period) =>
    if l.rows.length < l.capacity ∧ 0 < period ∧ l.stop ≤ time - period then
      l.append ⟨time - period, period⟩
    else l
  | .request (.pass time) => if l.stop ≤ time then { l with stop := time } else l
  | .put i v => l.setValue i (l.kind.convert v)
  | .store i bytes => l.setValue i (l.kind.decode bytes)

theorem getElem?_setValue (l : Listing) (i : Nat) (v : Value) (j : Nat) :
    (l.setValue i v).rows[j]? =
      if j = i then l.rows[j]?.map fun row => (row.1, v) else l.rows[j]? := by
  rw [setValue, List.getElem?_modify]
  by_cases hij : j = i
  · simp [hij]
  · simp [hij, Ne.symm hij]

/-- Whether an action, if it writes, writes an element of the list, with as many bytes as it has. -/
def Addresses (l : Listing) : Action → Prop
  | .request _ => True
  | .put i _ => i < l.rows.length
  | .store i bytes => i < l.rows.length ∧ bytes.length = l.kind.size

/-- Whether each action writes an element that is there at that time. -/
def Addressed (l : Listing) : List Action → Prop
  | [] => True
  | a :: actions => l.Addresses a ∧ (l.after a).Addressed actions

instance (l : Listing) : (a : Action) → Decidable (l.Addresses a)
  | .request _ => .isTrue trivial
  | .put i _ => inferInstanceAs (Decidable (i < l.rows.length))
  | .store i bytes =>
    inferInstanceAs (Decidable (i < l.rows.length ∧ bytes.length = l.kind.size))

instance decidableAddressed (l : Listing) : ∀ actions, Decidable (l.Addressed actions)
  | [] => .isTrue trivial
  | a :: actions =>
    have := decidableAddressed (l.after a) actions
    inferInstanceAs (Decidable (l.Addresses a ∧ (l.after a).Addressed actions))

end Listing

variable {r : PlainRegion} {l : Listing}

/-! ## What an action does to a region -/

namespace Valid

theorem after_commit (h : r.Valid) (time : Int) :
    (Request.commit time).after r =
      if r.count < r.capacity ∧ r.stop < time then r.append (.between r.stop time) else r := by
  change (r.commit time).1 = _
  rcases h.commit_cases time with ⟨room, htime, heq⟩ | ⟨hnot, e, heq, -⟩
  · rw [heq, if_pos ⟨room, htime⟩]
  · rw [heq, if_neg hnot]

theorem after_commitWithPeriod (h : r.Valid) (time period : Int) :
    (Request.commitWithPeriod time period).after r =
      if r.count < r.capacity ∧ 0 < period ∧ r.stop ≤ time - period then
        r.append ⟨time - period, period⟩
      else r := by
  change (r.commitWithPeriod time period).1 = _
  rcases h.commitWithPeriod_cases time period with ⟨room, hperiod, hstart, heq⟩ | ⟨hnot, e, heq, -⟩
  · rw [heq, if_pos ⟨room, hperiod, hstart⟩]
  · rw [heq, if_neg hnot]

end Valid

theorem after_pass (r : PlainRegion) (time : Int) :
    (Request.pass time).after r = if r.stop ≤ time then { r with stop := time } else r := by
  change (r.pass time).1 = _
  rcases pass_cases r time with ⟨hle, heq⟩ | ⟨hlt, heq⟩
  · rw [heq, if_pos hle]
  · rw [heq, if_neg (Int.not_le.mpr hlt)]

/-- A request leaves the elements that are there as they are. -/
theorem Valid.element_after (h : r.Valid) (q : Request) {i : Nat} (hi : i < r.count) :
    (q.after r).span? i = r.span? i ∧ (q.after r).value? i = r.value? i := by
  have happend : ∀ span, (r.append span).span? i = r.span? i := fun span => by
    rw [span?_append h, if_neg (Nat.ne_of_lt hi)]
  cases q with
  | commit time =>
    rw [h.after_commit]
    split
    · exact ⟨happend _, rfl⟩
    · exact ⟨rfl, rfl⟩
  | commitWithPeriod time period =>
    rw [h.after_commitWithPeriod]
    split
    · exact ⟨happend _, rfl⟩
    · exact ⟨rfl, rfl⟩
  | pass time =>
    rw [after_pass]
    split <;> exact ⟨rfl, rfl⟩

/-! ## Lists and regions -/

/-- The region shows the list, and its slots without an element hold zero. -/
structure Shows (r : PlainRegion) (l : Listing) : Prop where
  valid : r.Valid
  kind : r.kind = l.kind
  capacity : r.capacity = l.capacity
  stop : r.stop = l.stop
  count : r.count = l.rows.length
  spans : ∀ i < r.count, r.span? i = l.rows[i]?.map (·.1)
  values : ∀ i < r.count, r.value? i = l.rows[i]?.map (·.2)
  free : ∀ i, r.count ≤ i → i < r.capacity → r.value? i = some r.kind.zero

theorem shows_allocate (kind : Kind) (expected : Nat) (start : Int) :
    (allocate kind expected start).Shows ⟨kind, slotCapacity expected, start, []⟩ where
  valid := valid_allocate kind expected start
  kind := rfl
  capacity := rfl
  stop := rfl
  count := rfl
  spans i hi := absurd hi (Nat.not_lt_zero i)
  values i hi := absurd hi (Nat.not_lt_zero i)
  free i _ hi := by
    have hslot : i % slotCapacity expected = i := Nat.mod_eq_of_lt hi
    change (SlotBuffer.zeroed kind (slotCapacity expected)).read? (i % slotCapacity expected) = _
    rw [hslot]
    exact Bytes.readValue?_of_zeroed (Bytes.stride_le hi kind.size)

namespace Shows

/-- The slot of a new element held zero before. -/
theorem append (h : r.Shows l) (room : r.count < r.capacity) {span : Span}
    (hstart : r.stop ≤ span.start) (hlength : 0 < span.length) :
    (r.append span).Shows (l.append span) where
  valid := h.valid.append room hstart hlength
  kind := h.kind
  capacity := h.capacity
  stop := rfl
  count := by
    rw [Listing.append, List.length_append, List.length_singleton, ← h.count]
    rfl
  spans i hi := by
    rw [span?_append h.valid, Listing.append]
    by_cases hcount : i = r.count
    · rw [if_pos hcount, hcount, h.count, List.getElem?_concat_length]
      rfl
    · have hlt : i < r.count := Nat.lt_of_le_of_ne (Nat.le_of_lt_succ hi) hcount
      rw [if_neg hcount, h.spans i hlt, List.getElem?_append_left (by rwa [← h.count])]
  values i hi := by
    change r.value? i = _
    rw [Listing.append]
    by_cases hcount : i = r.count
    · rw [h.free i (Nat.le_of_eq hcount.symm) (by omega), hcount, h.count,
        List.getElem?_concat_length, h.kind]
      rfl
    · have hlt : i < r.count := Nat.lt_of_le_of_ne (Nat.le_of_lt_succ hi) hcount
      rw [h.values i hlt, List.getElem?_append_left (by rwa [← h.count])]
  free i hle hi := h.free i (Nat.le_of_succ_le hle) hi

theorem writeSlot (h : r.Shows l) {i : Nat} (hi : i < r.count) {bytes : List UInt8}
    (hlength : bytes.length = r.kind.size) :
    (r.writeSlot i bytes).Shows (l.setValue i (r.kind.decode bytes)) where
  valid := h.valid.writeSlot i bytes
  kind := h.kind
  capacity := h.capacity
  stop := h.stop
  count := by
    rw [Listing.setValue, List.length_modify]
    exact h.count
  spans j hj := by
    change r.span? j = _
    rw [h.spans j hj, Listing.getElem?_setValue]
    split <;> cases l.rows[j]? <;> rfl
  values j hj := by
    have hle := h.valid.count_le
    have hrow : j < l.rows.length := by rwa [← h.count]
    rw [h.valid.value?_writeSlot (by omega) (Nat.lt_of_lt_of_le hj hle) hlength,
      Listing.getElem?_setValue, h.values j hj]
    split
    case isTrue =>
      rw [List.getElem?_eq_getElem hrow]
      rfl
    case isFalse => rfl
  free j hle hj := by
    have hcount := h.valid.count_le
    change r.count ≤ j at hle
    rw [h.valid.value?_writeSlot (by omega) hj hlength, if_neg (by omega)]
    exact h.free j hle hj

/-- An action that writes, writes one slot. -/
theorem perform?_write (h : r.Shows l) {a : Action} (ha : l.Addresses a) {i : Nat}
    (hi : a.target? = some i) : i < r.count ∧ ∃ bytes, bytes.length = r.kind.size ∧
      a.perform? r = some (r.writeSlot i bytes) ∧
      l.after a = l.setValue i (r.kind.decode bytes) := by
  have hle := h.valid.count_le
  cases a with
  | request q => cases hi
  | put i v =>
    cases hi
    have hcount : i < r.count := by
      rw [h.count]
      exact ha
    refine ⟨hcount, r.kind.encode v, Kind.length_encode .., ?_, ?_⟩
    · rw [Action.perform?, put_eq_writeSlot (by omega)]
    · rw [Listing.after, h.kind]
      rfl
  | store i bytes =>
    cases hi
    obtain ⟨hrow, hlength⟩ := ha
    have hcount : i < r.count := by
      rw [h.count]
      exact hrow
    rw [← h.kind] at hlength
    refine ⟨hcount, bytes, hlength, ?_, ?_⟩
    · rw [Action.perform?, h.valid.store?_eq_writeSlot (by omega) hlength]
    · rw [Listing.after, h.kind]

theorem request (h : r.Shows l) (q : Request) : (q.after r).Shows (l.after (.request q)) := by
  cases q with
  | commit time =>
    rw [h.valid.after_commit, h.count, h.capacity, h.stop, Listing.after]
    split
    case isTrue hgranted =>
      rw [← h.count, ← h.capacity, ← h.stop] at hgranted
      rw [← h.stop]
      exact h.append hgranted.1 (Int.le_refl _) (by simp only [Span.between]; omega)
    case isFalse => exact h
  | commitWithPeriod time period =>
    rw [h.valid.after_commitWithPeriod, h.count, h.capacity, h.stop, Listing.after]
    split
    case isTrue hgranted =>
      rw [← h.count, ← h.capacity, ← h.stop] at hgranted
      exact h.append hgranted.1 hgranted.2.2 hgranted.2.1
    case isFalse => exact h
  | pass time =>
    rw [after_pass, h.stop, Listing.after]
    split
    case isTrue htime =>
      rw [← h.stop] at htime
      exact { h with valid := h.valid.pass htime, stop := rfl }
    case isFalse => exact h

theorem perform (h : r.Shows l) {a : Action} (ha : l.Addresses a) :
    ∃ r', a.perform? r = some r' ∧ r'.Shows (l.after a) := by
  -- Both actions that write go through one slot, so they are one case.
  cases htarget : a.target? with
  | none =>
    cases a with
    | request q => exact ⟨q.after r, rfl, h.request q⟩
    | put | store => cases htarget
  | some i =>
    obtain ⟨hi, bytes, hlength, hperform, hafter⟩ := h.perform?_write ha htarget
    rw [hafter]
    exact ⟨_, hperform, h.writeSlot hi hlength⟩

theorem run (h : r.Shows l) {actions : List Action} (haddressed : l.Addressed actions) :
    ∃ r', actions.foldlM Action.perform? r = some r' ∧
      r'.Shows (actions.foldl Listing.after l) := by
  induction actions generalizing r l with
  | nil => exact ⟨r, rfl, h⟩
  | cons a actions ih =>
    obtain ⟨ha, hrest⟩ := haddressed
    obtain ⟨r', hperform, hshows⟩ := h.perform ha
    obtain ⟨r'', hrun, hshows'⟩ := ih hshows hrest
    refine ⟨r'', ?_, hshows'⟩
    rw [List.foldlM_cons, hperform]
    exact hrun

/-- What a reader sees. -/
theorem elements?_eq (h : r.Shows l) :
    (View.plain r).elements? = some (l.rows.map fun row => ⟨row.1, some row.2⟩).toArray := by
  have hvalid : (View.plain r).Valid := h.valid
  rw [View.elements?_eq hvalid]
  congr 2
  apply List.ext_getElem?
  intro i
  rw [View.getElem?_elements hvalid, List.getElem?_map]
  change (if i < r.count then (r.span? i).map fun s => (⟨s, r.value? i⟩ : Element) else none) = _
  split
  case isTrue hi =>
    rw [h.spans i hi, h.values i hi]
    cases l.rows[i]? <;> rfl
  case isFalse hi =>
    rw [List.getElem?_eq_none (by rw [← h.count]; omega)]
    rfl

end Shows

/-- Whatever a writer does with a new region, as long as each write goes to an element that is
there, a reader sees the list that the same actions make: one element, with its span and zero, for
each commit that is granted, and at each written index what the kind keeps of the value.

So a write changes neither another element nor a span, a time or a count, and a commit changes no
element that is there. -/
theorem elements_listed (kind : Kind) (expected : Nat) (start : Int) {actions : List Action}
    (haddressed : Listing.Addressed ⟨kind, slotCapacity expected, start, []⟩ actions) :
    let l := actions.foldl Listing.after ⟨kind, slotCapacity expected, start, []⟩
    ∃ r, actions.foldlM Action.perform? (allocate kind expected start) = some r ∧
      (View.plain r).elements? = some (l.rows.map fun row => ⟨row.1, some row.2⟩).toArray ∧
      (r.count = l.rows.length ∧ r.stop = l.stop) ∧
      (∀ a i, a.target? = some i → l.Addresses a → ∃ r', a.perform? r = some r' ∧
        r'.log = r.log ∧ r'.start = r.start ∧ r'.stop = r.stop ∧ r'.head = r.head ∧
        r'.count = r.count ∧ ∀ j < r.count, j ≠ i → r'.value? j = r.value? j) ∧
      ∀ (q : Request) (i : Nat), i < r.count →
        (q.after r).span? i = r.span? i ∧ (q.after r).value? i = r.value? i := by
  intro l
  obtain ⟨r, hrun, hshows⟩ := (shows_allocate kind expected start).run haddressed
  refine ⟨r, hrun, hshows.elements?_eq, ⟨hshows.count, hshows.stop⟩,
    fun a i htarget ha => ?write, fun q i hi => hshows.valid.element_after q hi⟩
  case write =>
    have hle := hshows.valid.count_le
    obtain ⟨hi, bytes, hlength, hperform, -⟩ := hshows.perform?_write ha htarget
    refine ⟨_, hperform, rfl, rfl, rfl, rfl, rfl, fun j hj hne => ?_⟩
    rw [hshows.valid.value?_writeSlot (by omega) (by omega) hlength, if_neg hne]

/-- Two bytes, the second one after a gap. The third commit is refused for want of a slot, and the
first value is written again after it. -/
theorem elements_listed_of_two_slots :
    let actions : List Action := [.request (.commit 3), .put 0 (.int 300),
      .request (.commitWithPeriod 10 2), .request (.commit 20), .put 0 (.int (-1)), .store 1 [7]]
    Listing.Addressed ⟨.u8, slotCapacity 2, 0, []⟩ actions ∧
      ∃ r, actions.foldlM Action.perform? (allocate .u8 2 0) = some r ∧
        (View.plain r).elements? =
          some #[⟨⟨0, 3⟩, some (.int 255)⟩, ⟨⟨8, 2⟩, some (.int 7)⟩] := by
  intro actions
  have haddressed : Listing.Addressed ⟨.u8, slotCapacity 2, 0, []⟩ actions := by decide
  obtain ⟨r, hrun, helements, -⟩ := elements_listed .u8 2 0 haddressed
  have hrows : (actions.foldl Listing.after ⟨.u8, slotCapacity 2, 0, []⟩).rows =
      [(⟨0, 3⟩, .int 255), (⟨8, 2⟩, .int 7)] := by decide
  rw [hrows] at helements
  exact ⟨haddressed, r, hrun, helements⟩

end PlainRegion

end StreamGauge
