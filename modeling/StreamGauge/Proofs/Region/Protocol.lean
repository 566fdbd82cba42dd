import Mathlib.Algebra.Ring.Nat
import StreamGauge.Proofs.Region.Plain

/-!
# The commit protocol of a plain region

A writer sends a region one `Request` after the other, also after one that was refused
(`Request.after`). Whatever was sent, the region is valid (`valid_requests`), and `commit_protocol`
says what that means for a reader of its spans and for the next request: the time of the region and
its free slots alone decide whether it is taken, the slot that it gets has no element yet, and a
region that refuses it is left as it is, its log included (`Valid.answer_cases`).
-/

namespace StreamGauge

namespace PlainRegion

/-- What a writer asks of a region. -/
inductive Request where
  /-- An element from the stop of the region up to a time. -/
  | commit (time : Int)
  /-- An element of a length up to a time. -/
  | commitWithPeriod (time period : Int)
  /-- No element up to a time. -/
  | pass (time : Int)

namespace Request

variable {r : PlainRegion}

/-- The span of the element that is asked for, if there is one. -/
def span? (r : PlainRegion) : Request → Option Span
  | commit time => some (.between r.stop time)
  | commitWithPeriod time period => some ⟨time - period, period⟩
  | pass _ => none

/-- The time at which the region is to stop. -/
def time : Request → Int
  | commit time | commitWithPeriod time _ | pass time => time

/-- What a region becomes, and what it answers: the slot of the new element, if there is one. -/
def answer (q : Request) (r : PlainRegion) : PlainRegion × Except RegionError (Option Nat) :=
  match q with
  | commit time => (r.commit time).map id (·.map some)
  | commitWithPeriod time period => (r.commitWithPeriod time period).map id (·.map some)
  | pass time => (r.pass time).map id (·.map fun _ => none)

/-- The region that the writer goes on with. -/
def after (r : PlainRegion) (q : Request) : PlainRegion := (q.answer r).1

end Request

variable {r : PlainRegion}

namespace Valid

/-- All that a request can do. One that is taken adds its span, moves the stop, and is answered with
the next slot; one that is refused changes nothing, and the log is not why. -/
theorem answer_cases (h : r.Valid) (q : Request) :
    (∃ r', q.answer r = (r', .ok ((q.span? r).map fun _ => r.count)) ∧
      r'.log.spans.toList = r.log.spans.toList ++ (q.span? r).toList ∧ r'.start = r.start ∧
      r'.stop = q.time ∧ r'.Valid) ∨
    ∃ e, q.answer r = (r, .error e) ∧ ∀ cause, e ≠ .log cause := by
  cases q with
  | commit time =>
    rcases h.commit_cases time with ⟨-, -, heq⟩ | ⟨-, e, heq, hne⟩
    · exact .inl ⟨r.append (.between r.stop time), by rw [Request.answer, heq]; rfl,
        Array.toList_push, rfl, Span.stop_between .., (h.of_commit heq).1⟩
    · exact .inr ⟨e, by rw [Request.answer, heq]; rfl, hne⟩
  | commitWithPeriod time period =>
    rcases h.commitWithPeriod_cases time period with ⟨-, -, -, heq⟩ | ⟨-, e, heq, hne⟩
    · exact .inl ⟨r.append ⟨time - period, period⟩, by rw [Request.answer, heq]; rfl,
        Array.toList_push, rfl, Int.sub_add_cancel .., (h.of_commitWithPeriod heq).1⟩
    · exact .inr ⟨e, by rw [Request.answer, heq]; rfl, hne⟩
  | pass time =>
    rcases pass_cases r time with ⟨hle, heq⟩ | ⟨-, heq⟩
    · exact .inl ⟨{ r with stop := time }, by rw [Request.answer, heq]; rfl,
        (List.append_nil _).symm, rfl, rfl, h.pass hle⟩
    · exact .inr ⟨_, by rw [Request.answer, heq]; rfl, fun cause hcause => by cases hcause⟩

theorem of_answer (h : r.Valid) {q : Request} {slot? : Option Nat} {r' : PlainRegion}
    (hok : q.answer r = (r', .ok slot?)) :
    slot? = (q.span? r).map (fun _ => r.count) ∧
      r'.log.spans.toList = r.log.spans.toList ++ (q.span? r).toList ∧ r'.stop = q.time := by
  rcases h.answer_cases q with ⟨_, heq, hspans, -, hstop, -⟩ | ⟨e, heq, -⟩
  · cases heq.symm.trans hok
    exact ⟨rfl, hspans, hstop⟩
  · cases heq.symm.trans hok

/-- A request that is refused changes nothing. -/
theorem eq_of_answer_error (h : r.Valid) {q : Request} {e : RegionError} {r' : PlainRegion}
    (herror : q.answer r = (r', .error e)) : r' = r ∧ ∀ cause, e ≠ .log cause := by
  rcases h.answer_cases q with ⟨_, heq, -⟩ | ⟨_, heq, hne⟩
  · cases heq.symm.trans herror
  · cases heq.symm.trans herror
    exact ⟨rfl, hne⟩

theorem after (h : r.Valid) (q : Request) : (q.after r).Valid := by
  unfold Request.after
  rcases h.answer_cases q with ⟨_, heq, -, -, -, hvalid⟩ | ⟨e, heq, -⟩
  · rw [heq]
    exact hvalid
  · rw [heq]
    exact h

/-- A commit is taken if there is a slot for it and it ends after the region does. -/
theorem commit_ok_iff (h : r.Valid) {time : Int} :
    (∃ slot r', r.commit time = (r', .ok slot)) ↔ r.count < r.capacity ∧ r.stop < time := by
  rcases h.commit_cases time with ⟨room, htime, heq⟩ | ⟨hnot, e, heq, -⟩
  · exact ⟨fun _ => ⟨room, htime⟩, fun _ => ⟨_, _, heq⟩⟩
  · exact ⟨fun ⟨_, _, hok⟩ => (nomatch heq.symm.trans hok), fun hfits => absurd hfits hnot⟩

theorem commitWithPeriod_ok_iff (h : r.Valid) {time period : Int} :
    (∃ slot r', r.commitWithPeriod time period = (r', .ok slot)) ↔
      r.count < r.capacity ∧ 0 < period ∧ r.stop ≤ time - period := by
  rcases h.commitWithPeriod_cases time period with ⟨room, hperiod, hstart, heq⟩ | ⟨hnot, e, heq, -⟩
  · exact ⟨fun _ => ⟨room, hperiod, hstart⟩, fun _ => ⟨_, _, heq⟩⟩
  · exact ⟨fun ⟨_, _, hok⟩ => (nomatch heq.symm.trans hok), fun hfits => absurd hfits hnot⟩

/-- The log takes every span that the region takes. -/
theorem log_push_eq (h : r.Valid) {span : Span} (room : r.count < r.capacity)
    (hstart : r.stop ≤ span.start) :
    r.log.push span = (r.log.append span, .ok r.count) := by
  rw [SpanLog.push_of_none (h.log_refusal?_eq_none room hstart), SpanLog.size, h.size_spans]

end Valid

theorem pass_ok_iff {time : Int} : (∃ r', r.pass time = (r', .ok ())) ↔ r.stop ≤ time := by
  rcases pass_cases r time with ⟨hle, heq⟩ | ⟨hlt, heq⟩
  · exact ⟨fun _ => hle, fun _ => ⟨_, heq⟩⟩
  · exact ⟨fun ⟨_, hok⟩ => (nomatch heq.symm.trans hok), fun hle => by omega⟩

theorem valid_requests (h : r.Valid) (requests : List Request) :
    (requests.foldl Request.after r).Valid := by
  induction requests generalizing r with
  | nil => exact h
  | cons q requests ih => exact ih (h.after q)

/-! ## Times within 64 bits -/

/-- A request leaves the start as it is and moves the stop to its time, if it moves it. -/
theorem Valid.times_after (h : r.Valid) (q : Request) :
    (q.after r).start = r.start ∧ ((q.after r).stop = r.stop ∨ (q.after r).stop = q.time) := by
  unfold Request.after
  rcases h.answer_cases q with ⟨_, heq, -, hstart, hstop, -⟩ | ⟨e, heq, -⟩
  · rw [heq]
    exact ⟨hstart, .inr hstop⟩
  · rw [heq]
    exact ⟨rfl, .inl rfl⟩

/-- After requests up to some time the region stops at that time, at the latest. -/
theorem Valid.times_requests (h : r.Valid) {last : Int} (hstop : r.stop ≤ last)
    {requests : List Request} (htimes : ∀ q ∈ requests, q.time ≤ last) :
    (requests.foldl Request.after r).start = r.start ∧
      (requests.foldl Request.after r).stop ≤ last := by
  induction requests generalizing r with
  | nil => exact ⟨rfl, hstop⟩
  | cons q requests ih =>
    obtain ⟨hq, htimes⟩ := List.forall_mem_cons.mp htimes
    obtain ⟨hstart, hafter⟩ := h.times_after q
    have hle : (q.after r).stop ≤ last := by
      rcases hafter with hafter | hafter <;> omega
    obtain ⟨hstart', hstop'⟩ := ih (h.after q) hle htimes
    exact ⟨hstart'.trans hstart, hstop'⟩

/-- 64-bit integers hold every span of a new region after requests up to some time, if that and the
start are 64-bit and so is the time between them. -/
theorem fits_of_requests (kind : Kind) (expected : Nat) {start last : Int}
    (hstart : minInt64 ≤ start) (hle : start ≤ last) (hlast : last ≤ maxInt64)
    (hlength : last - start ≤ maxInt64) {requests : List Request}
    (htimes : ∀ q ∈ requests, q.time ≤ last) :
    let r := requests.foldl Request.after (.allocate kind expected start)
    ∀ i s, r.span? i = some s → s.Fits := by
  intro r i s hs
  have hnew := valid_allocate kind expected start
  have h : r.Valid := valid_requests hnew requests
  obtain ⟨hfirst, hstop⟩ := hnew.times_requests hle htimes
  have hfirst : r.start = start := hfirst
  have hstop : r.stop ≤ last := hstop
  exact h.spans.fits (by omega) (by omega) (by omega) s
    (Array.mem_toList_iff.mpr (Array.mem_of_getElem? hs))

/-! ## The protocol -/

/-- After any requests to a new region:

* there are as many spans as elements and no more of them than slots, of which there is a power of
  two, and `head` is the index of the last element;
* the spans are not empty, follow each other, and lie between the start and the stop;
* a commit is taken exactly if there is a free slot and it ends after the stop (with a length:
  if that is positive and it does not begin before the stop), a pass exactly if it does not go
  behind the stop;
* a request that is taken adds its span after the others and moves the stop to its time, and the
  slot of the new element is the number of the elements before it;
* the log takes every span that the region takes, so no request is refused because of it;
* a region that refuses a request is left as it is. -/
theorem commit_protocol (kind : Kind) (expected : Nat) (start : Int) (requests : List Request) :
    let r := requests.foldl Request.after (.allocate kind expected start)
    (r.log.size = r.count ∧ r.count ≤ r.capacity ∧ (∃ n, r.capacity = 2 ^ n) ∧
      r.head = r.count - 1 ∧ r.lastIndex = r.head) ∧
    (∀ i s, r.span? i = some s → 0 < s.length ∧ r.start ≤ s.start ∧ s.stop ≤ r.stop) ∧
    (∀ i s t, r.span? i = some s → r.span? (i + 1) = some t → s.stop ≤ t.start) ∧
    (∀ time, (∃ slot r', r.commit time = (r', .ok slot)) ↔
      r.count < r.capacity ∧ r.stop < time) ∧
    (∀ time period, (∃ slot r', r.commitWithPeriod time period = (r', .ok slot)) ↔
      r.count < r.capacity ∧ 0 < period ∧ r.stop ≤ time - period) ∧
    (∀ time, (∃ r', r.pass time = (r', .ok ())) ↔ r.stop ≤ time) ∧
    (∀ q slot? r', Request.answer q r = (r', .ok slot?) →
      slot? = (q.span? r).map (fun _ => r.count) ∧
      r'.log.spans.toList = r.log.spans.toList ++ (q.span? r).toList ∧ r'.stop = q.time) ∧
    (∀ span, r.count < r.capacity → r.stop ≤ span.start →
      r.log.push span = (r.log.append span, .ok r.count)) ∧
    (∀ q r' cause, Request.answer q r ≠ (r', .error (.log cause))) ∧
    ∀ q r' e, Request.answer q r = (r', .error e) → r' = r := by
  intro r
  have h : r.Valid := valid_requests (valid_allocate kind expected start) requests
  have hmem : ∀ {i s}, r.span? i = some s → s ∈ r.log.spans.toList := fun hs =>
    Array.mem_toList_iff.mpr (Array.mem_of_getElem? hs)
  refine ⟨⟨h.size_spans, h.count_le, h.capacity_eq, h.head_eq, h.head_eq.symm⟩, fun i s hs =>
    ⟨h.spans.length_pos s (hmem hs), h.spans.start_le s (hmem hs), h.spans.stop_le s (hmem hs)⟩,
    fun i s t hs ht => ?adjacent, fun _ => h.commit_ok_iff, fun _ _ => h.commitWithPeriod_ok_iff,
    fun _ => pass_ok_iff, fun _ _ _ => h.of_answer, fun _ => h.log_push_eq,
    fun _ _ cause herror => (h.eq_of_answer_error herror).2 cause rfl,
    fun _ _ _ herror => (h.eq_of_answer_error herror).1⟩
  case adjacent =>
    obtain ⟨hi, rfl⟩ := Array.getElem?_eq_some_iff.mp hs
    obtain ⟨hj, rfl⟩ := Array.getElem?_eq_some_iff.mp ht
    have hordered := List.pairwise_iff_getElem.mp h.spans.ordered i (i + 1) (by simpa using hi)
      (by simpa using hj) (Nat.lt_succ_self i)
    simpa only [Array.getElem_toList] using hordered

end PlainRegion

end StreamGauge
