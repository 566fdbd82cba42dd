import Mathlib.Data.Finset.Dedup
import Mathlib.Data.Finset.Card
import StreamGauge.Compile.Service

/-!
# Compilations side by side

Calls to compile queries share one service, and any of them may take the next step. A `Traffic` is
such a set of calls with their service; a schedule lists whose step it is.

* A routine that is in the table stays there (`Service.Keeps`): every step of a call keeps it
  (`Call.keeps_step`).
* What a call has come to is justified by what it asked the backend for and by the table
  (`Call.Sound`). A step of a call keeps this of the call itself (`Call.Sound.step`) and of
  all others (`Call.Sound.mono`).
* `Lawful` collects the invariants. Each step keeps them (`Lawful.step`), so they hold after every
  schedule (`lawful_run`), and `compile_interleaved` is what that means for the callers.
-/

namespace StreamGauge

/-! ## The table of routines -/

namespace Service

/-- The symbols that have a routine. -/
def symbols (s : Service) : List String := s.routines.map (·.1)

/-- Every routine that the first service finds, the second one finds, too. -/
def Keeps (s s' : Service) : Prop := ∀ name r, s.lookup name = .ok r → s'.lookup name = .ok r

variable {s s' s'' : Service} {name symbol : String} {r r' : Routine}

theorem Keeps.refl (s : Service) : s.Keeps s := fun _ _ h => h

theorem Keeps.trans (h : s.Keeps s') (h' : s'.Keeps s'') : s.Keeps s'' :=
  fun name r hr => h' name r (h name r hr)

theorem contains_iff : s.contains symbol = true ↔ symbol ∈ s.symbols := by
  simp [contains, symbols]

theorem lookup_isOk_iff : (∃ r, s.lookup symbol = .ok r) ↔ symbol ∈ s.symbols := by
  rw [← contains_iff, contains, ← List.isSome_find?]
  unfold lookup
  split
  case h_1 entry heq => simp [heq]
  case h_2 heq => simp [heq]

theorem mem_of_lookup (h : s.lookup symbol = .ok r) : (symbol, r) ∈ s.routines := by
  unfold lookup at h
  split at h
  case h_1 entry heq =>
    cases h
    have hname : entry.1 = symbol := by simpa using List.find?_some heq
    have hmem := List.mem_of_find?_eq_some heq
    rwa [← hname]
  case h_2 => cases h

theorem lookup_congr (h : s'.routines = s.routines) : s'.lookup name = s.lookup name := by
  simp only [lookup, h]

theorem Keeps.of_eq (h : s'.routines = s.routines) : s.Keeps s' := by
  intro name r hr
  rwa [lookup_congr h]

/-- A symbol that has a routine keeps it; any other is added at the end. -/
theorem routines_enter (s : Service) (symbol : String) (r : Routine) :
    (s.enter symbol r).routines =
      if symbol ∈ s.symbols then s.routines else s.routines ++ [(symbol, r)] := by
  unfold enter
  by_cases h : symbol ∈ s.symbols
  · rw [if_pos (contains_iff.mpr h), if_pos h]
  · rw [if_neg (mt contains_iff.mp h), if_neg h]

theorem symbols_enter (s : Service) (symbol : String) (r : Routine) :
    (s.enter symbol r).symbols =
      if symbol ∈ s.symbols then s.symbols else s.symbols ++ [symbol] := by
  rw [symbols, routines_enter]
  split <;> simp [symbols]

theorem mem_symbols_enter (s : Service) (symbol : String) (r : Routine) :
    symbol ∈ (s.enter symbol r).symbols := by
  rw [symbols_enter]
  split <;> simp [*]

/-- Entering a routine hides no other. -/
theorem keeps_enter (s : Service) (symbol : String) (r : Routine) : s.Keeps (s.enter symbol r) := by
  intro name r' h
  unfold lookup at h ⊢
  rw [routines_enter]
  split at h
  case h_2 => cases h
  case h_1 entry heq =>
    by_cases hmem : symbol ∈ s.symbols
    · rw [if_pos hmem, heq]
      exact h
    · rw [if_neg hmem, List.find?_append, heq]
      exact h

end Service

/-! ## One call -/

namespace Call

variable [TextHash] {backend : Backend} {q : Query} {c : Call} {s s' : Service}
  {asked asked' : Except CompileError Routine → Prop}

/-- What justifies how far a call for `q` has come: a routine that it is to enter, and an error
that it ends with, is what the backend answered; a routine that it is to find is in the table, and
one that it has found is the one in the table. -/
def Sound (asked : Except CompileError Routine → Prop) (s : Service) (q : Query) : Call → Prop
  | checking | building => True
  | entering r => asked (.ok r)
  | looking => ∃ r, s.lookup q.symbol = .ok r
  | done (.ok r) => s.lookup q.symbol = .ok r
  | done (.error e) => asked (.error e)

/-- More answers of the backend and more routines in the table take nothing away. -/
theorem Sound.mono (h : c.Sound asked s q) (hasked : ∀ r, asked r → asked' r) (hs : s.Keeps s') :
    c.Sound asked' s' q := by
  cases c with
  | checking => trivial
  | building => trivial
  | entering r => exact hasked _ h
  | looking =>
    obtain ⟨r, hr⟩ := h
    exact ⟨r, hs _ _ hr⟩
  | done result =>
    cases result with
    | ok r => exact hs _ _ h
    | error e => exact hasked _ h

/-- A step of a call keeps every routine that is in the table. -/
theorem keeps_step (backend : Backend) (q : Query) (c : Call) (s : Service) :
    s.Keeps (c.step backend q s).2 := by
  cases c with
  | building =>
    simp only [step]
    split <;> exact .of_eq rfl
  | entering r => exact s.keeps_enter q.symbol r
  | _ => exact .refl s

/-- A step of a justified call leaves it justified, if the answer to it counts when it asks. -/
theorem Sound.step (h : c.Sound asked s q)
    (hbuild : c = .building → asked (backend s.next q)) :
    (c.step backend q s).1.Sound asked (c.step backend q s).2 q := by
  cases c with
  | checking =>
    simp only [step]
    split
    case isTrue hcontains => exact Service.lookup_isOk_iff.mpr (Service.contains_iff.mp hcontains)
    case isFalse => trivial
  | building =>
    have hanswer := hbuild rfl
    simp only [step]
    split
    case h_1 r heq => rwa [heq] at hanswer
    case h_2 e heq => rwa [heq] at hanswer
  | entering r => exact Service.lookup_isOk_iff.mpr (s.mem_symbols_enter q.symbol r)
  | looking =>
    obtain ⟨r, hr⟩ := h
    simp only [step, hr]
    exact hr
  | done result => exact h

/-- A step changes the table only when it enters a routine that the backend made for a symbol
without one. -/
theorem routines_step (backend : Backend) (q : Query) (c : Call) (s : Service) :
    (c.step backend q s).2.routines = s.routines ∨
      ∃ r, c = .entering r ∧ q.symbol ∉ s.symbols ∧
        (c.step backend q s).2.routines = s.routines ++ [(q.symbol, r)] := by
  cases c with
  | building =>
    simp only [step]
    split <;> exact .inl rfl
  | entering r =>
    by_cases hmem : q.symbol ∈ s.symbols
    · exact .inl (by simp [step, Service.routines_enter, hmem])
    · exact .inr ⟨r, rfl, hmem, by simp [step, Service.routines_enter, hmem]⟩
  | _ => exact .inl rfl

/-- What is in the table after a step was there before, or it is what the call has entered. -/
theorem mem_routines_step {e : String × Routine} (h : e ∈ (c.step backend q s).2.routines) :
    e ∈ s.routines ∨ ∃ r, c = .entering r ∧ e = (q.symbol, r) := by
  rcases routines_step backend q c s with heq | ⟨r, hr, -, heq⟩
  · exact .inl (heq ▸ h)
  · rw [heq, List.mem_append, List.mem_singleton] at h
    exact h.imp_right fun he => ⟨r, hr, he⟩

/-- No symbol gets a second routine. -/
theorem nodup_step (h : s.symbols.Nodup) : (c.step backend q s).2.symbols.Nodup := by
  unfold Service.symbols
  rcases routines_step backend q c s with heq | ⟨r, -, hnew, heq⟩
  · rw [heq]
    exact h
  · have hconcat := h.concat hnew
    rw [List.concat_eq_append] at hconcat
    rwa [heq, List.map_append]

/-- Whether the call has seen its symbol in the table. -/
def isServed : Call → Bool
  | looking | done (.ok _) => true
  | _ => false

theorem isServed_step (h : c.Sound asked s q) (hserved : c.isServed = true) :
    (c.step backend q s).1.isServed = true := by
  cases c with
  | looking =>
    -- A call that looks has found its symbol, and the table has only grown since.
    obtain ⟨r, hr⟩ := h
    simp only [step, hr]
    rfl
  | done result => exact hserved
  | _ => cases hserved

/-- The steps that a call still takes at most. -/
def remaining : Call → Nat
  | checking => 4
  | building => 3
  | entering _ => 2
  | looking => 1
  | done _ => 0

theorem remaining_step (backend : Backend) (q : Query) (c : Call) (s : Service) :
    (c.step backend q s).1.remaining ≤ c.remaining - 1 := by
  cases c with
  | checking =>
    simp only [step]
    split <;> decide
  | building =>
    simp only [step]
    split
    · exact Nat.le_refl 2
    · exact Nat.zero_le 2
  | entering r => exact Nat.le_refl 1
  | looking => exact Nat.le_refl 0
  | done result => exact Nat.le_refl 0

end Call

/-! ## Calls side by side -/

/-- Calls to compile queries, each with how far it has come, and the service that they share. -/
structure Traffic where
  calls : List (Query × Call)
  service : Service

namespace Traffic

variable [TextHash]

/-- A call for each query before its first step, and a service without routines. -/
def start (queries : List Query) (next : Nat) : Traffic :=
  ⟨queries.map fun q => (q, .checking), .empty next⟩

/-- Call `i` takes its next step. -/
def step (backend : Backend) (t : Traffic) (i : Nat) : Traffic :=
  match t.calls[i]? with
  | none => t
  | some (q, c) =>
    let (c, s) := c.step backend q t.service
    ⟨t.calls.set i (q, c), s⟩

/-- The calls take steps in the order of a schedule. -/
def run (backend : Backend) (t : Traffic) (schedule : List Nat) : Traffic :=
  schedule.foldl (step backend) t

/-- All calls have come to an end. -/
def Finished (t : Traffic) : Prop := ∀ q c, (q, c) ∈ t.calls → ∃ result, c = .done result

/-- The symbols of the calls that ended with a routine. -/
def succeeded (t : Traffic) : List String :=
  t.calls.filterMap fun
    | (q, .done (.ok _)) => some q.symbol
    | _ => none

/-- In the course of a schedule, call `i` asked the backend for `q` and got `result`. -/
def Asked (backend : Backend) (t : Traffic) (schedule : List Nat) (i : Nat) (q : Query)
    (result : Except CompileError Routine) : Prop :=
  ∃ before after, schedule = before ++ i :: after ∧
    (t.run backend before).calls[i]? = some (q, .building) ∧
    backend (t.run backend before).service.next q = result

variable {backend : Backend} {t : Traffic} {schedule : List Nat} {i j : Nat} {q : Query} {c : Call}

theorem run_append (before after : List Nat) :
    t.run backend (before ++ after) = (t.run backend before).run backend after :=
  List.foldl_append

theorem run_concat (schedule : List Nat) (i : Nat) :
    t.run backend (schedule ++ [i]) = (t.run backend schedule).step backend i :=
  run_append schedule [i]

theorem Asked.append {result : Except CompileError Routine}
    (h : Asked backend t schedule i q result) (more : List Nat) :
    Asked backend t (schedule ++ more) i q result := by
  obtain ⟨before, after, rfl, hrest⟩ := h
  exact ⟨before, after ++ more, by simp, hrest⟩

/-- What a step does to each call. -/
theorem calls_step (backend : Backend) (h : t.calls[i]? = some (q, c)) (j : Nat) :
    (t.step backend i).calls[j]? =
      if i = j then some (q, (c.step backend q t.service).1) else t.calls[j]? := by
  obtain ⟨hlt, -⟩ := List.getElem?_eq_some_iff.mp h
  simp only [step, h, List.getElem?_set, hlt, ↓reduceIte]

theorem service_step (backend : Backend) (h : t.calls[i]? = some (q, c)) :
    (t.step backend i).service = (c.step backend q t.service).2 := by
  simp only [step, h]

theorem step_eq_self (h : t.calls[i]? = none) : t.step backend i = t := by
  simp only [step, h]

theorem queries_step (backend : Backend) (t : Traffic) (i : Nat) :
    (t.step backend i).calls.map (·.1) = t.calls.map (·.1) := by
  cases h : t.calls[i]? with
  | none => rw [step_eq_self h]
  | some call =>
    obtain ⟨hlt, hcall⟩ := List.getElem?_eq_some_iff.mp h
    simp only [step, h, List.map_set]
    have hbound : i < (t.calls.map (·.1)).length := by simpa using hlt
    have hquery : (t.calls.map (·.1))[i] = call.1 := by rw [List.getElem_map, hcall]
    rw [← hquery, List.set_getElem_self]

/-- Steps keep every routine that is in the table. -/
theorem keeps_run (backend : Backend) (t : Traffic) (schedule : List Nat) :
    t.service.Keeps (t.run backend schedule).service := by
  induction schedule generalizing t with
  | nil => exact .refl _
  | cons i schedule ih =>
    refine .trans ?_ (ih (t.step backend i))
    cases h : t.calls[i]? with
    | none =>
      rw [step_eq_self h]
      exact .refl _
    | some call =>
      rw [service_step backend h]
      exact Call.keeps_step backend call.1 call.2 t.service

/-- A call that is scheduled takes a step, until it has none left. -/
theorem remaining_run (backend : Backend) (h : t.calls[i]? = some (q, c)) (schedule : List Nat) :
    ∃ c', (t.run backend schedule).calls[i]? = some (q, c') ∧
      c'.remaining ≤ c.remaining - schedule.count i := by
  induction schedule generalizing t c with
  | nil => exact ⟨c, h, Nat.le_refl _⟩
  | cons j schedule ih =>
    -- Only its own steps move a call, and each of them takes one off its count.
    by_cases hj : j = i
    · subst hj
      have hstep : (t.step backend j).calls[j]? = some (q, (c.step backend q t.service).1) := by
        rw [calls_step backend h, if_pos rfl]
      obtain ⟨c', hc', hle⟩ := ih hstep
      have hless := Call.remaining_step backend q c t.service
      refine ⟨c', hc', ?_⟩
      rw [List.count_cons_self]
      omega
    · have hstep : (t.step backend j).calls[i]? = some (q, c) := by
        cases hcall : t.calls[j]? with
        | none => rw [step_eq_self hcall, h]
        | some call => rw [calls_step backend hcall, if_neg hj, h]
      obtain ⟨c', hc', hle⟩ := ih hstep
      exact ⟨c', hc', by rwa [List.count_cons_of_ne hj]⟩

/-! ## What every schedule keeps -/

/-- What the calls and the table have to do with what the backend was asked for: every call is
justified, no symbol has two routines, each routine was made for a query of its symbol, and some
call has seen each symbol. -/
structure Lawful (asked : Nat → Query → Except CompileError Routine → Prop) (t : Traffic) :
    Prop where
  nodup : t.service.symbols.Nodup
  sound : ∀ (i : Nat) (q : Query) (c : Call), t.calls[i]? = some (q, c) →
    c.Sound (asked i q) t.service q
  built : ∀ e ∈ t.service.routines, ∃ i q, q.symbol = e.1 ∧ asked i q (.ok e.2)
  served : ∀ symbol ∈ t.service.symbols, ∃ (i : Nat) (q : Query) (c : Call),
    t.calls[i]? = some (q, c) ∧ q.symbol = symbol ∧ c.isServed = true

namespace Lawful

variable {asked asked' : Nat → Query → Except CompileError Routine → Prop}

theorem mono (h : Lawful asked t) (hasked : ∀ i q r, asked i q r → asked' i q r) :
    Lawful asked' t :=
  { h with
    sound := fun i q c hcall => (h.sound i q c hcall).mono (hasked i q) (.refl _)
    built := fun e he => by
      obtain ⟨i, q, hq, ha⟩ := h.built e he
      exact ⟨i, q, hq, hasked i q _ ha⟩ }

/-- A step keeps all of it, if the answer to the call counts when it asks. -/
theorem step (h : Lawful asked t) (i : Nat)
    (hbuild : ∀ q, t.calls[i]? = some (q, .building) → asked i q (backend t.service.next q)) :
    Lawful asked (t.step backend i) := by
  cases hcall : t.calls[i]? with
  | none => rwa [step_eq_self hcall]
  | some call =>
    obtain ⟨q, c⟩ := call
    have hsound := h.sound i q c hcall
    have hcalls := fun j => calls_step backend hcall j
    have hservice := service_step backend hcall
    -- One call moves; the others only see a table that may have grown.
    refine ⟨?nodup, fun j q' c' hj => ?sound, fun e he => ?built, fun symbol hmem => ?served⟩
    case nodup =>
      rw [hservice]
      exact Call.nodup_step h.nodup
    case sound =>
      rw [hcalls] at hj
      rw [hservice]
      split at hj
      case isTrue hij =>
        subst hij
        cases hj
        exact hsound.step fun hc => hbuild q (hc ▸ hcall)
      case isFalse =>
        exact (h.sound j q' c' hj).mono (fun _ ha => ha) (Call.keeps_step backend q c _)
    case built =>
      rw [hservice] at he
      rcases Call.mem_routines_step he with hold | ⟨r, rfl, rfl⟩
      · exact h.built e hold
      · exact ⟨i, q, rfl, hsound⟩
    case served =>
      rw [hservice] at hmem
      obtain ⟨e, he, rfl⟩ := List.mem_map.mp hmem
      rcases Call.mem_routines_step he with hold | ⟨r, rfl, rfl⟩
      · obtain ⟨j, q', c', hj, hq, hserved⟩ := h.served e.1 (List.mem_map_of_mem hold)
        by_cases hij : i = j
        · subst hij
          rw [hcall] at hj
          cases hj
          exact ⟨i, q, _, by rw [hcalls, if_pos rfl], hq, Call.isServed_step hsound hserved⟩
        · exact ⟨j, q', c', by rw [hcalls, if_neg hij, hj], hq, hserved⟩
      -- The entry is new, and the call that has made it is the one that looks next.
      · exact ⟨i, q, _, by rw [hcalls, if_pos rfl], rfl, rfl⟩

end Lawful

theorem lawful_start (asked : Nat → Query → Except CompileError Routine → Prop)
    (queries : List Query) (next : Nat) : Lawful asked (start queries next) where
  nodup := List.nodup_nil
  sound i q c h := by
    obtain ⟨q', -, heq⟩ := List.mem_map.mp (List.mem_of_getElem? h)
    cases heq
    trivial
  built e he := absurd he List.not_mem_nil
  served symbol h := absurd h List.not_mem_nil

/-- Whatever the order of the steps, what the backend was asked for explains the calls and the
table. -/
theorem lawful_run (backend : Backend) (queries : List Query) (next : Nat) (schedule : List Nat) :
    Lawful (Asked backend (start queries next) schedule)
      ((start queries next).run backend schedule) := by
  -- From the end, as `Asked` speaks of all the steps before the one that asks.
  induction schedule using List.reverseRecOn with
  | nil => exact lawful_start _ queries next
  | append_singleton schedule i ih =>
    rw [run_concat]
    exact (ih.mono fun _ _ _ ha => ha.append [i]).step i fun q hq => ⟨schedule, [], rfl, hq, rfl⟩

theorem queries_run (backend : Backend) (t : Traffic) (schedule : List Nat) :
    (t.run backend schedule).calls.map (·.1) = t.calls.map (·.1) := by
  induction schedule generalizing t with
  | nil => rfl
  | cons i schedule ih => exact (ih (t.step backend i)).trans (queries_step backend t i)

theorem queries_run_start (backend : Backend) (queries : List Query) (next : Nat)
    (schedule : List Nat) :
    ((start queries next).run backend schedule).calls.map (·.1) = queries := by
  rw [queries_run]
  simp [start, Function.comp_def]

/-- A call that has taken four steps has ended. -/
theorem finished_run {backend : Backend} {queries : List Query} {next : Nat} {schedule : List Nat}
    (hcount : ∀ i < queries.length, 4 ≤ schedule.count i) :
    ((start queries next).run backend schedule).Finished := by
  intro q c hmem
  obtain ⟨i, hi⟩ := List.getElem?_of_mem hmem
  obtain ⟨hlt, -⟩ := List.getElem?_eq_some_iff.mp hi
  have hlength : i < queries.length := by
    rw [← queries_run_start backend queries next schedule, List.length_map]
    exact hlt
  have hstart : (start queries next).calls[i]? = some (queries[i], .checking) := by
    simp [start, List.getElem?_eq_getElem hlength]
  obtain ⟨c', hc', hle⟩ := remaining_run backend hstart schedule
  have hsteps := hcount i hlength
  rw [hi] at hc'
  cases hc'
  have hzero : c.remaining = 0 := by
    change c.remaining ≤ 4 - _ at hle
    omega
  cases c with
  | done result => exact ⟨result, rfl⟩
  | _ => cases hzero

/-! ## What the callers see -/

theorem mem_succeeded {symbol : String} :
    symbol ∈ t.succeeded ↔ ∃ q r, (q, .done (.ok r)) ∈ t.calls ∧ q.symbol = symbol := by
  unfold succeeded
  rw [List.mem_filterMap]
  constructor
  · rintro ⟨⟨q, c⟩, hmem, heq⟩
    split at heq
    case h_1 r hcall =>
      cases hcall
      exact ⟨q, r, hmem, Option.some.inj heq⟩
    case h_2 => cases heq
  · rintro ⟨q, r, hmem, rfl⟩
    exact ⟨_, hmem, rfl⟩

/-- When all calls have ended, the table has the symbols of those that succeeded, each once. -/
theorem Lawful.mem_symbols {asked : Nat → Query → Except CompileError Routine → Prop}
    (h : Lawful asked t) (hfinished : t.Finished) {symbol : String} :
    symbol ∈ t.service.symbols ↔ symbol ∈ t.succeeded := by
  rw [mem_succeeded]
  constructor
  · intro hmem
    obtain ⟨i, q, c, hcall, hq, hserved⟩ := h.served symbol hmem
    obtain ⟨result, rfl⟩ := hfinished q c (List.mem_of_getElem? hcall)
    cases result with
    | ok r => exact ⟨q, r, List.mem_of_getElem? hcall, hq⟩
    | error e => cases hserved
  · rintro ⟨q, r, hmem, rfl⟩
    obtain ⟨i, hi⟩ := List.getElem?_of_mem hmem
    exact Service.lookup_isOk_iff.mp ⟨r, h.sound i q _ hi⟩

/-- However the steps of calls to one service follow each other,

* the calls stay the ones for the given queries, and each of them ends with its fourth step at the
  latest;
* a symbol that has a routine keeps that routine;
* two calls that succeed for queries of one symbol end with the same routine;
* that routine is what the backend answered to one of the calls, for a query of that symbol;
* a call that fails ends with the error that the backend answered to it;
* a call that the backend refuses leaves the table as it was;
* when all calls have ended, the symbols with a routine are those of the calls that succeeded, and
  there are as many entries. -/
theorem compile_interleaved (backend : Backend) (queries : List Query) (next : Nat)
    (schedule : List Nat) :
    let t₀ := start queries next
    let t := t₀.run backend schedule
    (t.calls.map (·.1) = queries ∧
      ((∀ i < queries.length, 4 ≤ schedule.count i) → t.Finished)) ∧
    (∀ more name r, t.service.lookup name = .ok r →
      (t.run backend more).service.lookup name = .ok r) ∧
    (∀ (i j : Nat) (q q' : Query) (r r' : Routine), t.calls[i]? = some (q, .done (.ok r)) →
      t.calls[j]? = some (q', .done (.ok r')) → q.symbol = q'.symbol → r = r') ∧
    (∀ (i : Nat) (q : Query) (r : Routine), t.calls[i]? = some (q, .done (.ok r)) →
      ∃ j q', q'.symbol = q.symbol ∧ Asked backend t₀ schedule j q' (.ok r)) ∧
    (∀ (i : Nat) (q : Query) (e : CompileError), t.calls[i]? = some (q, .done (.error e)) →
      Asked backend t₀ schedule i q (.error e)) ∧
    (∀ (i : Nat) (q : Query) (e : CompileError), t.calls[i]? = some (q, .building) →
      backend t.service.next q = .error e →
      (t.step backend i).calls[i]? = some (q, .done (.error e)) ∧
        (t.step backend i).service.routines = t.service.routines) ∧
    (t.Finished → t.service.size = t.succeeded.toFinset.card ∧
      ∀ name, (∃ r, t.service.lookup name = .ok r) ↔ name ∈ t.succeeded) := by
  intro t₀ t
  have h : Lawful (Asked backend t₀ schedule) t := lawful_run backend queries next schedule
  refine ⟨⟨queries_run_start backend queries next schedule, finished_run⟩,
    fun more => keeps_run backend t more, fun i j q q' r r' hi hj hq => ?same,
    fun i q r hi => ?origin, fun i q e hi => h.sound i q _ hi, fun i q e hi he => ?refused,
    fun hfinished => ⟨?size, fun name => ?found⟩⟩
  case same =>
    have hr := h.sound i q _ hi
    have hr' := h.sound j q' _ hj
    simp only [Call.Sound] at hr hr'
    rw [hq, hr'] at hr
    cases hr
    rfl
  case origin => exact h.built _ (Service.mem_of_lookup (h.sound i q _ hi))
  case refused =>
    rw [calls_step backend hi, if_pos rfl, service_step backend hi]
    simp only [Call.step, he, and_self]
  case size =>
    have hset : t.succeeded.toFinset = t.service.symbols.toFinset := by
      ext name
      rw [List.mem_toFinset, List.mem_toFinset, h.mem_symbols hfinished]
    rw [hset, List.toFinset_card_of_nodup h.nodup]
    exact (List.length_map _).symm
  case found => rw [Service.lookup_isOk_iff, h.mem_symbols hfinished]

/-- Two calls both miss their symbol, so the backend makes two routines. The one that is entered
first serves both calls. -/
example (q : Query) :
    let backend : Backend := fun serial q => .ok ⟨serial, q.symbol, q.arity, q.run⟩
    ((start [q, q] 0).run backend [0, 1, 0, 1, 1, 0, 0, 1]).calls =
      [(q, .done (backend 1 q)), (q, .done (backend 1 q))] := by
  simp [start, run, step, Call.step, Service.empty, Service.contains, Service.enter, Service.lookup]

end Traffic

end StreamGauge
