import StreamGauge.Bench.Lifecycle
import StreamGauge.Proofs.Bench.Inputs
import StreamGauge.Proofs.Exec.Run

/-!
# Lifecycles under any calls

A `Lifecycle.Session` takes calls in any order, also such as are refused or fail, and remembers the
steps that succeeded. `Lifecycle.after_requests` says what holds after any calls:

* the steps that succeeded lead through the stages in order, so none succeeds twice;
* the routine, the inputs and the output are there in their stages and in no other, except that the
  inputs are left behind where no buffer can hold the output (`inputs_left_without_buffer`);
* a call from another stage is refused and changes nothing, a call that fails keeps the stage, and
  one that succeeds leads to the next;
* a run is the four calls from compilation to release, up to the first that fails.

Each call has a lemma that lists all it can do (`compile_cases`, `init_cases`, ...). From them,
`Session.Sound` is kept by one call (`Sound.call`), and so by any requests (`Sound.requests`).
-/

namespace StreamGauge

namespace Lifecycle

variable {β κ : Type}

/-! ## Calls -/

/-- A call that takes one step. -/
inductive Call (κ : Type) where
  | compile (compiler : Compiler κ)
  | attach (r : Routine)
  | init
  | execute
  | release

/-- What a call answers if it succeeds. -/
inductive Reply where
  | routine (r : Routine)
  | done
  | released (r : Release)

namespace Call

/-- The step that the call takes. -/
def step : Call κ → Step
  | compile _ => .compile
  | attach _ => .attach
  | init => .init
  | execute => .execute
  | release => .release

/-- What the call makes of the state of the compilers and of the lifecycle, and its answer. -/
def perform [Benchmark β] (k : κ) (l : Lifecycle β) :
    Call κ → κ × Lifecycle β × Except BenchError Reply
  | compile compiler =>
    let (k, l, answer) := l.compile compiler k
    (k, l, answer.map .routine)
  | attach r =>
    let (l, answer) := l.attach r
    (k, l, answer.map fun _ => .done)
  | init =>
    let (l, answer) := l.init
    (k, l, answer.map fun _ => .done)
  | execute =>
    let (l, answer) := l.execute
    (k, l, answer.map fun _ => .done)
  | release =>
    let (l, answer) := l.release
    (k, l, answer.map .released)

end Call

/-! ## What a call can do -/

section Cases

variable (l : Lifecycle β)

theorem allows_cases (step : Step) :
    (l.stage ≠ step.source ∧ l.allows step = .error (.outOfOrder step l.stage)) ∨
      l.stage = step.source ∧ l.allows step = .ok () := by
  unfold allows
  by_cases h : l.stage = step.source
  · exact .inr ⟨h, if_pos h⟩
  · exact .inl ⟨h, if_neg h⟩

theorem attach_cases (r : Routine) :
    (l.stage ≠ .uninitialized ∧ l.attach r = (l, .error (.outOfOrder .attach l.stage))) ∨
    l.stage = .uninitialized ∧
      l.attach r = ({ l with stage := .compiled, routine? := some r }, .ok ()) := by
  unfold attach
  rcases l.allows_cases .attach with ⟨hstage, hallows⟩ | ⟨hstage, hallows⟩
  · exact .inl ⟨hstage, by rw [hallows]⟩
  · exact .inr ⟨hstage, by rw [hallows]; rfl⟩

variable [Benchmark β]

theorem compile_cases (compiler : Compiler κ) (k : κ) :
    (l.stage ≠ .uninitialized ∧
      l.compile compiler k = (k, l, .error (.outOfOrder .compile l.stage))) ∨
    l.stage = .uninitialized ∧ ∃ k',
      (∃ e, compiler (Benchmark.query l.bench) k = (.error e, k') ∧
        l.compile compiler k = (k', l, .error (.compile e))) ∨
      ∃ r, compiler (Benchmark.query l.bench) k = (.ok r, k') ∧
        l.compile compiler k = (k', { l with stage := .compiled, routine? := some r }, .ok r) := by
  unfold compile
  rcases l.allows_cases .compile with ⟨hstage, hallows⟩ | ⟨hstage, hallows⟩
  · exact .inl ⟨hstage, by rw [hallows]⟩
  · rw [hallows]
    cases hmade : compiler (Benchmark.query l.bench) k with
    | mk made k' =>
      cases made with
      | error e => exact .inr ⟨hstage, k', .inl ⟨e, rfl, rfl⟩⟩
      | ok r => exact .inr ⟨hstage, k', .inr ⟨r, rfl, rfl⟩⟩

theorem init_cases :
    (l.stage ≠ .compiled ∧ l.init = (l, .error (.outOfOrder .init l.stage))) ∨
    l.stage = .compiled ∧ ∃ bench,
      (∃ e, Benchmark.init l.bench = (bench, .error e) ∧
        l.init = ({ l with bench := bench }, .error e)) ∨
      Benchmark.init l.bench = (bench, .ok ()) ∧
        l.init = ({ l with bench := bench, stage := .initialized }, .ok ()) := by
  unfold init
  rcases l.allows_cases .init with ⟨hstage, hallows⟩ | ⟨hstage, hallows⟩
  · exact .inl ⟨hstage, by rw [hallows]⟩
  · rw [hallows]
    cases hmade : Benchmark.init l.bench with
    | mk bench ended =>
      cases ended with
      | error e => exact .inr ⟨hstage, bench, .inl ⟨e, rfl, rfl⟩⟩
      | ok u => exact .inr ⟨hstage, bench, .inr ⟨rfl, rfl⟩⟩

theorem execute_cases :
    (l.stage ≠ .initialized ∧ l.execute = (l, .error (.outOfOrder .execute l.stage))) ∨
    l.stage = .initialized ∧
      ((l.routine? = none ∧ l.execute = (l, .error (.outOfOrder .execute l.stage))) ∨
      ∃ r bench, l.routine? = some r ∧
        ((∃ e, Benchmark.execute r l.bench = (bench, .error e) ∧
          l.execute = ({ l with bench := bench }, .error e)) ∨
        Benchmark.execute r l.bench = (bench, .ok ()) ∧
          l.execute = ({ l with bench := bench, stage := .executed }, .ok ()))) := by
  unfold execute
  rcases l.allows_cases .execute with ⟨hstage, hallows⟩ | ⟨hstage, hallows⟩
  · exact .inl ⟨hstage, by rw [hallows]⟩
  · refine .inr ⟨hstage, ?_⟩
    rw [hallows]
    cases hroutine : l.routine? with
    | none => exact .inl ⟨rfl, rfl⟩
    | some r =>
      cases hmade : Benchmark.execute r l.bench with
      | mk bench ended =>
        cases ended with
        | error e => exact .inr ⟨r, bench, rfl, .inl ⟨e, hmade, by simp [hmade]⟩⟩
        | ok u => exact .inr ⟨r, bench, rfl, .inr ⟨hmade, by simp [hmade]; rfl⟩⟩

theorem release_cases :
    (l.stage ≠ .executed ∧ l.release = (l, .error (.outOfOrder .release l.stage))) ∨
    l.stage = .executed ∧ ∃ dumps,
      l.release = (⟨(Benchmark.release l.bench).1, .released, none, l.dump?⟩,
        .ok ⟨(Benchmark.release l.bench).2, dumps⟩) := by
  unfold release
  rcases l.allows_cases .release with ⟨hstage, hallows⟩ | ⟨hstage, hallows⟩
  · exact .inl ⟨hstage, by rw [hallows]⟩
  · exact .inr ⟨hstage, _, by rw [hallows]; rfl⟩

/-- A call from another stage is refused and changes nothing. One that fails leaves the stage and
the routine as they were. One that succeeds leads from the source of its step to the target. -/
theorem Call.perform_cases (c : Call κ) (k : κ) :
    (l.stage ≠ c.step.source ∧ c.perform k l = (k, l, .error (.outOfOrder c.step l.stage))) ∨
    l.stage = c.step.source ∧ ∃ k' l',
      (∃ e, c.perform k l = (k', l', .error e) ∧ l'.stage = l.stage ∧ l'.routine? = l.routine?) ∨
      ∃ reply, c.perform k l = (k', l', .ok reply) ∧ l'.stage = c.step.target := by
  cases c with
  | compile compiler =>
    simp only [perform, step]
    rcases l.compile_cases compiler k with ⟨hstage, h⟩ | ⟨hstage, k', ⟨e, -, h⟩ | ⟨r, -, h⟩⟩
    · exact .inl ⟨hstage, by rw [h]; rfl⟩
    · exact .inr ⟨hstage, k', l, .inl ⟨_, by rw [h]; rfl, rfl, rfl⟩⟩
    · exact .inr ⟨hstage, k', _, .inr ⟨_, by rw [h]; rfl, rfl⟩⟩
  | attach r =>
    simp only [perform, step]
    rcases l.attach_cases r with ⟨hstage, h⟩ | ⟨hstage, h⟩
    · exact .inl ⟨hstage, by rw [h]; rfl⟩
    · exact .inr ⟨hstage, k, _, .inr ⟨_, by rw [h]; rfl, rfl⟩⟩
  | init =>
    simp only [perform, step]
    rcases l.init_cases with ⟨hstage, h⟩ | ⟨hstage, bench, ⟨e, -, h⟩ | ⟨-, h⟩⟩
    · exact .inl ⟨hstage, by rw [h]; rfl⟩
    · exact .inr ⟨hstage, k, { l with bench := bench }, .inl ⟨e, by rw [h]; rfl, rfl, rfl⟩⟩
    · exact .inr ⟨hstage, k, _, .inr ⟨_, by rw [h]; rfl, rfl⟩⟩
  | execute =>
    simp only [perform, step]
    rcases l.execute_cases with
      ⟨hstage, h⟩ | ⟨hstage, ⟨-, h⟩ | ⟨r, bench, -, ⟨e, -, h⟩ | ⟨-, h⟩⟩⟩
    · exact .inl ⟨hstage, by rw [h]; rfl⟩
    · exact .inr ⟨hstage, k, l, .inl ⟨_, by rw [h]; rfl, rfl, rfl⟩⟩
    · exact .inr ⟨hstage, k, { l with bench := bench }, .inl ⟨e, by rw [h]; rfl, rfl, rfl⟩⟩
    · exact .inr ⟨hstage, k, _, .inr ⟨_, by rw [h]; rfl, rfl⟩⟩
  | release =>
    simp only [perform, step]
    rcases l.release_cases with ⟨hstage, h⟩ | ⟨hstage, dumps, h⟩
    · exact .inl ⟨hstage, by rw [h]; rfl⟩
    · exact .inr ⟨hstage, k, _, .inr ⟨_, by rw [h]; rfl, rfl⟩⟩

end Cases

end Lifecycle

/-! ## The regions of a trial -/

/-- There is at least one input. -/
theorem Workload.inputs_ne_nil [RandomSource] {w : Workload} {inputs : List View}
    (h : w.inputs = .ok inputs) :
    inputs ≠ [] := by
  -- A workload makes one input or two, each of which can fail.
  have hone : ∀ made : Except BenchError View,
      (made >>= fun v => .ok [v]) = .ok inputs → inputs ≠ [] := by
    intro made hmade
    obtain ⟨v, -, hv⟩ := eq_ok_of_bind hmade
    cases hv
    exact List.cons_ne_nil _ _
  have htwo : ∀ made made' : Except BenchError View,
      (made >>= fun v => made' >>= fun v' => .ok [v, v']) = .ok inputs → inputs ≠ [] := by
    intro made made' hmade
    obtain ⟨v, -, hv⟩ := eq_ok_of_bind hmade
    obtain ⟨v', -, hv'⟩ := eq_ok_of_bind hv
    cases hv'
    exact List.cons_ne_nil _ _
  unfold Workload.inputs at h
  simp only at h
  split at h
  · exact htwo _ _ h
  · exact htwo _ _ h
  · exact htwo _ _ h
  · exact htwo _ _ h
  · split at h
    · exact hone _ h
    · exact hone _ h

/-- An output is missing for want of a buffer only. -/
theorem Workload.exists_noBuffer (w : Workload) {e : BenchError} (h : w.output = .error e) :
    ∃ n, w.output = .error (.noBuffer n) := by
  unfold Workload.output at h ⊢
  split at h
  · cases h
  · exact ⟨_, rfl⟩

namespace Trial

variable (t : Trial)

/-- An input that fails changes nothing. Inputs without an output are left only if there is no
buffer for the output. -/
theorem init_cases [RandomSource] :
    (∃ e, t.workload.inputs = .error e ∧ t.init = (t, .error e)) ∨
    ∃ inputs, t.workload.inputs = .ok inputs ∧
      ((∃ e, t.workload.output = .error e ∧ t.init = ({ t with inputs := inputs }, .error e)) ∨
      ∃ output, t.workload.output = .ok output ∧
        t.init = ({ t with inputs := inputs, output? := some output }, .ok ())) := by
  unfold init
  cases t.workload.inputs with
  | error e => exact .inl ⟨e, rfl, rfl⟩
  | ok inputs =>
    cases t.workload.output with
    | error e => exact .inr ⟨inputs, rfl, .inl ⟨e, rfl, rfl⟩⟩
    | ok output => exact .inr ⟨inputs, rfl, .inr ⟨output, rfl, rfl⟩⟩

theorem init_of_ok [RandomSource] {w : Workload} {inputs : List View} {output : PlainRegion}
    (hinputs : w.inputs = .ok inputs) (houtput : w.output = .ok output) :
    (ofWorkload w).init = (⟨w, inputs, some output⟩, .ok ()) := by
  simp only [init, ofWorkload, hinputs, houtput]

theorem init_of_noBuffer [RandomSource] {w : Workload} {inputs : List View} {e : BenchError}
    (hinputs : w.inputs = .ok inputs) (houtput : w.output = .error e) :
    (ofWorkload w).init = (⟨w, inputs, none⟩, .error e) := by
  simp only [init, ofWorkload, hinputs, houtput]

/-- A routine changes the output and nothing else. -/
theorem execute_keeps (r : Routine) :
    ∃ output?, (t.execute r).1 = { t with output? := output? } ∧
      (output?.isSome ↔ t.output?.isSome) := by
  unfold execute
  cases houtput : t.output? with
  | none => exact ⟨none, by simp [← houtput], Iff.rfl⟩
  | some output => exact ⟨some _, rfl, by simp⟩

/-- The regions that there are. -/
def live : List View := t.inputs ++ t.output?.toList.map .plain

theorem map_snd_regions : t.regions.map (·.2) = t.live := by
  rw [regions, live, List.map_append, List.map_map, List.map_map]
  exact congrArg (· ++ _) (List.zipIdx_map_fst 0 t.inputs)

/-- A release answers the bytes of all regions together. -/
theorem release_bytes : t.release.2 = (t.live.map View.footprint).sum := by
  rw [← map_snd_regions, List.map_map, List.sum_eq_foldr, List.foldr_map]
  rfl

end Trial

namespace Lifecycle

variable {κ : Type} {w : Workload} {l : Lifecycle Trial}

/-! ## What is there in which stage -/

/-- The routine and the regions of a workload are there in their stages and in no other. Without a
buffer for the output, the inputs can be there too early. -/
structure Consistent (w : Workload) (l : Lifecycle Trial) : Prop where
  workload : l.bench.workload = w
  routine : l.routine?.isSome ↔ l.stage ∈ [.compiled, .initialized, .executed]
  output : l.bench.output?.isSome ↔ l.stage ∈ [.initialized, .executed]
  inputs : (l.bench.inputs ≠ [] ↔ l.stage ∈ [.initialized, .executed]) ∨
    l.stage = .compiled ∧ ∃ n, w.output = .error (.noBuffer n)

theorem consistent_start (w : Workload) (dump? : Option DumpTarget) :
    (start (Trial.ofWorkload w) dump?).Consistent w :=
  ⟨rfl, by simp [start], by simp [start, Trial.ofWorkload],
    .inl (by simp [start, Trial.ofWorkload])⟩

namespace Consistent

/-- A routine that is taken leads to the stage where there is one. -/
theorem take (h : l.Consistent w) (hstage : l.stage = .uninitialized) (r : Routine) :
    Consistent w { l with stage := .compiled, routine? := some r } where
  workload := h.workload
  routine := by simp
  output := by simpa [hstage] using h.output
  inputs := .inl (by simpa [hstage] using h.inputs)

variable [RandomSource]

theorem init (h : l.Consistent w) : l.init.1.Consistent w := by
  rcases l.init_cases with ⟨-, hinit⟩ | ⟨hstage, bench, hmade⟩
  · rw [hinit]
    exact h
  change (∃ e, l.bench.init = (bench, .error e) ∧ _) ∨ l.bench.init = (bench, .ok ()) ∧ _ at hmade
  rcases l.bench.init_cases with
    ⟨e, -, htrial⟩ | ⟨inputs, hfilled, ⟨e, hnone, htrial⟩ | ⟨output, -, htrial⟩⟩
  · -- No input is left behind, so a further attempt begins as this one did.
    rw [htrial] at hmade
    rcases hmade with ⟨e', heq, hinit⟩ | ⟨heq, -⟩ <;> cases heq
    rw [hinit]
    exact ⟨h.workload, h.routine, h.output, h.inputs⟩
  -- The inputs are taken before the output is asked for: the exception that `Consistent` makes.
  · rw [htrial] at hmade
    rcases hmade with ⟨e', heq, hinit⟩ | ⟨heq, -⟩ <;> cases heq
    rw [hinit]
    rw [h.workload] at hnone
    exact ⟨h.workload, h.routine, h.output, .inr ⟨hstage, w.exists_noBuffer hnone⟩⟩
  · rw [htrial] at hmade
    rcases hmade with ⟨e', heq, -⟩ | ⟨heq, hinit⟩ <;> cases heq
    rw [hinit]
    refine ⟨h.workload, ?_, by simp, .inl (by simp [Workload.inputs_ne_nil hfilled])⟩
    simpa [hstage] using h.routine

theorem execute (h : l.Consistent w) : l.execute.1.Consistent w := by
  rcases l.execute_cases with ⟨-, heq⟩ | ⟨hstage, ⟨-, heq⟩ | ⟨r, bench, -, hmade⟩⟩
  · rw [heq]
    exact h
  · rw [heq]
    exact h
  obtain ⟨output?, hbench, houtput⟩ := l.bench.execute_keeps r
  have hroutine := h.routine
  rw [h.output] at houtput
  simp only [hstage] at hroutine houtput
  rcases hmade with ⟨e, htrial, heq⟩ | ⟨htrial, heq⟩
  · change l.bench.execute r = _ at htrial
    simp only [htrial] at hbench
    rw [heq, hbench]
    exact ⟨h.workload, h.routine, by rw [hstage]; exact houtput, h.inputs⟩
  · change l.bench.execute r = _ at htrial
    simp only [htrial] at hbench
    rw [heq, hbench]
    refine ⟨h.workload, by simpa using hroutine, by simpa using houtput, ?_⟩
    simpa [hstage] using h.inputs

theorem release (h : l.Consistent w) : l.release.1.Consistent w := by
  rcases l.release_cases with ⟨-, heq⟩ | ⟨hstage, dumps, heq⟩
  · rw [heq]
    exact h
  · rw [heq]
    exact ⟨h.workload, by simp, by simp [Benchmark.release, Trial.release],
      .inl (by simp [Benchmark.release, Trial.release])⟩

/-- Whatever a call does, it keeps the routine and the regions in their stages. -/
theorem perform (h : l.Consistent w) (c : Call κ) (k : κ) : (c.perform k l).2.1.Consistent w := by
  cases c with
  | compile compiler =>
    change (l.compile compiler k).2.1.Consistent w
    rcases l.compile_cases compiler k with ⟨-, heq⟩ | ⟨hstage, k', ⟨e, -, heq⟩ | ⟨r, -, heq⟩⟩
    · rw [heq]
      exact h
    · rw [heq]
      exact h
    · rw [heq]
      exact h.take hstage r
  | attach r =>
    change (l.attach r).1.Consistent w
    rcases l.attach_cases r with ⟨-, heq⟩ | ⟨hstage, heq⟩
    · rw [heq]
      exact h
    · rw [heq]
      exact h.take hstage r
  | init => exact h.init
  | execute => exact h.execute
  | release => exact h.release

end Consistent

/-! ## Sessions -/

/-- What is asked of a lifecycle: one step, or a run. -/
inductive Request (κ : Type) where
  | call (c : Call κ)
  | run (compiler : Compiler κ)

/-- A lifecycle in use: the state of the compilers, and the steps that have succeeded, in order. -/
structure Session (κ β : Type) where
  state : κ
  lifecycle : Lifecycle β
  passed : List Step

namespace Session

variable {β : Type} [Benchmark β]

/-- A call, which passes its step if it succeeds. -/
def call (s : Session κ β) (c : Call κ) : Session κ β × Except BenchError Reply :=
  let (k, l, answer) := c.perform s.state s.lifecycle
  match answer with
  | .ok reply => (⟨k, l, s.passed ++ [c.step]⟩, .ok reply)
  | .error e => (⟨k, l, s.passed⟩, .error e)

/-- Calls in a row, up to the first that fails. -/
def calls (s : Session κ β) : List (Call κ) → Session κ β × Except BenchError (List Reply)
  | [] => (s, .ok [])
  | c :: cs =>
    match s.call c with
    | (s, .error e) => (s, .error e)
    | (s, .ok reply) =>
      let (s, answer) := s.calls cs
      (s, answer.map (reply :: ·))

/-- The calls that a run stands for. -/
def stepsOf (compiler : Compiler κ) : List (Call κ) :=
  [.compile compiler, .init, .execute, .release]

/-- A request. A run passes the steps of its calls. -/
def request (s : Session κ β) : Request κ → Session κ β
  | .call c => (s.call c).1
  | .run compiler =>
    let made := s.lifecycle.run compiler s.state
    ⟨made.1, made.2.1, (s.calls (stepsOf compiler)).1.passed⟩

/-- A run is its calls in a row. The bytes and the dumps are what the last one answers. -/
theorem run_eq_calls (s : Session κ β) (compiler : Compiler κ) :
    let made := s.lifecycle.run compiler s.state
    let calls := s.calls (stepsOf compiler)
    made.1 = calls.1.state ∧ made.2.1 = calls.1.lifecycle ∧
      made.2.2.map (some ∘ Reply.released) = calls.2.map List.getLast? := by
  obtain ⟨k, l, passed⟩ := s
  simp only [stepsOf, Session.calls, Session.call, Call.perform, run, prepare]
  -- Both sides stop at the first step that fails, so one split for each step settles the run.
  rcases hcompile : l.compile compiler k with ⟨k₁, l₁, e | r⟩
  · exact ⟨rfl, rfl, rfl⟩
  simp only [Except.map]
  rcases hinit : l₁.init with ⟨l₂, e | u⟩
  · exact ⟨rfl, rfl, rfl⟩
  simp only
  rcases hexecute : l₂.execute with ⟨l₃, e | u⟩
  · exact ⟨rfl, rfl, rfl⟩
  simp only
  rcases hrelease : l₃.release with ⟨l₄, e | r'⟩
  · exact ⟨rfl, rfl, rfl⟩
  · exact ⟨rfl, rfl, rfl⟩

/-- What every session with a lifecycle of a workload keeps: the steps that have succeeded lead
through all the stages up to the present one. -/
structure Sound (w : Workload) (s : Session κ Trial) : Prop where
  forward : s.passed.map Step.target = Stage.all.tail.take s.lifecycle.stage.rank
  consistent : s.lifecycle.Consistent w

namespace Sound

variable {s : Session κ Trial}

/-- Steps are as many as the stages that they lead to. -/
theorem count_map_target (steps : List Step) :
    steps.count .compile + steps.count .attach = (steps.map Step.target).count .compiled ∧
      steps.count .init = (steps.map Step.target).count .initialized ∧
      steps.count .execute = (steps.map Step.target).count .executed ∧
      steps.count .release = (steps.map Step.target).count .released := by
  induction steps with
  | nil => exact ⟨rfl, rfl, rfl, rfl⟩
  | cons step steps ih => cases step <;> simp [Step.target] <;> omega

/-- No stage is reached twice, so no step succeeds twice. -/
theorem once (h : s.Sound w) :
    s.passed.count .compile + s.passed.count .attach ≤ 1 ∧ s.passed.count .init ≤ 1 ∧
      s.passed.count .execute ≤ 1 ∧ s.passed.count .release ≤ 1 := by
  -- A step counts as often as the stages that it leads to, and these are distinct.
  have hone : ∀ stage, (s.passed.map Step.target).count stage ≤ 1 := by
    intro stage
    rw [h.forward]
    refine Nat.le_trans ((List.take_sublist _ _).count_le stage) ?_
    cases stage <;> decide
  obtain ⟨hcompiled, hinitialized, hexecuted, hreleased⟩ := count_map_target s.passed
  rw [hcompiled, hinitialized, hexecuted, hreleased]
  exact ⟨hone _, hone _, hone _, hone _⟩

variable [RandomSource]

theorem call (h : s.Sound w) (c : Call κ) : (s.call c).1.Sound w := by
  have hconsistent := h.consistent.perform c s.state
  unfold Session.call
  rcases c.perform_cases s.lifecycle s.state with
    ⟨-, heq⟩ | ⟨hstage, k', l', ⟨e, heq, hsame, -⟩ | ⟨reply, heq, htarget⟩⟩
  · rw [heq]
    exact ⟨h.forward, h.consistent⟩
  · rw [heq] at hconsistent ⊢
    exact ⟨by rw [hsame]; exact h.forward, hconsistent⟩
  · rw [heq] at hconsistent ⊢
    refine ⟨?_, hconsistent⟩
    have hnext : Stage.all.tail.take c.step.source.rank ++ [c.step.target] =
        Stage.all.tail.take c.step.target.rank := by cases c <;> rfl
    rw [List.map_append, h.forward, hstage, htarget]
    exact hnext

theorem calls (h : s.Sound w) (cs : List (Call κ)) : (s.calls cs).1.Sound w := by
  induction cs generalizing s with
  | nil => exact h
  | cons c cs ih =>
    have hcall := h.call c
    unfold Session.calls
    rcases hanswer : s.call c with ⟨s', e | reply⟩
    · rw [hanswer] at hcall
      exact hcall
    · rw [hanswer] at hcall
      exact ih hcall

theorem request (h : s.Sound w) (q : Request κ) : (s.request q).Sound w := by
  cases q with
  | call c => exact h.call c
  | run compiler =>
    have hcalls := h.calls (stepsOf compiler)
    obtain ⟨-, hsame, -⟩ := s.run_eq_calls compiler
    refine ⟨?_, ?_⟩
    · simp only [Session.request, hsame]
      exact hcalls.forward
    · simp only [Session.request, hsame]
      exact hcalls.consistent

theorem requests (h : s.Sound w) (qs : List (Request κ)) :
    (qs.foldl Session.request s).Sound w := by
  induction qs generalizing s with
  | nil => exact h
  | cons q qs ih => exact ih (h.request q)

end Sound

end Session

/-- A lifecycle of any workload after any requests, whatever compilers, generators and routines make
of them.

* The steps that have succeeded lead to the stages up to the present one, in order. So at most one
  compilation or attachment has succeeded, and at most one of each other step.
* There is a routine from the first step up to the release. There are inputs and an output from the
  second step up to the release. Only where no buffer can hold the output, the inputs can be there
  before the second step, which then never succeeds.
* A call from another stage than that of its step is refused and changes nothing. One that fails
  changes neither the stage nor the routine. One that succeeds leads to the stage of its step.
* A release answers the bytes of all regions that there are, and afterwards there are none.
* A run is the calls of its steps in a row, up to the first that fails. -/
theorem after_requests [RandomSource] (w : Workload) (dump? : Option DumpTarget) (k : κ)
    (requests : List (Request κ)) :
    let s : Session κ Trial := requests.foldl .request ⟨k, .start (.ofWorkload w) dump?, []⟩
    let l := s.lifecycle
    s.passed.map Step.target = Stage.all.tail.take l.stage.rank ∧
    (s.passed.count .compile + s.passed.count .attach ≤ 1 ∧ s.passed.count .init ≤ 1 ∧
      s.passed.count .execute ≤ 1 ∧ s.passed.count .release ≤ 1) ∧
    (l.routine?.isSome ↔ l.stage ∈ [.compiled, .initialized, .executed]) ∧
    (l.bench.output?.isSome ↔ l.stage ∈ [.initialized, .executed]) ∧
    ((l.bench.inputs ≠ [] ↔ l.stage ∈ [.initialized, .executed]) ∨
      l.stage = .compiled ∧ ∃ n, w.output = .error (.noBuffer n)) ∧
    (∀ c : Call κ,
      (l.stage ≠ c.step.source ∧
        c.perform s.state l = (s.state, l, .error (.outOfOrder c.step l.stage))) ∨
      l.stage = c.step.source ∧ ∃ k' l',
        (∃ e, c.perform s.state l = (k', l', .error e) ∧ l'.stage = l.stage ∧
          l'.routine? = l.routine?) ∨
        ∃ reply, c.perform s.state l = (k', l', .ok reply) ∧ l'.stage = c.step.target) ∧
    (∀ l' released, l.release = (l', .ok released) →
      released.bytes = (l.bench.live.map View.footprint).sum ∧ l'.bench.live = []) ∧
    ∀ compiler : Compiler κ,
      let made := l.run compiler s.state
      let calls := s.calls (Session.stepsOf compiler)
      made.1 = calls.1.state ∧ made.2.1 = calls.1.lifecycle ∧
        made.2.2.map (some ∘ Reply.released) = calls.2.map List.getLast? := by
  intro s l
  have hsound : s.Sound w := Session.Sound.requests ⟨rfl, consistent_start w dump?⟩ requests
  obtain ⟨-, hroutine, houtput, hinputs⟩ := hsound.consistent
  refine ⟨hsound.forward, hsound.once, hroutine, houtput, hinputs,
    fun c => c.perform_cases l s.state, fun l' released hrelease => ?released,
    fun compiler => s.run_eq_calls compiler⟩
  case released =>
    rcases l.release_cases with ⟨-, heq⟩ | ⟨-, dumps, heq⟩
    · rw [heq] at hrelease
      cases hrelease
    · rw [heq] at hrelease
      cases hrelease
      exact ⟨l.bench.release_bytes, rfl⟩

/-- One element, which lasts so long that there are more windows than a buffer can hold. After the
second step has failed, the inputs are there at the first stage. -/
theorem inputs_left_without_buffer :
    let _ : RandomSource := KeyStream.source
    let w : Workload := ⟨.sum, 1, 4611686018427387904, 1, 4, 42⟩
    let idle : Routine := ⟨0, "idle", 1, fun _ _ _ out => (out, .ok ())⟩
    ∃ s : Session Unit Trial,
      [.call (.attach idle), .call .init].foldl Session.request
          ⟨(), .start (Trial.ofWorkload w) none, []⟩ = s ∧
      s.lifecycle.stage = .compiled ∧ s.lifecycle.bench.inputs ≠ [] ∧
      ¬ (s.lifecycle.bench.inputs ≠ [] ↔ s.lifecycle.stage ∈ [.initialized, .executed]) := by
  intro _ w idle
  have hadmitted : w.Admitted := ⟨by decide, by decide, by decide, by decide, by decide, by decide,
    nofun⟩
  obtain ⟨inputs, hinputs, -⟩ := hadmitted.inputs_ready (by decide) (by decide)
  have houtput : w.output = .error (.noBuffer w.outputLayout.2) := by
    have hfits : SpanLog.fits (slotCapacity w.outputLayout.2) = false := by decide
    simp only [Workload.output, PlainRegion.allocate?, hfits]
    rfl
  have hfailed : Benchmark.init (Trial.ofWorkload w) =
      (⟨w, inputs, none⟩, .error (.noBuffer w.outputLayout.2)) :=
    Trial.init_of_noBuffer hinputs houtput
  have hne := Workload.inputs_ne_nil hinputs
  -- With the numbers of `w` in sight, `rfl` would lay out the output.
  clear_value w
  have hlast : [.call (.attach idle), .call .init].foldl Session.request
      (⟨(), .start (Trial.ofWorkload w) none, []⟩ : Session Unit Trial) =
        ⟨(), ⟨⟨w, inputs, none⟩, .compiled, some idle, none⟩, [.attach]⟩ := by
    change Session.request ⟨(), ⟨Trial.ofWorkload w, .compiled, some idle, none⟩, [.attach]⟩
      (.call .init) = _
    simp only [Session.request, Session.call, Call.perform, Lifecycle.init, hfailed]
    rfl
  refine ⟨_, hlast, rfl, hne, ?_⟩
  simp [hne]

/-- A routine that divides by zero unless there is an element already. -/
def retried : Routine := ⟨0, "retried", 0, fun _ _ _ out =>
  if out.count = 0 then (out.record ⟨0, 1⟩ (.int 1), .error .divisionByZero) else (out, .ok ())⟩

/-- Eight requests of which half are refused or fail: a step that comes too early, a run whose
compiler finds no symbol, the first call of the routine, and a second release. -/
def eightRequests : List (Request Nat) :=
  [.call .init, .run fun _ k => (.error (.symbolNotFound "retried"), k + 1),
    .call (.attach retried), .call .init, .call .execute, .call .execute, .call .release,
    .call .release]

theorem foldl_eightRequests [RandomSource] {w : Workload} {inputs : List View} {out : PlainRegion}
    (hinputs : w.inputs = .ok inputs) (houtput : w.output = .ok out) (hempty : out.count = 0) :
    eightRequests.foldl Session.request ⟨0, .start (Trial.ofWorkload w) none, []⟩ =
      ⟨1, ⟨⟨w, [], none⟩, .released, none, none⟩, [.attach, .init, .execute, .release]⟩ := by
  have hmade : Benchmark.init (Trial.ofWorkload w) = (⟨w, inputs, some out⟩, .ok ()) :=
    Trial.init_of_ok hinputs houtput
  have hinit : (⟨1, ⟨.ofWorkload w, .compiled, some retried, none⟩, [.attach]⟩ :
      Session Nat Trial).request (.call .init) =
        ⟨1, ⟨⟨w, inputs, some out⟩, .initialized, some retried, none⟩, [.attach, .init]⟩ := by
    simp only [Session.request, Session.call, Call.perform, Lifecycle.init, hmade]
    rfl
  -- The routine has written its element before it divides, so the next call finds it and succeeds.
  have hdivided : (⟨1, ⟨⟨w, inputs, some out⟩, .initialized, some retried, none⟩,
      [.attach, .init]⟩ : Session Nat Trial).request (.call .execute) =
        ⟨1, ⟨⟨w, inputs, some (out.record ⟨0, 1⟩ (.int 1))⟩, .initialized, some retried, none⟩,
          [.attach, .init]⟩ := by
    have hcall : retried.call inputs 0 w.endTime out =
        (out.record ⟨0, 1⟩ (.int 1), .error .divisionByZero) := by
      simp [Routine.call, retried, hempty]
    have htrial : Benchmark.execute retried (⟨w, inputs, some out⟩ : Trial) =
        (⟨w, inputs, some (out.record ⟨0, 1⟩ (.int 1))⟩, .error (.exec .divisionByZero)) := by
      simp only [Benchmark.execute, Trial.execute, hcall]
      rfl
    simp only [Session.request, Session.call, Call.perform, Lifecycle.execute, allows, Step.source,
      ↓reduceIte, htrial]
    rfl
  let started : Session Nat Trial := ⟨0, .start (.ofWorkload w) none, []⟩
  have hrefused : started.request (.call .init) = started := rfl
  have hfailed : started.request
      (.run fun _ k => (.error (.symbolNotFound "retried"), k + 1)) =
        { started with state := 1 } := rfl
  have hattached : { started with state := 1 }.request (.call (.attach retried)) =
      ⟨1, ⟨.ofWorkload w, .compiled, some retried, none⟩, [.attach]⟩ := rfl
  simp only [eightRequests, List.foldl_cons, List.foldl_nil, started]
    at hrefused hfailed hattached ⊢
  rw [hrefused, hfailed, hattached, hinit, hdivided]
  rfl

/-- Of the eight requests, four have succeeded, one step each, and a further release is refused. -/
theorem after_requests_of_eight :
    let _ : RandomSource := KeyStream.source
    let w : Workload := ⟨.filter, 4, 3, 6, 64, 8⟩
    ∃ s : Session Nat Trial,
      eightRequests.foldl Session.request ⟨0, .start (.ofWorkload w) none, []⟩ = s ∧
      s.state = 1 ∧ s.passed = [.attach, .init, .execute, .release] ∧
      s.lifecycle.stage = .released ∧ s.lifecycle.routine? = none ∧
      s.lifecycle.bench.inputs = [] ∧
      s.lifecycle.release.2 = .error (.outOfOrder .release .released) := by
  intro _ w
  have hadmitted : w.Admitted := ⟨by decide, by decide, by decide, by decide, by decide, by decide,
    nofun⟩
  obtain ⟨inputs, hinputs, -⟩ := hadmitted.inputs_ready (by decide) (by decide)
  obtain ⟨out, houtput, hempty⟩ : ∃ out, w.output = .ok out ∧ out.count = 0 := by
    have hfits : SpanLog.fits (slotCapacity w.outputLayout.2) = true := by decide
    simp only [Workload.output, PlainRegion.allocate?, hfits, ↓reduceIte]
    exact ⟨_, rfl, rfl⟩
  have hlast := foldl_eightRequests hinputs houtput hempty
  obtain ⟨-, -, -, -, -, hcalls, -⟩ := after_requests w none 0 eightRequests
  rw [hlast] at hcalls
  refine ⟨_, hlast, rfl, rfl, rfl, rfl, rfl, ?_⟩
  rcases hcalls .release with ⟨-, heq⟩ | ⟨hsource, -⟩
  · have hanswer := congrArg (·.2.2) heq
    simp only [Call.perform, Call.step] at hanswer
    exact eq_error_of_map hanswer
  · cases hsource

end Lifecycle

end StreamGauge
