import StreamGauge.Bench.Fleet
import StreamGauge.Proofs.Bench.Lifecycle

/-!
# Fleets in any order of finishing

The instances of a fleet finish a phase in any order. `Fleet.run_of_complete`: a run does not depend
on it. It leaves every instance as if it had been alone, and the failure that it answers is that of
the lowest number.

`Phase.Finished` says what a phase has done once some of the instances have finished. Another
instance keeps it so (`Finished.finish`), and therefore any order in which every instance comes once
leads to the same instances and the same failure (`Phase.run_of_perm`). What the whole run does is
then put together from what the steps do to one instance (`Lifecycle.attached`, `Lifecycle.inited`,
`Lifecycle.executed`, `Lifecycle.freed`).
-/

namespace StreamGauge

variable {β κ : Type}

/-- The first failure in a list of outcomes. -/
def firstError? (outcomes : List (Except BenchError Unit)) : Option BenchError :=
  outcomes.findSome? fun
    | .error e => some e
    | .ok () => none

theorem firstError?_eq_none {outcomes : List (Except BenchError Unit)} :
    firstError? outcomes = none ↔ ∀ o ∈ outcomes, o = .ok () := by
  rw [firstError?, List.findSome?_eq_none_iff]
  refine forall₂_congr fun o _ => ?_
  rcases o with e | u
  · simp
  · simp

/-- Everything before the first failure has succeeded. -/
theorem exists_of_firstError? {outcomes : List (Except BenchError Unit)} {e : BenchError}
    (h : firstError? outcomes = some e) :
    ∃ i : Nat, outcomes[i]? = some (.error e) ∧ ∀ j < i, outcomes[j]? = some (.ok ()) := by
  obtain ⟨before, o, after, rfl, ho, hbefore⟩ := List.findSome?_eq_some_iff.mp h
  have herror : o = .error e := by
    rcases o with e' | u
    · rw [Option.some.inj ho]
    · cases ho
  refine ⟨before.length, by simp [herror], fun j hj => ?_⟩
  rw [List.getElem?_append_left hj, List.getElem?_eq_getElem hj]
  have hnone := hbefore _ (List.getElem_mem hj)
  rcases heq : before[j] with e' | u
  · rw [heq] at hnone
    cases hnone
  · rfl

/-! ## A phase -/

namespace Phase

variable {step : Lifecycle β → Lifecycle β × Except BenchError Unit}
  {instances : List (Lifecycle β)} {order : List Nat} {p : Phase β}

/-- The instances of some numbers have taken their steps, and their failures are noted. -/
structure Finished (step : Lifecycle β → Lifecycle β × Except BenchError Unit)
    (instances : List (Lifecycle β)) (order : List Nat) (p : Phase β) : Prop where
  getElem? : ∀ i, p.instances[i]? =
    if i ∈ order then instances[i]?.map fun l => (step l).1 else instances[i]?
  mem_failures : ∀ i e, (i, e) ∈ p.failures ↔
    i ∈ order ∧ ∃ l, instances[i]? = some l ∧ (step l).2 = .error e

namespace Finished

theorem start : Finished step instances [] ⟨instances, []⟩ := ⟨by simp, by simp⟩

/-- One more instance finishes. -/
theorem finish (h : Finished step instances order p) {i : Nat} (hi : i ∉ order) :
    Finished step instances (order ++ [i]) (p.finish step i) := by
  have hget : p.instances[i]? = instances[i]? := by rw [h.getElem?, if_neg hi]
  unfold Phase.finish
  rw [hget]
  cases hl : instances[i]? with
  | none =>
    -- There is no such instance, so nothing is done.
    refine ⟨fun j => ?_, fun j e => ?_⟩
    · rw [h.getElem?]
      by_cases hj : j = i
      · simp [hj, hl]
      · simp [hj]
    · rw [h.mem_failures]
      by_cases hj : j = i
      · simp [hj, hl]
      · simp [hj]
  | some l =>
    have hlength : i < p.instances.length := by
      rw [hl] at hget
      exact (List.getElem?_eq_some_iff.mp hget).1
    have hset : ∀ j, (p.instances.set i (step l).1)[j]? =
        if j ∈ order ++ [i] then instances[j]?.map fun l => (step l).1 else instances[j]? := by
      intro j
      by_cases hj : j = i
      · subst hj
        simp [hl, hlength]
      · rw [List.getElem?_set_ne (Ne.symm hj), h.getElem?]
        simp [hj]
    rcases hstep : step l with ⟨l', e | u⟩
    · simp only [hstep] at hset ⊢
      refine ⟨hset, fun j e' => ?_⟩
      rw [List.mem_cons, h.mem_failures]
      by_cases hj : j = i
      · simp [hj, hl, hi, hstep, eq_comm]
      · simp [hj]
    · simp only [hstep] at hset ⊢
      refine ⟨hset, fun j e' => ?_⟩
      rw [h.mem_failures]
      by_cases hj : j = i
      · simp [hj, hl, hi, hstep]
      · simp [hj]

/-- Further instances finish, each of them once. -/
theorem foldl {done : List Nat} (h : Finished step instances done p) {order : List Nat}
    (hnodup : (done ++ order).Nodup) :
    Finished step instances (done ++ order) (order.foldl (Phase.finish step) p) := by
  -- On the numbers that are left; those of `done` have finished.
  induction order generalizing done p with
  | nil =>
    rw [List.append_nil]
    exact h
  | cons i order ih =>
    have hi : i ∉ done := by
      intro hmem
      exact (List.nodup_append.mp hnodup).2.2 i hmem i List.mem_cons_self rfl
    rw [List.append_cons] at hnodup ⊢
    exact ih (h.finish hi) hnodup

end Finished

/-- Of several failures, one of the lowest number remains. -/
theorem foldl_lower (f : Nat × BenchError) (fs : List (Nat × BenchError)) :
    fs.foldl lower f ∈ f :: fs ∧ ∀ g ∈ f :: fs, (fs.foldl lower f).1 ≤ g.1 := by
  induction fs generalizing f with
  | nil => simp
  | cons g fs ih =>
    obtain ⟨hmem, hle⟩ := ih (lower f g)
    have hlower : lower f g = f ∨ lower f g = g := by
      unfold lower
      split
      · exact .inr rfl
      · exact .inl rfl
    have hboth : (lower f g).1 ≤ f.1 ∧ (lower f g).1 ≤ g.1 := by
      unfold lower
      split <;> omega
    have hfirst := hle _ List.mem_cons_self
    rw [List.foldl_cons]
    refine ⟨?_, fun g' hg' => ?_⟩
    · rcases List.mem_cons.mp hmem with heq | hmem
      · rw [heq]
        rcases hlower with heq | heq <;> simp [heq]
      · simp [hmem]
    · rcases List.mem_cons.mp hg' with rfl | hg'
      · omega
      rcases List.mem_cons.mp hg' with rfl | hg'
      · omega
      · exact hle _ (List.mem_cons_of_mem _ hg')

/-- When all instances have finished, the phase answers the first failure by number. -/
theorem Finished.failure?_eq (h : Finished step instances order p)
    (hall : ∀ i < instances.length, i ∈ order) :
    p.failure? = firstError? (instances.map fun l => (step l).2) := by
  unfold Phase.failure?
  cases hfirst : firstError? (instances.map fun l => (step l).2) with
  | none =>
    have hok := firstError?_eq_none.mp hfirst
    cases hfailures : p.failures with
    | nil => rfl
    | cons f fs =>
      obtain ⟨-, l, hl, herror⟩ := (h.mem_failures f.1 f.2).mp (hfailures ▸ List.mem_cons_self)
      have := hok _ (List.mem_map_of_mem (List.mem_of_getElem? hl))
      rw [herror] at this
      cases this
  | some e =>
    obtain ⟨i, hi, hbefore⟩ := exists_of_firstError? hfirst
    rw [List.getElem?_map] at hi
    obtain ⟨l, hl, herror⟩ := Option.map_eq_some_iff.mp hi
    have hmem : (i, e) ∈ p.failures :=
      (h.mem_failures i e).mpr ⟨hall i (List.getElem?_eq_some_iff.mp hl).1, l, hl, herror⟩
    -- No failure has a lower number, and there is one failure of each number at most.
    have hlowest : ∀ g ∈ p.failures, g.1 ≤ i → g.2 = e := by
      intro g hg hle
      obtain ⟨-, l', hl', herror'⟩ := (h.mem_failures g.1 g.2).mp hg
      rcases Nat.lt_or_eq_of_le hle with hlt | heq
      · have hok := hbefore _ hlt
        rw [List.getElem?_map, hl', Option.map_some, herror'] at hok
        cases hok
      · rw [heq, hl] at hl'
        cases hl'
        rw [herror] at herror'
        exact (Except.error.inj herror').symm
    cases hfailures : p.failures with
    | nil =>
      rw [hfailures] at hmem
      cases hmem
    | cons f fs =>
      rw [hfailures] at hmem hlowest
      obtain ⟨hlast, hle⟩ := foldl_lower f fs
      exact congrArg some (hlowest _ hlast (hle _ hmem))

variable (step) in
/-- In whatever order the instances finish, all of them have taken their step, and the failure is
the first by number. -/
theorem run_of_perm (h : order.Perm (List.range instances.length)) :
    (run step order instances).instances = instances.map (fun l => (step l).1) ∧
      (run step order instances).failure? = firstError? (instances.map fun l => (step l).2) := by
  have hall : ∀ i < instances.length, i ∈ order := by
    intro i hi
    rw [h.mem_iff]
    exact List.mem_range.mpr hi
  have hfinished : Finished step instances order (run step order instances) :=
    Finished.start.foldl (h.nodup_iff.mpr List.nodup_range)
  refine ⟨?_, hfinished.failure?_eq hall⟩
  apply List.ext_getElem?
  intro i
  rw [hfinished.getElem?, List.getElem?_map]
  by_cases hi : i < instances.length
  · rw [if_pos (hall i hi)]
  · simp [List.getElem?_eq_none (Nat.le_of_not_lt hi)]

end Phase

/-! ## One instance -/

namespace Lifecycle

variable (r : Routine) (l : Lifecycle β)

/-- An instance that has the routine of its fleet. -/
def attached : Lifecycle β := { l with stage := .compiled, routine? := some r }

/-- What becomes of an instance whose benchmark has tried to reach a stage. If it failed, the
instance stays where it was. -/
def settled (target : Stage) (l : Lifecycle β) : β × Except BenchError Unit → Lifecycle β
  | (bench, .ok ()) => { l with bench := bench, stage := target }
  | (bench, .error _) => { l with bench := bench }

section Settled

variable (target : Stage) (outcome : β × Except BenchError Unit)

@[simp] theorem settled_bench : (l.settled target outcome).bench = outcome.1 := by
  rcases outcome with ⟨bench, e | u⟩ <;> rfl

@[simp] theorem settled_routine? : (l.settled target outcome).routine? = l.routine? := by
  rcases outcome with ⟨bench, e | u⟩ <;> rfl

@[simp] theorem settled_dump? : (l.settled target outcome).dump? = l.dump? := by
  rcases outcome with ⟨bench, e | u⟩ <;> rfl

variable {outcome} in
theorem settled_stage (h : outcome.2 = .ok ()) : (l.settled target outcome).stage = target := by
  rcases outcome with ⟨bench, e | u⟩
  · cases h
  · rfl

end Settled

theorem attach_of_uninitialized {l : Lifecycle β} (h : l.stage = .uninitialized) :
    l.attach r = (l.attached r, .ok ()) := by
  rcases l.attach_cases r with ⟨hstage, -⟩ | ⟨-, heq⟩
  · exact absurd h hstage
  · exact heq

variable [Benchmark β]

/-- What the benchmark makes of its regions. -/
def made : β × Except BenchError Unit := Benchmark.init l.bench

/-- What the routine makes of the regions. -/
def called : β × Except BenchError Unit := Benchmark.execute r l.made.1

/-- An instance that has tried to make its regions. -/
def inited : Lifecycle β := (l.attached r).settled .initialized l.made

/-- An instance that has tried to run the routine too. -/
def executed : Lifecycle β := (l.inited r).settled .executed (l.called r)

/-- What the instance gives up in the end. -/
def given : Release :=
  let bench := (l.called r).1
  ⟨(Benchmark.release bench).2, l.dump?.toList.flatMap (·.files (Benchmark.regions bench))⟩

/-- An instance that has given up its regions. -/
def freed : Lifecycle β := ⟨(Benchmark.release (l.called r).1).1, .released, none, l.dump?⟩

theorem compile_of_uninitialized {compiler : Compiler κ} {k k' : κ} {l : Lifecycle β}
    (hstage : l.stage = .uninitialized) {answer : Except CompileError Routine}
    (h : compiler (Benchmark.query l.bench) k = (answer, k')) :
    l.compile compiler k = (k', match answer with
      | .error e => (l, .error (.compile e))
      | .ok r => (l.attached r, .ok r)) := by
  rcases l.compile_cases compiler k with
    ⟨hother, -⟩ | ⟨-, k₁, ⟨e, hmade, heq⟩ | ⟨r, hmade, heq⟩⟩
  · exact absurd hstage hother
  · rw [h] at hmade
    cases hmade
    exact heq
  · rw [h] at hmade
    cases hmade
    exact heq

theorem init_attached : (l.attached r).init = (l.inited r, l.made.2) := by
  rcases (l.attached r).init_cases with ⟨hstage, -⟩ | ⟨-, bench, ⟨e, hmade, heq⟩ | ⟨hmade, heq⟩⟩
  · exact absurd rfl hstage
  · change l.made = _ at hmade
    rw [heq, inited, hmade]
    rfl
  · change l.made = _ at hmade
    rw [heq, inited, hmade]
    rfl

theorem execute_inited {l : Lifecycle β} (h : l.made.2 = .ok ()) :
    (l.inited r).execute = (l.executed r, (l.called r).2) := by
  have hinitialized : (l.inited r).stage = .initialized := settled_stage _ _ h
  have hroutine : (l.inited r).routine? = some r := settled_routine? ..
  have hbench : (l.inited r).bench = l.made.1 := settled_bench ..
  rcases (l.inited r).execute_cases with
    ⟨hstage, -⟩ | ⟨-, ⟨hnone, -⟩ | ⟨r', bench, hsome, hmade⟩⟩
  · exact absurd hinitialized hstage
  · rw [hroutine] at hnone
    cases hnone
  rw [hroutine] at hsome
  cases hsome
  rw [hbench] at hmade
  rcases hmade with ⟨e, hcalled, heq⟩ | ⟨hcalled, heq⟩
  · change l.called r = _ at hcalled
    rw [heq, executed, hcalled]
    rfl
  · change l.called r = _ at hcalled
    rw [heq, executed, hcalled]
    rfl

/-- Where the dumps go is of no concern before the release. -/
theorem executed_dump (dump? : Option DumpTarget) :
    executed r { l with dump? := dump? } = { l.executed r with dump? := dump? } := by
  unfold executed inited
  change settled _ (settled _ _ l.made) (l.called r) = _
  rcases l.made with ⟨bench, e | u⟩
  · rcases l.called r with ⟨bench', e' | u'⟩ <;> rfl
  · rcases l.called r with ⟨bench', e' | u'⟩ <;> rfl

theorem prepare_of_uninitialized {compiler : Compiler κ} {k k' : κ} {l : Lifecycle β}
    (hstage : l.stage = .uninitialized)
    (h : compiler (Benchmark.query l.bench) k = (.ok r, k')) :
    l.prepare compiler k = (k', l.inited r, l.made.2) := by
  simp only [prepare, compile_of_uninitialized hstage h, init_attached]

theorem release_executed {l : Lifecycle β} (h : (l.called r).2 = .ok ()) :
    (l.executed r).release = (l.freed r, .ok (l.given r)) := by
  have hexecuted : (l.executed r).stage = .executed := settled_stage _ _ h
  have hbench : (l.executed r).bench = (l.called r).1 := settled_bench ..
  have hdump : (l.executed r).dump? = l.dump? := by
    simp [executed, inited, attached]
  unfold release
  rcases (l.executed r).allows_cases .release with ⟨hstage, -⟩ | ⟨-, hallows⟩
  · exact absurd hexecuted hstage
  · rw [hallows, hbench, hdump]
    rfl

end Lifecycle

/-! ## The whole fleet -/

/-- Every instance finishes each phase once. -/
structure Schedule.Complete (s : Schedule) (n : Nat) : Prop where
  init : s.init.Perm (List.range n)
  execute : s.execute.Perm (List.range n)

theorem Schedule.complete_byNumber (n : Nat) : (byNumber n).Complete n := ⟨.refl _, .refl _⟩

namespace Fleet

variable {r : Routine} {instances : List (Lifecycle β)} {order : List Nat}

/-- How a phase ends. -/
def ended (outcomes : List (Except BenchError Unit)) : Except BenchError Unit :=
  match firstError? outcomes with
  | some e => .error e
  | none => .ok ()

theorem ended_eq_ok {outcomes : List (Except BenchError Unit)} :
    ended outcomes = .ok () ↔ ∀ o ∈ outcomes, o = .ok () := by
  rw [← firstError?_eq_none, ended]
  cases firstError? outcomes with
  | some e => simp
  | none => simp

theorem phase_of_perm {step : Lifecycle β → Lifecycle β × Except BenchError Unit}
    (h : order.Perm (List.range instances.length)) :
    (⟨instances⟩ : Fleet β).phase step order =
      (⟨instances.map fun l => (step l).1⟩, ended (instances.map fun l => (step l).2)) := by
  obtain ⟨hinstances, hfailure⟩ := Phase.run_of_perm step h
  simp only [phase, hinstances, hfailure]
  rfl

theorem attachAll_of_uninitialized (h : ∀ l ∈ instances, l.stage = .uninitialized) :
    attachAll r instances = (instances.map (·.attached r), .ok ()) := by
  induction instances with
  | nil => rfl
  | cons l instances ih =>
    have hl := Lifecycle.attach_of_uninitialized r (h l List.mem_cons_self)
    have hrest := ih fun l' hl' => h l' (List.mem_cons_of_mem _ hl')
    simp only [attachAll, hl, hrest, List.map_cons]

variable [Benchmark β]

theorem releaseAll_of_executed (h : ∀ l ∈ instances, (l.called r).2 = .ok ()) :
    releaseAll (instances.map (·.executed r)) =
      (instances.map (·.freed r), .ok (instances.map (·.given r))) := by
  induction instances with
  | nil => rfl
  | cons l instances ih =>
    have hl := Lifecycle.release_executed r (h l List.mem_cons_self)
    have hrest := ih fun l' hl' => h l' (List.mem_cons_of_mem _ hl')
    simp only [List.map_cons, releaseAll, hl, hrest]
    rfl

/-! ### The phases of a run -/

theorem init_of_perm (h : order.Perm (List.range instances.length)) :
    (⟨instances.map (·.attached r)⟩ : Fleet β).phase Lifecycle.init order =
      (⟨instances.map (·.inited r)⟩, ended (instances.map (·.made.2))) := by
  rw [phase_of_perm (by rwa [List.length_map]), List.map_map, List.map_map]
  simp only [Function.comp_def, Lifecycle.init_attached]

theorem execute_of_perm (h : order.Perm (List.range instances.length))
    (hmade : ∀ l ∈ instances, l.made.2 = .ok ()) :
    (⟨instances.map (·.inited r)⟩ : Fleet β).execute order =
      (⟨instances.map (·.executed r)⟩, ended (instances.map fun l => (l.called r).2)) := by
  have hone : ∀ l ∈ instances, (l.inited r).execute = (l.executed r, (l.called r).2) :=
    fun l hl => Lifecycle.execute_inited r (hmade l hl)
  rw [execute, phase_of_perm (by rwa [List.length_map]), List.map_map, List.map_map]
  congr 2
  · exact List.map_congr_left fun l hl => congrArg Prod.fst (hone l hl)
  · exact List.map_congr_left fun l hl => congrArg Prod.snd (hone l hl)

section Run

variable {compiler : Compiler κ} {k k' : κ} {first : Lifecycle β} {rest : List (Lifecycle β)}
  (hfresh : ∀ l ∈ first :: rest, l.stage = .uninitialized)

include hfresh

theorem compile_of_error {e : CompileError}
    (h : compiler (Benchmark.query first.bench) k = (.error e, k')) :
    (⟨first :: rest⟩ : Fleet β).compile compiler k =
      (k', ⟨first :: rest⟩, .error (.compile e)) := by
  have hfirst := hfresh first List.mem_cons_self
  simp only [compile, Lifecycle.compile_of_uninitialized hfirst h]

theorem compile_of_ok (h : compiler (Benchmark.query first.bench) k = (.ok r, k')) :
    (⟨first :: rest⟩ : Fleet β).compile compiler k =
      (k', ⟨(first :: rest).map (·.attached r)⟩, .ok ()) := by
  have hfirst := hfresh first List.mem_cons_self
  have hrest : attachAll r rest = (rest.map (·.attached r), .ok ()) :=
    attachAll_of_uninitialized fun l hl => hfresh l (List.mem_cons_of_mem _ hl)
  simp only [compile, Lifecycle.compile_of_uninitialized hfirst h, hrest, List.map_cons]

theorem prepare_of_ok (h : compiler (Benchmark.query first.bench) k = (.ok r, k'))
    (horder : order.Perm (List.range (first :: rest).length)) :
    (⟨first :: rest⟩ : Fleet β).prepare compiler order k =
      (k', ⟨(first :: rest).map (·.inited r)⟩, ended ((first :: rest).map (·.made.2))) := by
  simp only [prepare, compile_of_ok hfresh h, init_of_perm horder]

variable {schedule : Schedule} (hcomplete : schedule.Complete (first :: rest).length)

theorem run_of_compileError {e : CompileError}
    (h : compiler (Benchmark.query first.bench) k = (.error e, k')) :
    (⟨first :: rest⟩ : Fleet β).run compiler schedule k =
      (k', ⟨first :: rest⟩, .error (.compile e)) := by
  simp only [run, prepare, compile_of_error hfresh h]

include hcomplete

theorem run_of_initError (h : compiler (Benchmark.query first.bench) k = (.ok r, k'))
    {e : BenchError} (hinit : firstError? ((first :: rest).map (·.made.2)) = some e) :
    (⟨first :: rest⟩ : Fleet β).run compiler schedule k =
      (k', ⟨(first :: rest).map (·.inited r)⟩, .error e) := by
  simp only [run, prepare_of_ok hfresh h hcomplete.init, ended, hinit]

theorem run_of_inited (h : compiler (Benchmark.query first.bench) k = (.ok r, k'))
    (hinit : firstError? ((first :: rest).map (·.made.2)) = none) :
    (⟨first :: rest⟩ : Fleet β).run compiler schedule k =
      match firstError? ((first :: rest).map fun l => (l.called r).2) with
      | some e => (k', ⟨(first :: rest).map (·.executed r)⟩, .error e)
      | none => (k', ⟨(first :: rest).map (·.freed r)⟩, .ok ((first :: rest).map (·.given r))) := by
  have hmade : ∀ l ∈ first :: rest, l.made.2 = .ok () := fun l hl =>
    firstError?_eq_none.mp hinit _ (List.mem_map_of_mem hl)
  have hprepare := prepare_of_ok hfresh h hcomplete.init
  have hexecute := execute_of_perm (r := r) hcomplete.execute hmade
  rw [ended, hinit] at hprepare
  simp only [run, hprepare, hexecute, ended]
  cases hcalled : firstError? ((first :: rest).map fun l => (l.called r).2) with
  | some e => rfl
  | none =>
    have hone : ∀ l ∈ first :: rest, (l.called r).2 = .ok () := fun l hl =>
      firstError?_eq_none.mp hcalled _ (List.mem_map_of_mem (f := fun l => (l.called r).2) hl)
    simp only [release, releaseAll_of_executed hone]

end Run

/-! ### The fleet of some settings -/

section Settings

variable {s : Settings} {g : Fleet Trial}

/-- Everything is made that is to be made. -/
theorem map_eq_of_mapM {ε α γ : Type} {make : α → Except ε γ} {xs : List α} {ys : List γ}
    (h : xs.mapM make = .ok ys) : xs.map make = ys.map .ok := by
  induction xs generalizing ys with
  | nil =>
    cases h
    rfl
  | cons x xs ih =>
    rw [List.mapM_cons] at h
    obtain ⟨y, hy, h⟩ := eq_ok_of_bind h
    obtain ⟨ys', hys, h⟩ := eq_ok_of_bind h
    cases h
    rw [List.map_cons, List.map_cons, hy, ih hys]

/-- The instances are those of the settings, by number. -/
theorem instances_of_settings (h : ofSettings s = .ok g) :
    g.size = s.threads.toNat ∧ ∀ i < g.size, ∃ t dump?,
      Trial.ofSettings s i = .ok t ∧ g.instances[i]? = some (.start t dump?) := by
  unfold ofSettings at h
  cases hmade : (List.range s.threads.toNat).mapM (instanceOf s) with
  | error e =>
    rw [hmade] at h
    cases h
  | ok instances =>
    have hg : g = ⟨instances⟩ := by
      simp only [hmade, ofList] at h
      split at h
      · cases h
      · cases h
        rfl
    subst hg
    have hall := map_eq_of_mapM hmade
    have hsize : instances.length = s.threads.toNat := by
      simpa using (congrArg List.length hall).symm
    refine ⟨hsize, fun i hi => ?_⟩
    have hone : (some i).map (instanceOf s) = instances[i]?.map .ok := by
      rw [← List.getElem?_map, ← hall, List.getElem?_map, List.getElem?_range (hsize ▸ hi)]
    obtain ⟨l, hl, hinstance⟩ := Option.map_eq_some_iff.mp hone.symm
    obtain ⟨t, ht, heq⟩ := eq_ok_of_map hinstance.symm
    exact ⟨t, _, ht, by rw [hl, ← heq]⟩

/-- The instances differ in their seeds, which no query depends on. -/
theorem query_of_settings {i j : Nat} {t t' : Trial} (h : Trial.ofSettings s i = .ok t)
    (h' : Trial.ofSettings s j = .ok t') : t.workload.query = t'.workload.query := by
  obtain ⟨w, hw, rfl⟩ := eq_ok_of_map h
  obtain ⟨w', hw', rfl⟩ := eq_ok_of_map h'
  unfold Workload.ofSettings at hw hw'
  cases hcheck : s.check with
  | error e =>
    rw [hcheck] at hw
    cases hw
  | ok u =>
    rw [hcheck] at hw hw'
    cases hw
    cases hw'
    rfl

/-- Once all instances of the settings are ready, each of them executes as if it were alone. -/
theorem execute_alone [RandomSource] {compiler : Compiler κ} {k k' : κ} {schedule : Schedule}
    {g' : Fleet Trial}
    (h : ofSettings s = .ok g) (hcomplete : schedule.Complete g.size)
    (hprepare : g.prepare compiler schedule.init k = (k', g', .ok ())) {i : Nat} (hi : i < g.size) :
    ∃ t l dump?, Trial.ofSettings s i = .ok t ∧
      (Lifecycle.start t none).prepare compiler k = (k', l, .ok ()) ∧
      (g'.execute schedule.execute).1.instances[i]? =
        some { l.execute.1 with dump? := dump? } := by
  obtain ⟨-, hall⟩ := instances_of_settings h
  obtain ⟨instances⟩ := g
  have hfresh : ∀ l ∈ instances, l.stage = .uninitialized := by
    intro l hl
    obtain ⟨j, hj⟩ := List.mem_iff_getElem?.mp hl
    obtain ⟨t, dump?, -, hget⟩ := hall j (List.getElem?_eq_some_iff.mp hj).1
    rw [hget] at hj
    cases hj
    rfl
  cases instances with
  | nil => cases hi
  | cons first rest =>
    obtain ⟨t, dump?, ht, hget⟩ := hall i hi
    obtain ⟨t₀, dump₀?, ht₀, hget₀⟩ := hall 0 (Nat.zero_lt_succ _)
    rw [List.getElem?_cons_zero] at hget₀
    obtain rfl := Option.some.inj hget₀
    rcases hmade : compiler t₀.workload.query k with ⟨e | r, k₁⟩
    · -- The fleet would not be ready.
      rw [prepare, compile_of_error hfresh hmade] at hprepare
      cases hprepare
    · rw [prepare_of_ok hfresh hmade hcomplete.init] at hprepare
      obtain ⟨rfl, rfl, hended⟩ : k₁ = k' ∧ _ = g' ∧ _ = Except.ok () := by
        simpa only [Prod.mk.injEq] using hprepare
      have hready : ∀ l ∈ Lifecycle.start t₀ dump₀? :: rest, l.made.2 = .ok () := fun l hl =>
        ended_eq_ok.mp hended _ (List.mem_map_of_mem hl)
      have hone : t.init.2 = .ok () := hready _ (List.mem_of_getElem? hget)
      -- The compiler is asked for the query of the first instance, which is that of every other.
      have hquery : compiler (Benchmark.query t) k = (.ok r, k₁) := by
        rw [← hmade, ← query_of_settings ht ht₀]
        rfl
      have hlone : (Lifecycle.start t none).prepare compiler k =
          (k₁, (Lifecycle.start t none).inited r, .ok ()) := by
        rw [Lifecycle.prepare_of_uninitialized r rfl hquery, ← hone]
        rfl
      refine ⟨t, _, dump?, ht, hlone, ?_⟩
      rw [execute_of_perm hcomplete.execute hready, List.getElem?_map, hget, Option.map_some,
        Lifecycle.execute_inited r (l := .start t none) hone]
      exact congrArg some (Lifecycle.executed_dump r (.start t none) dump?)

end Settings

/-! ### Runs -/

/-- A run of any benchmarks that are before their first step, with any compiler, however they finish
their phases.

* The order of finishing does not matter.
* The first query is compiled, once. If that fails, nothing else is done.
* All instances get the routine, and each initializes its benchmark, once. If any fails, the failure
  of the lowest number is answered, and none is executed. Those that failed stay compiled.
* Otherwise each executes, once. If any fails, the failure of the lowest number is answered, and
  none is released. Those that failed stay initialized.
* Otherwise each is released.
* The instances of some settings execute as if each were alone with the compiler. -/
theorem run_of_complete [RandomSource] (compiler : Compiler κ) (k : κ) {first : Lifecycle β}
    {rest : List (Lifecycle β)} (hfresh : ∀ l ∈ first :: rest, l.stage = .uninitialized)
    {schedule : Schedule} (hcomplete : schedule.Complete (first :: rest).length) :
    let f : Fleet β := ⟨first :: rest⟩
    let compiled := compiler (Benchmark.query first.bench) k
    f.run compiler schedule k = f.run compiler (.byNumber f.size) k ∧
    (∀ e, compiled.1 = .error e →
      f.run compiler schedule k = (compiled.2, f, .error (.compile e))) ∧
    (∀ r, compiled.1 = .ok r →
      let inits := f.instances.map fun l => l.made.2
      let executions := f.instances.map fun l => (l.called r).2
      (∀ e, firstError? inits = some e → f.run compiler schedule k =
        (compiled.2, ⟨f.instances.map fun l => l.inited r⟩, .error e)) ∧
      (firstError? inits = none →
        (∀ e, firstError? executions = some e → f.run compiler schedule k =
          (compiled.2, ⟨f.instances.map fun l => l.executed r⟩, .error e)) ∧
        (firstError? executions = none → f.run compiler schedule k =
          (compiled.2, ⟨f.instances.map fun l => l.freed r⟩,
            .ok (f.instances.map fun l => l.given r))))) ∧
    ∀ (s : Settings) (g g' : Fleet Trial) (k' : κ) (order : Schedule), ofSettings s = .ok g →
      order.Complete g.size → g.prepare compiler order.init k = (k', g', .ok ()) →
      g.size = s.threads.toNat ∧ ∀ i < g.size, ∃ t l dump?, Trial.ofSettings s i = .ok t ∧
        (Lifecycle.start t none).prepare compiler k = (k', l, .ok ()) ∧
        (g'.execute order.execute).1.instances[i]? = some { l.execute.1 with dump? := dump? } := by
  intro f compiled
  have hnumbers : (Schedule.byNumber f.size).Complete (first :: rest).length :=
    Schedule.complete_byNumber _
  refine ⟨?order, ?error, ?ok, fun s g g' k' order h hall hprepare =>
    ⟨(instances_of_settings h).1, fun i hi => execute_alone h hall hprepare hi⟩⟩
  -- What a run comes to mentions no schedule, so any two complete ones agree.
  case order =>
    rcases hmade : compiler (Benchmark.query first.bench) k with ⟨e | r, k'⟩
    · rw [run_of_compileError hfresh hmade, run_of_compileError hfresh hmade]
    cases hinit : firstError? ((first :: rest).map (·.made.2)) with
    | some e =>
      rw [run_of_initError hfresh hcomplete hmade hinit,
        run_of_initError hfresh hnumbers hmade hinit]
    | none => rw [run_of_inited hfresh hcomplete hmade hinit,
        run_of_inited hfresh hnumbers hmade hinit]
  case error =>
    intro e he
    exact run_of_compileError hfresh (Prod.ext he rfl)
  case ok =>
    intro r hr inits executions
    have hmade : compiler (Benchmark.query first.bench) k = (.ok r, compiled.2) := Prod.ext hr rfl
    refine ⟨fun e he => run_of_initError hfresh hcomplete hmade he, fun hinit => ?_⟩
    have hrun := run_of_inited hfresh hcomplete hmade hinit
    refine ⟨fun e he => ?_, fun hnone => ?_⟩
    · change firstError? ((first :: rest).map fun l => (l.called r).2) = _ at he
      rw [he] at hrun
      exact hrun
    · change firstError? ((first :: rest).map fun l => (l.called r).2) = _ at hnone
      rw [hnone] at hrun
      exact hrun

end Fleet

/-- A benchmark without regions that notes its calls, and fails if it is told to. -/
structure Probe where
  calls : List Step
  init? : Option BenchError
  execute? : Option BenchError

namespace Probe

/-- A probe before its first call. -/
def start (init? execute? : Option BenchError) : Lifecycle Probe :=
  .start ⟨[], init?, execute?⟩ none

/-- A call, which fails if there is an error. -/
def call (p : Probe) (step : Step) (error? : Option BenchError) :
    Probe × Except BenchError Unit :=
  ({ p with calls := p.calls ++ [step] }, match error? with
    | some e => .error e
    | none => .ok ())

instance : Benchmark Probe where
  name _ := "probe"
  elements _ := 1
  query _ := .select (.input 0) (.input 0) .i64
  init p := p.call .init p.init?
  execute _ p := p.call .execute p.execute?
  release p := ((p.call .release none).1, 0)
  regions _ := []

end Probe

/-- Two of three instances fail, the higher number first. -/
theorem Fleet.run_of_complete_of_three :
    let _ : RandomSource := KeyStream.source
    let error (n : Nat) : BenchError := .noBuffer n
    let instances := [Probe.start none (some (error 0)), Probe.start (some (error 1)) none,
      Probe.start (some (error 2)) none]
    let schedule : Schedule := ⟨[2, 0, 1], [1, 0, 2]⟩
    let compiler : Compiler Nat := fun q k =>
      (.ok ⟨k, "idle", q.arity, fun _ _ _ out => (out, .ok ())⟩, k + 1)
    (∀ l ∈ instances, l.stage = .uninitialized) ∧ schedule.Complete instances.length ∧
    ∃ f : Fleet Probe, Fleet.run compiler schedule 0 ⟨instances⟩ = (1, f, .error (error 1)) ∧
      f.instances.map (·.stage) = [.initialized, .compiled, .compiled] ∧
      f.instances.map (·.bench.calls) = [[.init], [.init], [.init]] := by
  intro _ error instances schedule compiler
  have hfresh : ∀ l ∈ instances, l.stage = .uninitialized := by
    simp [instances, Probe.start, Lifecycle.start]
  have hcomplete : schedule.Complete instances.length := ⟨by decide, by decide⟩
  obtain ⟨-, -, hok, -⟩ := Fleet.run_of_complete compiler 0 hfresh hcomplete
  obtain ⟨hfailed, -⟩ := hok _ rfl
  exact ⟨hfresh, hcomplete, _, hfailed _ rfl, rfl, rfl⟩

end StreamGauge
