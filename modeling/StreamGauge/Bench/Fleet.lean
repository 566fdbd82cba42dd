import StreamGauge.Bench.Lifecycle

/-!
# Fleets

A `Fleet` runs several instances of a benchmark with one routine: the first instance compiles it
and the others take it over. Then all instances are initialized, then all are executed, then all
are released.

The instances of a phase work side by side and finish in any order, so a phase is given as the
list of instance numbers in the order in which they finish. Whatever the order, the phase reports
the failure of the lowest number (`Phase.failure?`), and the next phase begins only if nothing
failed.
-/

namespace StreamGauge

/-- The state of a phase: the instances, and the failures by instance number. -/
structure Phase (β : Type) where
  instances : List (Lifecycle β)
  failures : List (Nat × BenchError)

namespace Phase

variable {β : Type}

/-- Instance `i` takes its step. -/
def finish (step : Lifecycle β → Lifecycle β × Except BenchError Unit) (p : Phase β) (i : Nat) :
    Phase β :=
  match p.instances[i]? with
  | none => p
  | some l =>
    match step l with
    | (l, .ok ()) => { p with instances := p.instances.set i l }
    | (l, .error e) => ⟨p.instances.set i l, (i, e) :: p.failures⟩

/-- The instances take their steps in an order of finishing. -/
def run (step : Lifecycle β → Lifecycle β × Except BenchError Unit) (order : List Nat)
    (instances : List (Lifecycle β)) : Phase β :=
  order.foldl (finish step) ⟨instances, []⟩

/-- Of two failures, the one of the lower instance number. -/
def lower (a b : Nat × BenchError) : Nat × BenchError := if b.1 < a.1 then b else a

/-- The failure of the lowest instance number. -/
def failure? (p : Phase β) : Option BenchError :=
  match p.failures with
  | [] => none
  | f :: fs => some (fs.foldl lower f).2

end Phase

/-- The orders in which the instances finish their two phases. -/
structure Schedule where
  init : List Nat
  execute : List Nat

/-- The instances finish by number. -/
def Schedule.byNumber (n : Nat) : Schedule := ⟨List.range n, List.range n⟩

/-- Instances that run side by side. -/
structure Fleet (β : Type) where
  instances : List (Lifecycle β)

namespace Fleet

variable {β κ : Type} [Benchmark β]

/-- Instances as a fleet; there must be one. -/
def ofList (instances : List (Lifecycle β)) : Except BenchError (Fleet β) :=
  if instances.isEmpty then .error (.settings (.invalid .noInstances)) else .ok ⟨instances⟩

/-- Instance `i` of the settings. -/
def instanceOf (s : Settings) (i : Nat) : Except SettingsError (Lifecycle Trial) :=
  (Trial.ofSettings s i).map fun t =>
    .start t (if s.dumps then some ⟨s.dumpDirectory, s!"{s.scenario}_{i}"⟩ else none)

/-- The instances of the settings. -/
def ofSettings (s : Settings) : Except BenchError (Fleet Trial) :=
  match (List.range s.threads.toNat).mapM (instanceOf s) with
  | .ok instances => ofList instances
  | .error e => .error (.settings e)

/-- How many instances there are. -/
def size (f : Fleet β) : Nat := f.instances.length

/-- The instances take over a routine, up to the first that refuses. -/
def attachAll (r : Routine) : List (Lifecycle β) → List (Lifecycle β) × Except BenchError Unit
  | [] => ([], .ok ())
  | l :: rest =>
    match l.attach r with
    | (l, .error e) => (l :: rest, .error e)
    | (l, .ok ()) =>
      let (rest, ended) := attachAll r rest
      (l :: rest, ended)

/-- The first instance compiles its query and the others take over the routine. -/
def compile (compiler : Compiler κ) (k : κ) (f : Fleet β) :
    κ × Fleet β × Except BenchError Unit :=
  match f.instances with
  | [] => (k, f, .error (.settings (.invalid .noInstances)))
  | first :: rest =>
    match first.compile compiler k with
    | (k, first, .error e) => (k, ⟨first :: rest⟩, .error e)
    | (k, first, .ok r) =>
      let (rest, ended) := attachAll r rest
      (k, ⟨first :: rest⟩, ended)

/-- All instances take a step. -/
def phase (step : Lifecycle β → Lifecycle β × Except BenchError Unit) (order : List Nat)
    (f : Fleet β) : Fleet β × Except BenchError Unit :=
  let p := Phase.run step order f.instances
  (⟨p.instances⟩, match p.failure? with
    | some e => .error e
    | none => .ok ())

/-- The steps before the one that is timed. -/
def prepare (compiler : Compiler κ) (order : List Nat) (k : κ) (f : Fleet β) :
    κ × Fleet β × Except BenchError Unit :=
  match f.compile compiler k with
  | (k, f, .error e) => (k, f, .error e)
  | (k, f, .ok ()) => (k, f.phase Lifecycle.init order)

/-- The step that is timed. -/
def execute (order : List Nat) (f : Fleet β) : Fleet β × Except BenchError Unit :=
  f.phase Lifecycle.execute order

/-- The instances are released, up to the first that refuses. -/
def releaseAll : List (Lifecycle β) → List (Lifecycle β) × Except BenchError (List Release)
  | [] => ([], .ok [])
  | l :: rest =>
    match l.release with
    | (l, .error e) => (l :: rest, .error e)
    | (l, .ok r) =>
      let (rest, ended) := releaseAll rest
      (l :: rest, ended.map (r :: ·))

/-- All instances are released. -/
def release (f : Fleet β) : Fleet β × Except BenchError (List Release) :=
  let (instances, ended) := releaseAll f.instances
  (⟨instances⟩, ended)

/-- All phases, up to the first that fails. -/
def run (compiler : Compiler κ) (schedule : Schedule) (k : κ) (f : Fleet β) :
    κ × Fleet β × Except BenchError (List Release) :=
  match f.prepare compiler schedule.init k with
  | (k, f, .error e) => (k, f, .error e)
  | (k, f, .ok ()) =>
    match f.execute schedule.execute with
    | (f, .error e) => (k, f, .error e)
    | (f, .ok ()) => (k, f.release)

/-- The report of a run that took some microseconds. It names the first instance. -/
def report? (f : Fleet β) (elapsed : Float) : Option Report :=
  f.instances.head?.map fun l => { l.report elapsed with threads := f.size }

end Fleet

end StreamGauge
