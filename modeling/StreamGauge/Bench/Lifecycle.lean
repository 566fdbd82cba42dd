import StreamGauge.Bench.Benchmark
import StreamGauge.Bench.Report
import StreamGauge.Compile.Service
import StreamGauge.Region.Dump

/-!
# Lifecycles

A `Lifecycle` drives one benchmark through its stages. Every step takes the lifecycle and answers
what became of it, together with a result or an error:

* a step from a stage that is not its own is refused, and nothing changes;
* a step that fails leaves the stage where it was;
* a step that succeeds leads to the next stage.

A release hands out the dumps of the regions, if dumps are wanted; writing them is left to the
caller, and a dump that cannot be written does not matter.
-/

namespace StreamGauge

/-- A compiler with a state: what it makes of a query, and what becomes of the state. -/
abbrev Compiler (κ : Type) := Query → κ → Except CompileError Routine × κ

/-- A backend as a compiler that counts its compilations. -/
def Backend.compiler (backend : Backend) : Compiler Nat :=
  fun q serial => (backend serial q, serial + 1)

/-- A service in front of a backend. -/
def Service.compiler [TextHash] (backend : Backend) : Compiler Service :=
  fun q s => s.compile backend q

/-- Where the dumps of a benchmark go. -/
structure DumpTarget where
  directory : String
  /-- What the names of the files begin with. -/
  tag : String
deriving DecidableEq, Repr

/-- A file to be written. -/
structure DumpFile where
  directory : String
  name : String
  text : String
deriving DecidableEq, Repr

/-- The path of a file. -/
def DumpFile.path (f : DumpFile) : String :=
  if f.directory.isEmpty ∨ f.directory.endsWith "/" then f.directory ++ f.name
  else f.directory ++ "/" ++ f.name

/-- The dumps of regions. -/
def DumpTarget.files (target : DumpTarget) (regions : List (String × View)) : List DumpFile :=
  regions.filterMap fun (name, v) =>
    v.dump?.map fun text => ⟨target.directory, s!"{target.tag}_{name}.txt", text⟩

/-- What a release gives up. -/
structure Release where
  /-- Bytes of the regions. -/
  bytes : Nat
  dumps : List DumpFile
deriving DecidableEq, Repr

/-- A benchmark on its way through the stages. -/
structure Lifecycle (β : Type) where
  bench : β
  stage : Stage
  /-- The routine, from the first step up to the release. -/
  routine? : Option Routine
  dump? : Option DumpTarget

namespace Lifecycle

variable {β κ : Type} [Benchmark β]

/-- A benchmark before its first step. -/
def start (bench : β) (dump? : Option DumpTarget) : Lifecycle β :=
  ⟨bench, .uninitialized, none, dump?⟩

/-- Whether a step can be taken. -/
def allows (l : Lifecycle β) (step : Step) : Except BenchError Unit :=
  if l.stage = step.source then .ok () else .error (.outOfOrder step l.stage)

/-- Compiles the query of the benchmark. -/
def compile (compiler : Compiler κ) (k : κ) (l : Lifecycle β) :
    κ × Lifecycle β × Except BenchError Routine :=
  match l.allows .compile with
  | .error e => (k, l, .error e)
  | .ok () =>
    match compiler (Benchmark.query l.bench) k with
    | (.error e, k) => (k, l, .error (.compile e))
    | (.ok r, k) => (k, { l with stage := Step.compile.target, routine? := some r }, .ok r)

/-- Takes a routine that was compiled elsewhere. -/
def attach (r : Routine) (l : Lifecycle β) : Lifecycle β × Except BenchError Unit :=
  match l.allows .attach with
  | .error e => (l, .error e)
  | .ok () => ({ l with stage := Step.attach.target, routine? := some r }, .ok ())

/-- Makes and fills the regions. -/
def init (l : Lifecycle β) : Lifecycle β × Except BenchError Unit :=
  match l.allows .init with
  | .error e => (l, .error e)
  | .ok () =>
    match Benchmark.init l.bench with
    | (bench, .error e) => ({ l with bench := bench }, .error e)
    | (bench, .ok ()) => ({ l with bench := bench, stage := Step.init.target }, .ok ())

/-- Runs the routine. -/
def execute (l : Lifecycle β) : Lifecycle β × Except BenchError Unit :=
  match l.allows .execute, l.routine? with
  | .error e, _ => (l, .error e)
  | .ok (), none => (l, .error (.outOfOrder .execute l.stage))
  | .ok (), some r =>
    match Benchmark.execute r l.bench with
    | (bench, .error e) => ({ l with bench := bench }, .error e)
    | (bench, .ok ()) => ({ l with bench := bench, stage := Step.execute.target }, .ok ())

/-- Dumps the regions, if wanted, and gives them up together with the routine. -/
def release (l : Lifecycle β) : Lifecycle β × Except BenchError Release :=
  match l.allows .release with
  | .error e => (l, .error e)
  | .ok () =>
    let dumps := l.dump?.toList.flatMap (·.files (Benchmark.regions l.bench))
    let (bench, bytes) := Benchmark.release l.bench
    ({ l with bench := bench, stage := Step.release.target, routine? := none },
      .ok ⟨bytes, dumps⟩)

/-- The steps of a run before the one that is timed. -/
def prepare (compiler : Compiler κ) (k : κ) (l : Lifecycle β) :
    κ × Lifecycle β × Except BenchError Unit :=
  match l.compile compiler k with
  | (k, l, .error e) => (k, l, .error e)
  | (k, l, .ok _) => (k, l.init)

/-- All steps from compilation to release, up to the first that fails. -/
def run (compiler : Compiler κ) (k : κ) (l : Lifecycle β) :
    κ × Lifecycle β × Except BenchError Release :=
  match l.prepare compiler k with
  | (k, l, .error e) => (k, l, .error e)
  | (k, l, .ok ()) =>
    match l.execute with
    | (l, .error e) => (k, l, .error e)
    | (l, .ok ()) => (k, l.release)

/-- The report of a run that took some microseconds. -/
def report (l : Lifecycle β) (elapsed : Float) : Report :=
  ⟨Benchmark.name l.bench, Benchmark.elements l.bench, 1, elapsed⟩

end Lifecycle

end StreamGauge
