import StreamGauge.Bench.Workload

/-!
# Benchmarks

A `Benchmark` is what a lifecycle drives: it has a query, makes its regions, runs a routine over
them and gives them up. A `Trial` is the benchmark of a workload; between `init` and `release` it
holds the inputs and the output of the workload, and at no other time any region.
-/

namespace StreamGauge

/-- What a lifecycle drives. A step that fails may have changed the benchmark. -/
class Benchmark (β : Type) where
  name : β → String
  /-- Elements that one run processes. -/
  elements : β → Nat
  query : β → Query
  /-- Makes and fills the regions. -/
  init : β → β × Except BenchError Unit
  /-- Runs a routine over the regions. -/
  execute : Routine → β → β × Except BenchError Unit
  /-- Gives up the regions and answers their bytes. -/
  release : β → β × Nat
  /-- The regions by name. -/
  regions : β → List (String × View)

/-- Bytes of the buffers of a region. -/
def View.footprint : View → Nat
  | .plain r => r.footprint
  | .blocked r => r.footprint

/-- A workload with its regions. -/
structure Trial where
  workload : Workload
  inputs : List View
  output? : Option PlainRegion
deriving DecidableEq, Repr

namespace Trial

/-- A trial without regions. -/
def ofWorkload (w : Workload) : Trial := ⟨w, [], none⟩

/-- Instance `number` of the settings. -/
def ofSettings (s : Settings) (number : Nat) : Except SettingsError Trial :=
  (Workload.ofSettings s number).map ofWorkload

/-- Fills the inputs and makes the output. If an input fails, nothing changes. -/
def init [RandomSource] (t : Trial) : Trial × Except BenchError Unit :=
  match t.workload.inputs with
  | .error e => (t, .error e)
  | .ok inputs =>
    match t.workload.output with
    | .ok output => ({ t with inputs := inputs, output? := some output }, .ok ())
    | .error e => ({ t with inputs := inputs }, .error e)

/-- Calls a routine over all times of the workload. -/
def execute (r : Routine) (t : Trial) : Trial × Except BenchError Unit :=
  match t.output? with
  | none => (t, .error (.outOfOrder .execute .uninitialized))
  | some output =>
    let (output, ended) := r.call t.inputs 0 t.workload.endTime output
    ({ t with output? := some output }, ended.mapError .exec)

/-- The regions by name: the inputs by number, then the output. -/
def regions (t : Trial) : List (String × View) :=
  t.inputs.zipIdx.map (fun (v, i) => (s!"input{i}", v)) ++
    t.output?.toList.map fun r => ("output", .plain r)

/-- Gives up all regions. -/
def release (t : Trial) : Trial × Nat :=
  ({ t with inputs := [], output? := none }, t.regions.foldr (·.2.footprint + ·) 0)

instance [RandomSource] : Benchmark Trial where
  name t := t.workload.scenario.name
  elements t := t.workload.size.toNat
  query t := t.workload.query
  init := init
  execute := execute
  release := release
  regions := regions

end Trial

end StreamGauge
