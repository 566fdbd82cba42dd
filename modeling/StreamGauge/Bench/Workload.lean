import StreamGauge.Bench.Stage
import StreamGauge.Generator.Correlated
import StreamGauge.Generator.Uniform
import StreamGauge.Query.Basic
import StreamGauge.Region.View

/-!
# Workloads

A `Workload` is one instance of a scenario with its numbers settled. It fixes the query, the
inputs and the size of the output; the seed alone tells the instances of one run apart.

* `Workload.query` is the query of the scenario;
* `Workload.inputs` makes and fills the input regions;
* `Workload.output` is the empty region that the query writes to.
-/

namespace StreamGauge

/-- An instance of a scenario. -/
structure Workload where
  scenario : Scenario
  /-- Elements of an input. -/
  size : UInt64
  /-- Time from one input element to the next. -/
  period : Int64
  window : Int
  /-- Elements of a block. -/
  blockSize : UInt64
  seed : UInt64
deriving DecidableEq, Repr

namespace Workload

/-- Instance `number` of the settings. -/
def ofSettings (s : Settings) (number : Nat) : Except SettingsError Workload :=
  match s.check with
  | .error e => .error e
  | .ok () =>
    .ok ⟨s.scenario, s.size, s.period, s.window, s.blockSize, s.seed + UInt64.ofNat number⟩

/-- The query reads the times from zero up to here. -/
def endTime (w : Workload) : Int := (w.period * w.size.toInt64).toInt

/-- Time from one window to the next. -/
def hop (w : Workload) : Int :=
  match w.scenario with
  | .slidingSum => max (w.window / 2) 1
  | _ => w.window

/-- Steps of a length up to the end, and one more. -/
def stepsOf (w : Workload) (length : Int) : Nat := (w.endTime / length).toNat + 1

/-- Elements of a base stream. -/
def baseLength (w : Workload) : Nat := w.stepsOf w.window

/-- The seed of a second input. -/
def secondSeed (w : Workload) : UInt64 := w.seed <<< 32 ||| w.seed >>> 32

/-- Elements of the right side of an outer join. -/
def rightLength (w : Workload) : Nat := max (w.size.toNat / 2) 1

/-! ## The query -/

/-- The elements above zero. -/
def positive : Expr := .binary .gt (.input 0) (.const (.int 0))

/-- The elements and three. -/
def plusThree : Expr := .binary .add (.input 0) (.const (.int 3))

/-- The sum of both sides of a join. -/
def bothSides : Expr := .binary .add (.input 0) (.input 1)

/-- A base and its delta. -/
def basePlusDelta : Expr := .binary .add (.input 0) (.cast .i64 (.input 1))

/-- How far the left side of a join is from the right one. -/
def deviation : Expr := .binary .sub (.input 0) (.input 1)

/-- The query of the scenario. -/
def query (w : Workload) : Query :=
  let first : Source := .input 0
  let second : Source := .input 1
  let tumbling (source : Source) := Query.tumbling source w.window
  let kind := w.scenario.uniformKind
  match w.scenario with
  | .select | .select8 | .blockedSelect => .select first plusThree kind
  | .filter | .filter8 | .blockedFilter => .filter first positive
  | .sum | .sum8 | .blockedSum => tumbling first .sum .i64
  | .filteredSum | .filteredSum8 | .blockedFilteredSum =>
    tumbling (.query (.filter first positive)) .sum .i64
  | .average =>
    .join (.query (tumbling first .sum .f32)) (.query (tumbling first .count .i64))
      (.binary .div (.input 0) (.cast .f32 (.input 1))) none .f32
  | .averageOnePass | .blockedAverage => tumbling first .average .f32
  | .averageOnePass64 | .averageOnePass8 => tumbling first .average kind
  | .variance =>
    tumbling (.query (.join first (.query (tumbling first .average .f64))
      (.binary .mul deviation deviation) none .f64)) .average .f64
  | .varianceOnePass => tumbling first .variance .f64
  | .blockedDeviation => tumbling first .deviationState .f32
  | .slidingSum => .window first w.window w.hop .sum .i64
  | .innerJoin => .join first second bothSides none .i64
  | .outerJoin => .join first second bothSides (some (.ofFloat 0)) .f32
  | .baseDeltaSelect =>
    .join first second (.binary .add basePlusDelta (.const (.int 3))) none .i64
  | .baseDeltaFilter => .filter (.query (.join first second basePlusDelta none .i64)) positive

/-! ## The regions -/

variable [RandomSource]

/-- An input of evenly spread values. -/
def uniformInput (kind : Kind) (period : Int) (length : Nat) (seed : UInt64) :
    Except BenchError View :=
  match UniformStream.make period length UniformStream.defaultRange seed with
  | .error e => .error (.generator e)
  | .ok g =>
    match PlainRegion.allocate? kind length 0 with
    | none => .error (.noBuffer length)
    | some r =>
      match g.fill r with
      | ((_, r), .ok ()) => .ok (.plain r)
      | (_, .error e) => .error (.generator e)

/-- The layout of blocked inputs: every block is packed. -/
def layout (w : Workload) : Layout := ⟨.i64, .i8, w.size.toNat, w.blockSize.toNat, .always⟩

/-- An input of values that are close together within a block. -/
def blockedInput (w : Workload) (seed : UInt64) : Except BenchError View :=
  if !w.layout.fits then .error (.noBuffer w.size.toNat)
  else
    match BlockedRegion.allocate w.layout with
    | .error e => .error (.region e)
    | .ok r =>
      match CorrelatedStream.make w.period.toInt w.size.toNat seed with
      | .error e => .error (.generator e)
      | .ok g =>
        match g.fill r with
        | ((_, r), .ok ()) => .ok (.blocked r)
        | (_, .error e) => .error (.generator e)

/-- The inputs of the scenario, filled. -/
def inputs (w : Workload) : Except BenchError (List View) := do
  let period := w.period.toInt
  let size := w.size.toNat
  match w.scenario with
  | .innerJoin => return [← w.blockedInput w.seed, ← w.blockedInput w.secondSeed]
  | .baseDeltaSelect | .baseDeltaFilter =>
    return [← uniformInput .i64 w.window w.baseLength w.seed,
      ← uniformInput .i8 period size w.secondSeed]
  | .outerJoin =>
    return [← uniformInput .f32 period size w.seed,
      ← uniformInput .f32 period w.rightLength w.secondSeed]
  | s =>
    if s.isBlocked then return [← w.blockedInput w.seed]
    else return [← uniformInput s.uniformKind period size w.seed]

/-- The kind of the output and the elements that it is made for. -/
def outputLayout (w : Workload) : Kind × Nat :=
  let size := w.size.toNat
  let windows := w.stepsOf w.hop
  match w.scenario with
  | .select | .select8 | .filter | .filter8 | .outerJoin => (w.scenario.uniformKind, size)
  | .blockedSelect | .blockedFilter | .innerJoin => (.i64, size)
  | .baseDeltaSelect | .baseDeltaFilter => (.i64, size + w.baseLength)
  | .average | .averageOnePass | .blockedAverage | .blockedDeviation => (.f32, windows)
  | .averageOnePass64 | .averageOnePass8 => (w.scenario.uniformKind, windows)
  | .variance | .varianceOnePass => (.f64, windows)
  | .sum | .sum8 | .filteredSum | .filteredSum8 | .slidingSum | .blockedSum
  | .blockedFilteredSum => (.i64, windows)

/-- The region that the query writes to. -/
def output (w : Workload) : Except BenchError PlainRegion :=
  match PlainRegion.allocate? w.outputLayout.1 w.outputLayout.2 0 with
  | some r => .ok r
  | none => .error (.noBuffer w.outputLayout.2)

end Workload

end StreamGauge
