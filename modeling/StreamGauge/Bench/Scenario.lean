import StreamGauge.Scalar.Kind
import StreamGauge.Scalar.Saturate

/-!
# Scenarios

A `Scenario` names a workload of the catalogue: which query runs over which inputs. Scenarios are
written by name; four of them also answer to an alias that says that they run over 64-bit integers.

* `Scenario.all` is the catalogue in order;
* `Scenario.ofName?` finds a scenario by name or alias;
* `Scenario.defaultWindow` is the window that a scenario takes when none is set.
-/

namespace StreamGauge

/-- A workload of the catalogue. -/
inductive Scenario where
  /-- Adds three to each 64-bit integer. -/
  | select
  /-- Adds three to each 8-bit integer. -/
  | select8
  /-- Keeps the positive 64-bit integers. -/
  | filter
  /-- Keeps the positive 8-bit integers. -/
  | filter8
  /-- Sums windows of 64-bit integers. -/
  | sum
  /-- Sums windows of 8-bit integers. -/
  | sum8
  /-- Sums the positive 64-bit integers of each window. -/
  | filteredSum
  /-- Sums the positive 8-bit integers of each window. -/
  | filteredSum8
  /-- Averages windows of floats by a sum and a count. -/
  | average
  /-- Averages windows of floats in one reduction. -/
  | averageOnePass
  /-- Averages windows of 64-bit integers, cut to integers. -/
  | averageOnePass64
  /-- Averages windows of 8-bit integers, cut to integers. -/
  | averageOnePass8
  /-- The variance of windows: the mean of each first, then the mean square of what is left. -/
  | variance
  /-- The variance of windows in one reduction. -/
  | varianceOnePass
  /-- Sums windows that overlap by half. -/
  | slidingSum
  /-- Joins two blocked streams. -/
  | innerJoin
  /-- Joins two float streams, the right one half as long, and fills what one side lacks. -/
  | outerJoin
  /-- Joins a coarse base stream with a fine delta stream. -/
  | baseDeltaSelect
  /-- Keeps the positive elements of the join of a base and a delta stream. -/
  | baseDeltaFilter
  /-- Adds three to each element of a blocked stream. -/
  | blockedSelect
  /-- Keeps the positive elements of a blocked stream. -/
  | blockedFilter
  /-- Sums windows of a blocked stream. -/
  | blockedSum
  /-- Sums the positive elements of each window of a blocked stream. -/
  | blockedFilteredSum
  /-- Averages windows of a blocked stream. -/
  | blockedAverage
  /-- Counts windows of a blocked stream beside their state of squares and sums. -/
  | blockedDeviation
deriving DecidableEq, Repr

namespace Scenario

/-- The catalogue. -/
def all : List Scenario :=
  [select, select8, filter, filter8, sum, sum8, filteredSum, filteredSum8, average, averageOnePass,
    averageOnePass64, averageOnePass8, variance, varianceOnePass, slidingSum, innerJoin, outerJoin,
    baseDeltaSelect, baseDeltaFilter, blockedSelect, blockedFilter, blockedSum, blockedFilteredSum,
    blockedAverage, blockedDeviation]

/-- The name of a scenario. -/
def name : Scenario → String
  | select => "select"
  | select8 => "select8"
  | filter => "where"
  | filter8 => "where8"
  | sum => "aggregate"
  | sum8 => "sum8"
  | filteredSum => "sumwhere"
  | filteredSum8 => "sumwhere8"
  | average => "avg"
  | averageOnePass => "avgonepass"
  | averageOnePass64 => "avgonepass64"
  | averageOnePass8 => "avgonepass8"
  | variance => "var64"
  | varianceOnePass => "var64onepass"
  | slidingSum => "naivesum"
  | innerJoin => "innerjoin"
  | outerJoin => "outerjoin"
  | baseDeltaSelect => "bdselect"
  | baseDeltaFilter => "bdwhere"
  | blockedSelect => "bdoptselect"
  | blockedFilter => "bdoptwhere"
  | blockedSum => "bdoptsum"
  | blockedFilteredSum => "bdoptsumwhere"
  | blockedAverage => "bdoptavg"
  | blockedDeviation => "bdoptstddev"

instance : ToString Scenario := ⟨name⟩

/-- Second names, of scenarios over 64-bit integers. -/
def aliases : List (String × Scenario) :=
  [("select64", select), ("where64", filter), ("sum64", sum), ("sumwhere64", filteredSum)]

/-- Every name that stands for a scenario. -/
def names : List (String × Scenario) := all.map (fun s => (s.name, s)) ++ aliases

/-- The scenario of a name or alias. -/
def ofName? (text : String) : Option Scenario := (names.find? (·.1 = text)).map (·.2)

/-- Whether the inputs lie in blocks. -/
def isBlocked : Scenario → Bool
  | innerJoin | blockedSelect | blockedFilter | blockedSum | blockedFilteredSum | blockedAverage
  | blockedDeviation => true
  | _ => false

/-- Whether a base stream is joined with a delta stream. -/
def isTwoStream : Scenario → Bool
  | baseDeltaSelect | baseDeltaFilter => true
  | _ => false

/-- Periods in a window that is not set. -/
def windowPeriods : Scenario → Int
  | slidingSum | baseDeltaSelect | baseDeltaFilter | blockedAverage | blockedDeviation => 100
  | _ => 1000

/-- The window that is taken when none is set. -/
def defaultWindow (s : Scenario) (period : Int) : Int := saturate (period * s.windowPeriods)

/-- The kind of evenly spread inputs. -/
def uniformKind : Scenario → Kind
  | select8 | filter8 | sum8 | filteredSum8 | averageOnePass8 => .i8
  | average | averageOnePass | outerJoin => .f32
  | _ => .i64

end Scenario

end StreamGauge
