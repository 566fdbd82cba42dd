import StreamGauge.Decimal.Notation

/-!
# Reports

A `Report` says how long a run took. Its throughput is in elements per microsecond, that is in
millions per second, and is written with three significant digits.
-/

namespace StreamGauge

/-- The outcome of a timed run. -/
structure Report where
  scenario : String
  /-- Elements of each instance. -/
  size : Nat
  /-- Instances that ran side by side. -/
  threads : Nat
  /-- Microseconds that the run took. -/
  elapsed : Float

/-- Nanoseconds in a second. -/
def nanosPerSecond : Nat := 1000000000

/-- A time in microseconds, from whole seconds and the nanoseconds after them. Nanoseconds that
make up a second are taken as one first. -/
def microseconds (seconds nanoseconds : Nat) : Float :=
  (Float.ofNat (seconds + nanoseconds / nanosPerSecond) +
    Float.ofNat (nanoseconds % nanosPerSecond) / 1e9) * 1e6

/-- The time in microseconds, if its whole seconds are a 64-bit number. -/
def microseconds? (seconds nanoseconds : Nat) : Option Float :=
  if seconds + nanoseconds / nanosPerSecond < UInt64.size then
    some (microseconds seconds nanoseconds)
  else none

namespace Report

/-- Elements of all instances. -/
def total (r : Report) : Nat := r.size * r.threads

/-- Elements per microsecond. A run that took no time is infinitely fast. -/
def throughput (r : Report) : Float :=
  if r.elapsed > 0 then Float.ofNat r.total / r.elapsed else 1 / 0

/-- The report as a line. -/
def text (r : Report) : String :=
  s!"Throughput(M/s), {r.scenario}, {r.threads}, {Decimal.significant r.throughput 3}"

end Report

end StreamGauge
