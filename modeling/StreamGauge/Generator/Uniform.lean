import StreamGauge.Generator.Error
import StreamGauge.Random.Source
import StreamGauge.Region.Plain

/-!
# Uniform streams

A `UniformStream` fills a plain region with `length` elements, one every `period`, whose values
are spread evenly over a range of a given width around zero. It checks that all of them fit before
it commits the first one, and its draws go on from fill to fill.
-/

namespace StreamGauge

variable [RandomSource]

/-- A generator of evenly spread values. -/
structure UniformStream where
  period : Int
  length : Nat
  /-- The width of the range of values. -/
  range : Int
  draws : Draws

namespace UniformStream

/-- The width that is taken when none is given. -/
def defaultRange : Int := 100

/-- A generator from its settings and the seed of its draws. -/
def make (period : Int) (length : Nat) (range : Int) (seed : UInt64) :
    Except GeneratorError UniformStream :=
  if period ≤ 0 then .error (.config (.period period))
  else if range ≤ 0 then .error (.config (.valueRange range))
  else .ok ⟨period, length, range, .ofSeed seed⟩

/-- The least value. -/
def minValue (g : UniformStream) : Int := -(g.range / 2)

/-- The greatest integer value. -/
def maxValue (g : UniformStream) : Int := g.range - g.range / 2 - 1

/-- Draws the next value: a double for a floating point kind, else an integer. -/
def nextValue (g : UniformStream) (float : Bool) : Value × UniformStream :=
  if float then
    let half := (Int64.ofInt g.range).toFloat / 2
    let (x, draws) := g.draws.float (-half) half
    (.ofFloat x, { g with draws := draws })
  else
    let (n, draws) := g.draws.int 0 (g.range - 1)
    (.int (Int64.ofInt (n - g.range / 2)), { g with draws := draws })

/-- The time `n` periods after `base`. Neither it nor the `n` periods may leave 64 bits. -/
def timeAfter (g : UniformStream) (base : Int) (n : Nat) : Except GeneratorError Int :=
  let elapsed := g.period * n
  if !isInt64 elapsed then .error (.time elapsed)
  else if !isInt64 (base + elapsed) then .error (.time (base + elapsed))
  else .ok (base + elapsed)

/-- Commits `remaining` elements after `done` others; the first of them all stops one period after
`base`. -/
def fillFrom (base : Int) : (done remaining : Nat) → UniformStream → PlainRegion →
    (UniformStream × PlainRegion) × Except GeneratorError Unit
  | _, 0, g, r => ((g, r), .ok ())
  | i, n + 1, g, r =>
    match g.timeAfter base (i + 1) with
    | .error e => ((g, r), .error e)
    | .ok time =>
      match r.commit time with
      | (r, .error e) => ((g, r), .error (.region e))
      | (r, .ok slot) =>
        let (v, g) := g.nextValue r.kind.isFloat
        fillFrom base (i + 1) n g (r.put slot v)

/-- Whether the elements fit a region: in number and in value. -/
def check (g : UniformStream) (r : PlainRegion) : Except GeneratorError Unit :=
  if r.capacity - r.count < g.length then
    .error (.config (.noRoom g.length r.capacity r.count))
  else checkFits .value r.kind g.minValue g.maxValue

/-- Appends all elements to a region. -/
def fill (g : UniformStream) (r : PlainRegion) :
    (UniformStream × PlainRegion) × Except GeneratorError Unit :=
  match g.check r with
  | .error e => ((g, r), .error e)
  | .ok () => g.fillFrom r.stop 0 g.length r

end UniformStream

end StreamGauge
