import StreamGauge.Generator.Error
import StreamGauge.Random.Source
import StreamGauge.Region.Blocked
import StreamGauge.Scalar.Saturate

/-!
# Block-correlated streams

A `CorrelatedStream` fills a blocked region. It draws one base per block and one small delta per
element, so that the values of a block stay close together. A raw block stores the sum of the two,
so the values do not depend on which blocks are packed.
-/

namespace StreamGauge

variable [RandomSource]

/-- A generator of values that are close together within a block. -/
structure CorrelatedStream where
  period : Int
  length : Nat
  minBase : Int
  /-- The width of the range of bases. -/
  baseRange : Int
  /-- The width of the range of deltas, which begins at zero. -/
  deltaRange : Int
  draws : Draws

namespace CorrelatedStream

/-- A generator with bases from -100 and deltas from 0, a hundred of each. -/
def make (period : Int) (length : Nat) (seed : UInt64) : Except GeneratorError CorrelatedStream :=
  if period ≤ 0 then .error (.config (.period period))
  else .ok ⟨period, length, -100, 100, 100, .ofSeed seed⟩

/-- Refuses ranges whose greatest value leaves 64 bits. -/
def checkRanges (minBase baseRange deltaRange : Int) : Except GeneratorError Unit :=
  if maxInt64 < minBase + (baseRange - 1) ∨ maxInt64 < minBase + (baseRange - 1) + (deltaRange - 1)
  then .error (.config (.overflow minBase baseRange deltaRange))
  else .ok ()

/-- With other bases. -/
def withBase (g : CorrelatedStream) (minBase baseRange : Int) :
    Except GeneratorError CorrelatedStream :=
  if baseRange ≤ 0 then .error (.config (.baseRange baseRange))
  else do
    checkRanges minBase baseRange g.deltaRange
    return { g with minBase := minBase, baseRange := baseRange }

/-- With other deltas. -/
def withDeltaRange (g : CorrelatedStream) (deltaRange : Int) :
    Except GeneratorError CorrelatedStream :=
  if deltaRange ≤ 0 then .error (.config (.deltaRange deltaRange))
  else do
    checkRanges g.minBase g.baseRange deltaRange
    return { g with deltaRange := deltaRange }

/-- The greatest base. -/
def maxBase (g : CorrelatedStream) : Int := g.minBase + (g.baseRange - 1)

/-- The least value. -/
def minValue (g : CorrelatedStream) : Int := g.minBase

/-- The greatest value. -/
def maxValue (g : CorrelatedStream) : Int := g.maxBase + (g.deltaRange - 1)

/-- Whether the elements are as many as the region was made for and fit it in value and in
time. -/
def check (g : CorrelatedStream) (r : BlockedRegion) : Except GeneratorError Unit := do
  if r.layout.length ≠ g.length then
    .error (.config (.lengthDiffers g.length r.layout.length))
  if r.count ≠ 0 then .error (.config .populated)
  checkFits .delta r.layout.delta 0 (g.deltaRange - 1)
  checkFits .value r.layout.base g.minValue g.maxValue
  let span := min (r.layout.blockSize * g.period) maxInt64
  if UInt32.size ≤ span then .error (.config (.blockSpan span))

/-- A region that is being filled, and the draws left. -/
structure Progress where
  region : BlockedRegion
  draws : Draws

/-- Commits element `i` with a drawn delta; `j` is its place in a block with this base. -/
def fillElement (g : CorrelatedStream) (base : Int) (first j : Nat) :
    Progress → Progress × Except GeneratorError Unit
  | ⟨r, draws⟩ =>
    let i := first + j
    match r.commitElement i ⟨UInt32.ofInt (j * g.period), UInt32.ofInt g.period⟩ with
    | (r, .error e) => (⟨r, draws⟩, .error (.region e))
    | (r, .ok ()) =>
      let (delta, draws) := draws.int 0 (g.deltaRange - 1)
      (⟨r.putElement i (Int64.ofInt delta) (Int64.ofInt (base + delta)), draws⟩, .ok ())

/-- Does some steps one after the other, up to the first that fails. -/
def sequence (step : Nat → Progress → Progress × Except GeneratorError Unit) :
    List Nat → Progress → Progress × Except GeneratorError Unit
  | [], p => (p, .ok ())
  | i :: rest, p =>
    match step i p with
    | (p, .ok ()) => sequence step rest p
    | (p, .error e) => (p, .error e)

/-- Commits block `k` with a drawn base, and its elements. -/
def fillBlock (g : CorrelatedStream) (k : Nat) : Progress → Progress × Except GeneratorError Unit
  | ⟨r, draws⟩ =>
    let first := k * r.layout.blockSize
    let anchor : Span := ⟨first * g.period, g.period⟩
    let packed := r.layout.policy.packs k
    if !isInt64 anchor.start then (⟨r, draws⟩, .error (.time anchor.start))
    else
      match r.commitBlock k anchor packed with
      | (r, .error e) => (⟨r, draws⟩, .error (.region e))
      | (r, .ok _) =>
        let (base, draws) := draws.int g.minBase g.maxBase
        let r := r.putBase k (Int64.ofInt base)
        sequence (g.fillElement base first) (List.range (r.layout.elementsIn k)) ⟨r, draws⟩

/-- Commits all blocks of a region and all their elements. -/
def fill (g : CorrelatedStream) (r : BlockedRegion) :
    (CorrelatedStream × BlockedRegion) × Except GeneratorError Unit :=
  match g.check r with
  | .error e => ((g, r), .error e)
  | .ok () =>
    let (p, ended) := sequence g.fillBlock (List.range r.layout.blockCount) ⟨r, g.draws⟩
    (({ g with draws := p.draws }, p.region), ended)

end CorrelatedStream

end StreamGauge
