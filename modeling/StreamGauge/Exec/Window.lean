import StreamGauge.Exec.Emission
import StreamGauge.Exec.Range

/-!
# Windows

A window operator emits at the ticks `start + period`, `start + 2 * period`, … up to `stop`. At a
tick it computes its reducer of the elements that stopped in the last `length`. Two indices mark
the first and the one after the last of them; both only move forward. The run ends at the first
tick after `stop`; that one is computed, too, and has to be within 64 bits like the others.

`Tally` is what a reducer needs to know of some elements. A blocked source gives whole blocks by
their sum (`foldBlocks`), if the reducer allows that.
-/

namespace StreamGauge

/-- Counts and sums over elements. -/
structure Tally where
  count : Nat
  intSum : Int64
  floatSum : Float
  squareSum : Float
  /-- Whether one of the elements is a double. -/
  float : Bool

namespace Tally

/-- Of no elements. -/
def empty : Tally := ⟨0, 0, 0, 0, false⟩

/-- With one element more. The sum of integers wraps. -/
def push (t : Tally) (v : Value) : Tally :=
  let x := v.toFloat
  { count := t.count + 1
    intSum := t.intSum + v.toInt64
    floatSum := t.floatSum + x
    squareSum := t.squareSum + x * x
    float := t.float || v.isFloat }

/-- With `n` integers more, of which only the sum is known. -/
def pushBlock (t : Tally) (sum : Int64) (n : Nat) : Tally :=
  { t with
    count := t.count + n
    intSum := t.intSum + sum
    floatSum := t.floatSum + sum.toFloat }

/-- The result of a reducer; without elements, most have none. -/
def finish (t : Tally) (reducer : Reducer) : Option Value :=
  if t.count = 0 ∧ !reducer.emitsEmpty then none
  else
    let n := (Int64.ofNat t.count).toFloat
    some <| match reducer with
      | .sum => if t.float then .ofFloat t.floatSum else .int t.intSum
      | .count | .deviationState => .int (Int64.ofNat t.count)
      | .average => .ofFloat (t.floatSum / n)
      | .variance =>
        let mean := t.floatSum / n
        let v := t.squareSum / n - mean * mean
        .ofFloat (if v > 0 then v else 0)

end Tally

/-- What an operator reads: elements, and the blocks that they lie in. -/
structure Feed where
  elements : Array Element
  blocks? : Option BlockedRegion

namespace Feed

/-- The elements of a view. -/
def ofView (v : View) : Except ExecError Feed :=
  match v.elements? with
  | none => .error (.fault .unreadable)
  | some elements =>
    .ok ⟨elements, match v with
      | .plain _ => none
      | .blocked r => some r⟩

/-- The tally of the elements from `lo` up to `hi`, one by one. -/
def foldElements (f : Feed) (lo hi : Nat) (t : Tally) : Except ExecError Tally :=
  (f.elements.extract lo hi).foldlM (fun t e => return t.push (← e.read)) t

/-- The tally of the elements from `i` up to `hi`; a block that lies between is taken as a
whole. -/
def foldBlocks (f : Feed) (r : BlockedRegion) (i hi : Nat) (t : Tally) : Except ExecError Tally :=
  if i < hi then
    let k := r.layout.blockOf i
    let n := r.layout.elementsIn k
    if h : i = k * r.layout.blockSize ∧ 0 < n ∧ i + n ≤ hi then
      match r.blockSum? k with
      | none => .error (.fault (.blockSum k))
      | some sum => foldBlocks f r (i + n) hi (t.pushBlock sum n)
    else do
      let t ← f.foldElements i (i + 1) t
      foldBlocks f r (i + 1) hi t
  else .ok t
termination_by hi - i
decreasing_by
  · exact Nat.sub_lt_sub_left ‹i < hi› (Nat.lt_add_of_pos_right h.2.1)
  · omega

/-- The tally of the elements from `lo` up to `hi` for a reducer. -/
def fold (f : Feed) (reducer : Reducer) (lo hi : Nat) : Except ExecError Tally :=
  match f.blocks? with
  | some r =>
    if reducer.foldsBlocks then f.foldBlocks r lo hi .empty else f.foldElements lo hi .empty
  | none => f.foldElements lo hi .empty

end Feed

/-- The first index from `i` on, at most `limit`, of an element that stops after `time`. -/
def skipStopped (elements : Array Element) (limit : Nat) (time : Int) (i : Nat) : Nat :=
  if i < limit then
    match elements[i]? with
    | some e => if e.span.stop ≤ time then skipStopped elements limit time (i + 1) else i
    | none => i
  else i
termination_by limit - i

/-- How many ticks a run has. A period that does not advance has no further ones than the second:
no output takes a tick that is not after the one before it. -/
def tickCount (start stop period : Int) : Nat :=
  if 0 < period then ((stop - start) / period).toNat
  else if start + period ≤ stop then 2
  else 0

/-- The emission at a tick, of the elements from `lo` up to `hi`. -/
def windowEmission (f : Feed) (reducer : Reducer) (tick : Int) (lo hi : Nat) : Emission :=
  match f.fold reducer lo hi with
  | .error e => .halt e
  | .ok t =>
    match t.finish reducer with
    | some v => .upTo tick v
    | none => .pass tick

/-- An emission that needs some times, each of them within 64 bits. -/
def Emission.needing (times : List Int) (e : Emission) : Emission :=
  match times.find? (!isInt64 ·) with
  | some time => .halt (.fault (.time time))
  | none => e

/-- The emissions at some number of ticks, `tick` being the first, and the check of the tick after
them. The window of the tick before went from `lo` up to `hi`; no element from `last` on takes
part. Where the window begins is computed only if an element can have left it. -/
def windowFrom (f : Feed) (length period : Int) (reducer : Reducer) (last : Nat) :
    (count : Nat) → (tick : Int) → (lo hi : Nat) → Sequence Emission
  | 0, tick, _, _ =>
    if isInt64 tick then .nil else .ofList [.halt (.fault (.time tick))]
  | count + 1, tick, lo, hi =>
    let hi := skipStopped f.elements last tick hi
    let times := if lo < hi then [tick, tick - length] else [tick]
    let lo := skipStopped f.elements hi (tick - length) lo
    .cons (.needing times (windowEmission f reducer tick lo hi)) fun _ =>
      windowFrom f length period reducer last count (tick + period) lo hi

/-- One emission per tick. -/
def window (length period : Int) (reducer : Reducer) (f : Feed) (start stop : Int) :
    Sequence Emission :=
  let (first, last) := rangeOf f.elements start stop
  windowFrom f length period reducer last (tickCount start stop period) (start + period) first
    first

end StreamGauge
