/-!
# Sources of random numbers

A program takes its random numbers from a `RandomSource` and holds a `Draws`, what is left of the
numbers of a seed. A draw is determined by the draws that are left and by what is asked for. Of the
source itself all that is presumed is that an integer lies in the range that it is drawn from.
-/

namespace StreamGauge

/-- Where the random numbers of a program come from. -/
class RandomSource where
  /-- A place in the numbers of a seed. -/
  State : Type
  ofSeed : UInt64 → State
  /-- An integer from `lo` to `hi`, less than `2 ^ 64 - 1` apart. -/
  int (lo hi : Int) (s : State) : Int × State
  /-- A double from `lo` up to but not with `hi`. -/
  float (lo hi : Float) (s : State) : Float × State
  int_mem {lo hi : Int} (h : lo ≤ hi) (s : State) : lo ≤ (int lo hi s).1 ∧ (int lo hi s).1 ≤ hi

variable [RandomSource]

/-- What is left of the numbers of a seed. -/
abbrev Draws : Type := RandomSource.State

namespace Draws

/-- All numbers of a seed. -/
def ofSeed (seed : UInt64) : Draws := RandomSource.ofSeed seed

/-- Draws an integer from `lo` to `hi`. -/
def int (lo hi : Int) (d : Draws) : Int × Draws := RandomSource.int lo hi d

/-- Draws a double from `lo` up to but not with `hi`. -/
def float (lo hi : Float) (d : Draws) : Float × Draws := RandomSource.float lo hi d

theorem int_mem {lo hi : Int} (h : lo ≤ hi) (d : Draws) :
    lo ≤ (d.int lo hi).1 ∧ (d.int lo hi).1 ≤ hi :=
  RandomSource.int_mem h d

end Draws

end StreamGauge
