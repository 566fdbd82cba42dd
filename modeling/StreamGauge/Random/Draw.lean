import StreamGauge.Random.ChaCha
import StreamGauge.Random.Source
import StreamGauge.Scalar.Power

/-!
# Random numbers from a key stream

`KeyStream.source` is the source of random numbers that the commands use. A `KeyStream` is a
position in the key stream of a seed, counted in 64-bit numbers. An integer of a range is drawn by
the high half of a product, and a number that would favour some of the range is drawn again; a
double is drawn as a fraction in `[0, 1)` of the range.

Every draw ends, as a number is drawn again `maxRetries` times at most. That is the one thing in
which the source differs from drawing until a number is taken, and the odds of it are less than one
in `2 ^ 256`.
-/

namespace StreamGauge

/-- A position in the key stream of a seed. -/
structure KeyStream where
  key : Vector UInt32 8
  position : Nat
deriving DecidableEq, Repr

namespace KeyStream

/-- The start of the stream of a seed. -/
def ofSeed (seed : UInt64) : KeyStream := ⟨ChaCha.expandSeed seed, 0⟩

/-- The 64-bit number at a position: two words of a block, the low one first. -/
def wordAt (d : KeyStream) (position : Nat) : UInt64 :=
  let block := ChaCha.block d.key (UInt64.ofNat (position / 8))
  let i := position % 8
  block[2 * i].toUInt64 ||| (block[2 * i + 1].toUInt64 <<< 32)

/-- The next 64-bit number. -/
def word (d : KeyStream) : UInt64 × KeyStream :=
  (d.wordAt d.position, { d with position := d.position + 1 })

/-- How often a number is drawn again at most. Every second one at worst is refused, so this is
never reached in practice. -/
def maxRetries : Nat := 256

/-- The largest low half of a product that is taken for a range of `n` numbers: one less than the
largest `n * 2 ^ k` below `2 ^ 64`. -/
def zone (n : Nat) : Nat := n * twoTo (63 - n.log2) - 1

/-- A number below `n`, drawn again up to `retries` times. -/
def belowRetrying (n : Nat) : Nat → KeyStream → Nat × KeyStream
  | 0, d =>
    let (v, d) := d.word
    (v.toNat * n / UInt64.size, d)
  | retries + 1, d =>
    let (v, d) := d.word
    let product := v.toNat * n
    if product % UInt64.size ≤ zone n then (product / UInt64.size, d)
    else belowRetrying n retries d

/-- A number below `n`, for `n` from 1 up to but not with `2 ^ 64`. -/
def below (n : Nat) (d : KeyStream) : Nat × KeyStream := belowRetrying n maxRetries d

/-- An integer from `lo` to `hi`, less than `2 ^ 64 - 1` apart. -/
def int (lo hi : Int) (d : KeyStream) : Int × KeyStream :=
  let (n, d) := d.below (hi - lo + 1).toNat
  (lo + n, d)

/-- A double in `[0, 1)`: the high 52 bits are its fraction. -/
def unitFloat (v : UInt64) : Float := Float.ofBits ((v >>> 12) ||| 0x3FF0000000000000) - 1

/-- A double from `lo` up to but not with `hi`, drawn again up to `retries` times. -/
def floatRetrying (lo hi : Float) : Nat → KeyStream → Float × KeyStream
  | 0, d => (lo, d)
  | retries + 1, d =>
    let (v, d) := d.word
    let x := unitFloat v * (hi - lo) + lo
    if x < hi then (x, d) else floatRetrying lo hi retries d

/-- A double from `lo` up to but not with `hi`. -/
def float (lo hi : Float) (d : KeyStream) : Float × KeyStream := floatRetrying lo hi maxRetries d

private theorem scaled_lt {v : UInt64} {n : Nat} (hn : 0 < n) : v.toNat * n / UInt64.size < n := by
  have hv := v.toNat_lt
  rw [Nat.div_lt_iff_lt_mul (by decide)]
  calc v.toNat * n < UInt64.size * n := Nat.mul_lt_mul_of_pos_right hv hn
    _ = n * UInt64.size := Nat.mul_comm ..

theorem belowRetrying_mem {n : Nat} (hn : 0 < n) (retries : Nat) (d : KeyStream) :
    (belowRetrying n retries d).1 < n := by
  induction retries generalizing d with
  | zero => exact scaled_lt hn
  | succ k ih =>
    simp only [belowRetrying]
    split
    · exact scaled_lt hn
    · exact ih _

/-- A draw below `n` is below `n`. -/
theorem below_mem {n : Nat} (hn : 0 < n) (d : KeyStream) : (d.below n).1 < n :=
  belowRetrying_mem hn ..

/-- An integer draw lies in its range. -/
theorem int_mem {lo hi : Int} (h : lo ≤ hi) (d : KeyStream) :
    lo ≤ (d.int lo hi).1 ∧ (d.int lo hi).1 ≤ hi := by
  have hlt := below_mem (n := (hi - lo + 1).toNat) (by omega) d
  simp only [int]
  omega

/-- The source of random numbers that reads key streams. -/
@[reducible]
def source : RandomSource where
  State := KeyStream
  ofSeed := ofSeed
  int := int
  float := float
  int_mem := int_mem

end KeyStream

end StreamGauge
