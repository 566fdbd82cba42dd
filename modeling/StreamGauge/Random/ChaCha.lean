/-!
# ChaCha key streams

Random numbers are the words of a ChaCha key stream of twelve rounds: `ChaCha.block key n` is its
block `n`, sixteen words long. `ChaCha.expandSeed` makes the key from a 64-bit seed. A stream is
read by position, so it has no state but its key.
-/

namespace StreamGauge.ChaCha

/-- The state of the cipher. -/
abbrev Words := Vector UInt32 16

/-- The word rotated to the left by `n` bits. -/
def rotateLeft (x n : UInt32) : UInt32 := (x <<< n) ||| (x >>> (32 - n))

/-- Mixes four words. -/
def quarterRound (a b c d : UInt32) : UInt32 × UInt32 × UInt32 × UInt32 :=
  let a := a + b
  let d := rotateLeft (d ^^^ a) 16
  let c := c + d
  let b := rotateLeft (b ^^^ c) 12
  let a := a + b
  let d := rotateLeft (d ^^^ a) 8
  let c := c + d
  let b := rotateLeft (b ^^^ c) 7
  (a, b, c, d)

/-- A round on the columns and a round on the diagonals of the four by four square of words. -/
def doubleRound (s : Words) : Words :=
  let (x0, x4, x8, x12) := quarterRound s[0] s[4] s[8] s[12]
  let (x1, x5, x9, x13) := quarterRound s[1] s[5] s[9] s[13]
  let (x2, x6, x10, x14) := quarterRound s[2] s[6] s[10] s[14]
  let (x3, x7, x11, x15) := quarterRound s[3] s[7] s[11] s[15]
  let (x0, x5, x10, x15) := quarterRound x0 x5 x10 x15
  let (x1, x6, x11, x12) := quarterRound x1 x6 x11 x12
  let (x2, x7, x8, x13) := quarterRound x2 x7 x8 x13
  let (x3, x4, x9, x14) := quarterRound x3 x4 x9 x14
  #v[x0, x1, x2, x3, x4, x5, x6, x7, x8, x9, x10, x11, x12, x13, x14, x15]

/-- Some double rounds. -/
def doubleRounds : Nat → Words → Words
  | 0, s => s
  | n + 1, s => doubleRounds n (doubleRound s)

/-- The constants, the key, the number of the block in 64 bits, and 64 zero bits. -/
def initial (key : Vector UInt32 8) (n : UInt64) : Words :=
  #v[0x61707865, 0x3320646e, 0x79622d32, 0x6b206574, key[0], key[1], key[2], key[3], key[4],
    key[5], key[6], key[7], n.toUInt32, (n >>> 32).toUInt32, 0, 0]

/-- Block `n` of the key stream. -/
def block (key : Vector UInt32 8) (n : UInt64) : Words :=
  let start := initial key n
  (doubleRounds 6 start).zipWith (· + ·) start

/-- The next state of the generator that expands seeds. -/
def nextSeed (s : UInt64) : UInt64 := s * 6364136223846793005 + 11634580027462260723

/-- The word that a state of the generator gives: some of its middle bits, rotated by the highest
ones. -/
def seedWord (s : UInt64) : UInt32 :=
  let x := (((s >>> 18) ^^^ s) >>> 27).toUInt32
  rotateLeft x ((32 : UInt32) - (s >>> 59).toUInt32)

/-- The first `n` words of a seed. -/
def seedWords : Nat → UInt64 → List UInt32
  | 0, _ => []
  | n + 1, s => seedWord (nextSeed s) :: seedWords n (nextSeed s)

theorem length_seedWords (n : Nat) (s : UInt64) : (seedWords n s).length = n := by
  induction n generalizing s with
  | zero => rfl
  | succ n ih => simp [seedWords, ih]

/-- The key of a seed. -/
def expandSeed (seed : UInt64) : Vector UInt32 8 :=
  ⟨(seedWords 8 seed).toArray, by simp [length_seedWords]⟩

end StreamGauge.ChaCha
