import StreamGauge.Scalar.Codec

/-!
# The range of a kind

What is read as an integer kind lies in the range of that kind (`Kind.toInt64_decode_range`),
whatever the bytes. An integer stored as a kind comes back as `Kind.wrap` brings it into the range
(`Kind.convert_int`), and so as itself if it lies in it.
-/

namespace StreamGauge

namespace Kind

private theorem toInt_ofInt_of_range {n : Int} (lower : minInt64 ≤ n) (upper : n ≤ maxInt64) :
    (Int64.ofInt n).toInt = n := by
  unfold minInt64 at lower
  unfold maxInt64 at upper
  exact Int64.toInt_ofInt_of_le (by omega) (by omega)

theorem toInt64_ofWord_range {k : Kind} {lo hi : Int} (hk : k.intRange? = some (lo, hi)) {n : Nat}
    (hn : n < twoTo (8 * k.size)) :
    lo ≤ (k.ofWord n).toInt64.toInt ∧ (k.ofWord n).toInt64.toInt ≤ hi := by
  cases k with
  | f32 => cases hk
  | f64 => cases hk
  | u8 =>
    cases hk
    change n < 256 at hn
    change 0 ≤ (Int64.ofNat n).toInt ∧ (Int64.ofNat n).toInt ≤ 255
    rw [← Int64.ofInt_eq_ofNat, toInt_ofInt_of_range (by unfold minInt64; omega)
      (by unfold maxInt64; omega)]
    omega
  | i8 =>
    cases hk
    change n < 256 at hn
    change -128 ≤ (Int64.ofInt (if 2 * n < 256 then (n : Int) else n - 256)).toInt ∧
      (Int64.ofInt (if 2 * n < 256 then (n : Int) else n - 256)).toInt ≤ 127
    split <;> rw [toInt_ofInt_of_range (by unfold minInt64; omega) (by unfold maxInt64; omega)] <;>
      omega
  | i16 =>
    cases hk
    change n < 65536 at hn
    change -32768 ≤ (Int64.ofInt (if 2 * n < 65536 then (n : Int) else n - 65536)).toInt ∧
      (Int64.ofInt (if 2 * n < 65536 then (n : Int) else n - 65536)).toInt ≤ 32767
    split <;> rw [toInt_ofInt_of_range (by unfold minInt64; omega) (by unfold maxInt64; omega)] <;>
      omega
  | i32 =>
    cases hk
    change n < 4294967296 at hn
    change -2147483648 ≤
        (Int64.ofInt (if 2 * n < 4294967296 then (n : Int) else n - 4294967296)).toInt ∧
      (Int64.ofInt (if 2 * n < 4294967296 then (n : Int) else n - 4294967296)).toInt ≤ 2147483647
    split <;> rw [toInt_ofInt_of_range (by unfold minInt64; omega) (by unfold maxInt64; omega)] <;>
      omega
  | i64 =>
    cases hk
    have hlower := ((i64.ofWord n).toInt64).le_toInt
    have hupper := ((i64.ofWord n).toInt64).toInt_lt
    unfold minInt64 maxInt64
    omega

theorem toInt64_decode_range {k : Kind} {lo hi : Int} (hk : k.intRange? = some (lo, hi))
    {bytes : List UInt8} (hlength : bytes.length = k.size) :
    lo ≤ (k.decode bytes).toInt64.toInt ∧ (k.decode bytes).toInt64.toInt ≤ hi :=
  toInt64_ofWord_range hk (by rw [← hlength]; exact Bytes.ofLittleEndian_lt bytes)

/-- The integer of the range of a kind that is the same modulo the length of the range. -/
def wrap (k : Kind) (n : Int) : Int :=
  match k.intRange? with
  | some (lo, hi) => lo + (n - lo) % (hi - lo + 1)
  | none => n

/-- Whether the integer is one of an integer kind. -/
def Contains (k : Kind) (n : Int) : Prop := ∃ lo hi, k.intRange? = some (lo, hi) ∧ lo ≤ n ∧ n ≤ hi

theorem contains_iff {k : Kind} {lo hi n : Int} (hk : k.intRange? = some (lo, hi)) :
    k.Contains n ↔ lo ≤ n ∧ n ≤ hi := by
  simp only [Contains, hk, Option.some.injEq, Prod.mk.injEq]
  constructor
  · rintro ⟨lo', hi', ⟨rfl, rfl⟩, hmem⟩
    exact hmem
  · intro hmem
    exact ⟨lo, hi, ⟨rfl, rfl⟩, hmem⟩

/-- Zero and one are integers of every integer kind. -/
theorem intRange?_zero {k : Kind} {lo hi : Int} (hk : k.intRange? = some (lo, hi)) :
    lo ≤ 0 ∧ 1 ≤ hi := by
  cases k <;> cases hk <;> decide

theorem exists_intRange? {k : Kind} (hk : k.isInteger = true) :
    ∃ lo hi, k.intRange? = some (lo, hi) := by
  cases k with
  | f32 | f64 => cases hk
  | _ => exact ⟨_, _, rfl⟩

theorem Contains.within {k : Kind} {n : Int} (h : k.Contains n) : minInt64 ≤ n ∧ n ≤ maxInt64 := by
  obtain ⟨lo, hi, hk, hlo, hhi⟩ := h
  unfold minInt64 maxInt64
  cases k with
  | f32 => cases hk
  | f64 => cases hk
  | i64 =>
    cases hk
    exact ⟨hlo, hhi⟩
  | _ =>
    cases hk
    omega

theorem contains_wrap {k : Kind} (hk : k.isInteger = true) (n : Int) : k.Contains (k.wrap n) := by
  obtain ⟨lo, hi, hrange⟩ := exists_intRange? hk
  have hzero := intRange?_zero hrange
  have hnonneg := Int.emod_nonneg (n - lo) (show hi - lo + 1 ≠ 0 by omega)
  have hlt := Int.emod_lt_of_pos (n - lo) (show 0 < hi - lo + 1 by omega)
  simp only [contains_iff hrange, wrap, hrange]
  omega

theorem wrap_eq_self {k : Kind} {n : Int} (h : k.Contains n) : k.wrap n = n := by
  obtain ⟨lo, hi, hk, hlo, hhi⟩ := h
  simp only [wrap, hk]
  rw [Int.emod_eq_of_lt (by omega) (by omega)]
  omega

theorem Contains.toInt_ofInt {k : Kind} {n : Int} (h : k.Contains n) :
    (Int64.ofInt n).toInt = n :=
  toInt_ofInt_of_range h.within.1 h.within.2

/-- A number of a kind is stored as it is. -/
theorem wrap_ofInt {k : Kind} {n : Int} (h : k.Contains n) : k.wrap (Int64.ofInt n).toInt = n := by
  rw [h.toInt_ofInt, wrap_eq_self h]

private theorem toInt_ofInt_add_emod {lo len n : Int} (hlo : minInt64 ≤ lo) (hpos : 0 < len)
    (hhi : lo + len - 1 ≤ maxInt64) :
    (Int64.ofInt (lo + n % len)).toInt = lo + n % len := by
  have hnonneg := Int.emod_nonneg n (Int.ne_of_gt hpos)
  have hlt := Int.emod_lt_of_pos n hpos
  exact toInt_ofInt_of_range (by omega) (by omega)

/-- A wrapped integer is one of the kind, and so one of 64 bits. -/
theorem toInt_ofInt_wrap {k : Kind} (hk : k.isInteger = true) (n : Int) :
    (Int64.ofInt (k.wrap n)).toInt = k.wrap n := by
  cases k with
  | f32 => cases hk
  | f64 => cases hk
  | _ => exact toInt_ofInt_add_emod (by decide) (by decide) (by decide)

theorem word_int {k : Kind} (hk : k.isInteger = true) (v : Int64) :
    k.word (.int v) = (v.toInt % twoTo (8 * k.size)).toNat := by
  cases k with
  | f32 => cases hk
  | f64 => cases hk
  | _ => rfl

/-- The low bits in two's complement denote the integer, wrapped around at half their number. -/
theorem signedOf_toNat_emod {bits : Nat} {half : Int} (hbits : (twoTo bits : Int) = 2 * half)
    (n : Int) : signedOf bits ((n % twoTo bits).toNat % twoTo bits) =
      -half + (n + half) % (2 * half) := by
  have hpos : (0 : Int) < twoTo bits := Int.natCast_pos.mpr (twoTo_pos bits)
  have hnonneg := Int.emod_nonneg n (Int.ne_of_gt hpos)
  have hlt := Int.emod_lt_of_pos n hpos
  have hmod : (n + half) % (2 * half) = (n % twoTo bits + half) % (2 * half) := by
    rw [hbits, Int.emod_add_emod]
  rw [hmod]
  generalize n % twoTo bits = low at hnonneg hlt
  rw [Nat.mod_eq_of_lt (by omega)]
  -- The lower half of the words stand for themselves, the upper half for what lies below zero.
  unfold signedOf
  split
  case isTrue hsmall =>
    rw [Int.emod_eq_of_lt (by omega) (by omega)]
    omega
  case isFalse hlarge =>
    rw [← Int.sub_emod_right, Int.emod_eq_of_lt (by omega) (by omega)]
    omega

/-- An integer comes back wrapped into the range of the kind. -/
theorem convert_int {k : Kind} (hk : k.isInteger = true) (v : Int64) :
    k.convert (.int v) = .int (Int64.ofInt (k.wrap v.toInt)) := by
  rw [convert, decode, encode, Bytes.ofLittleEndian_toLittleEndian, word_int hk]
  cases k with
  | f32 => cases hk
  | f64 => cases hk
  | u8 =>
    change Value.int (Int64.ofInt (((v.toInt % 256).toNat % 256 : Nat) : Int)) =
      .int (Int64.ofInt (0 + (v.toInt - 0) % 256))
    rw [show (((v.toInt % 256).toNat % 256 : Nat) : Int) = 0 + (v.toInt - 0) % 256 by omega]
  | i8 =>
    have h : (twoTo 8 : Int) = 2 * 128 := rfl
    exact congrArg (Value.int <| Int64.ofInt ·) (signedOf_toNat_emod h _)
  | i16 =>
    have h : (twoTo 16 : Int) = 2 * 32768 := rfl
    exact congrArg (Value.int <| Int64.ofInt ·) (signedOf_toNat_emod h _)
  | i32 =>
    have h : (twoTo 32 : Int) = 2 * 2147483648 := rfl
    exact congrArg (Value.int <| Int64.ofInt ·) (signedOf_toNat_emod h _)
  | i64 =>
    have h : (twoTo 64 : Int) = 2 * 9223372036854775808 := rfl
    exact congrArg (Value.int <| Int64.ofInt ·) (signedOf_toNat_emod h _)

theorem size_le_four {k : Kind} (h : k.size < 8) : k.size ≤ 4 := by
  cases k <;> first | decide | exact absurd h (by decide)

/-- Integers of at most four bytes leave room for many sums within 64 bits. -/
theorem intRange?_of_size_le {k : Kind} (hk : k.isInteger = true) (hsize : k.size ≤ 4) :
    ∃ lo hi, k.intRange? = some (lo, hi) ∧ -2147483648 ≤ lo ∧ hi ≤ 2147483647 := by
  cases k with
  | i64 => exact absurd hsize (by decide)
  | f32 => cases hk
  | f64 => cases hk
  | _ => exact ⟨_, _, rfl, by decide, by decide⟩

end Kind

end StreamGauge
