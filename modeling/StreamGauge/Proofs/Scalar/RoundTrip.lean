import StreamGauge.Proofs.Region.Bytes
import StreamGauge.Proofs.Scalar.Codec
import StreamGauge.Query.Expr

/-!
# Integers through bytes and back

An integer kind and its bytes say the same thing. Every sequence of as many bytes as the kind has
denotes one integer of its range, which is written as these bytes again (`Kind.encode_decode`); an
integer of 64 bits is written as the bytes of the only integer of the range that is congruent to it
(`Kind.wrap_emod`, `Kind.wrap_eq_self_iff`).

`integer_codec` puts this together for a buffer that is written and read at its front, and for a
cast, which writes and reads a buffer of its own.
-/

namespace StreamGauge

namespace Kind

variable {k : Kind}

/-! ## Ranges -/

/-- A kind has as many integers as its bytes can tell apart. -/
theorem intRange?_length {lo hi : Int} (hk : k.intRange? = some (lo, hi)) :
    hi - lo + 1 = twoTo (8 * k.size) := by
  cases k <;> cases hk <;> rfl

theorem isInteger_of_intRange? {lo hi : Int} (hk : k.intRange? = some (lo, hi)) :
    k.isInteger = true := by
  cases k <;> cases hk <;> rfl

/-- Wrapping keeps the low bits. -/
theorem wrap_emod (hk : k.isInteger = true) (n : Int) :
    k.wrap n % twoTo (8 * k.size) = n % twoTo (8 * k.size) := by
  obtain ⟨lo, hi, hrange⟩ := exists_intRange? hk
  rw [wrap, hrange]
  simp only [intRange?_length hrange]
  rw [Int.add_emod_emod]
  congr 1
  omega

theorem wrap_eq_self_iff (hk : k.isInteger = true) {n : Int} : k.wrap n = n ↔ k.Contains n :=
  ⟨fun h => h ▸ contains_wrap hk n, wrap_eq_self⟩

/-! ## Words and integers -/

/-- The integer of some low bits has these low bits. -/
theorem signedOf_emod {bits n : Nat} (hn : n < twoTo bits) : signedOf bits n % twoTo bits = n := by
  unfold signedOf
  split
  · exact Int.emod_eq_of_lt (by omega) (by omega)
  · rw [Int.sub_emod_right]
    exact Int.emod_eq_of_lt (by omega) (by omega)

/-- The integers of 64 low bits or fewer are integers of 64 bits. -/
theorem toInt_ofInt_signedOf {bits n : Nat} (hbits : twoTo bits ≤ twoTo 64) (hn : n < twoTo bits) :
    (Int64.ofInt (signedOf bits n)).toInt = signedOf bits n := by
  have h64 : twoTo 64 = 18446744073709551616 := rfl
  apply Int64.toInt_ofInt_of_le <;> unfold signedOf <;> split <;> omega

theorem twoTo_le (k : Kind) : twoTo (8 * k.size) ≤ twoTo 64 := by
  have := k.size_le_eight
  exact Nat.pow_le_pow_right (by decide) (by omega)

/-- A word denotes an integer of the range with the bits of the word. -/
theorem ofWord_integer (hk : k.isInteger = true) {n : Nat} (hn : n < twoTo (8 * k.size)) :
    ∃ v : Int64, k.ofWord n = .int v ∧ k.Contains v.toInt ∧ v.toInt % twoTo (8 * k.size) = n := by
  obtain ⟨lo, hi, hrange⟩ := exists_intRange? hk
  have hmem := toInt64_ofWord_range hrange hn
  have hle := k.twoTo_le
  rw [← contains_iff hrange] at hmem
  cases k with
  | f32 | f64 => cases hk
  | u8 =>
    refine ⟨Int64.ofNat n, rfl, hmem, ?_⟩
    change n < 256 at hn
    rw [← Int64.ofInt_eq_ofNat, Int64.toInt_ofInt_of_le (by omega) (by omega)]
    exact Int.emod_eq_of_lt (by omega) (Int.ofNat_lt.mpr hn)
  | i8 | i16 | i32 | i64 =>
    refine ⟨Int64.ofInt (signedOf _ n), rfl, hmem, ?_⟩
    rw [toInt_ofInt_signedOf hle hn, signedOf_emod hn]

/-- Bytes are those of the integer that they denote. -/
theorem encode_decode (hk : k.isInteger = true) {bytes : List UInt8}
    (hlength : bytes.length = k.size) :
    ∃ v : Int64, k.decode bytes = .int v ∧ k.Contains v.toInt ∧ k.encode (.int v) = bytes := by
  have hlt := Bytes.ofLittleEndian_lt bytes
  rw [hlength] at hlt
  obtain ⟨v, hv, hmem, hword⟩ := ofWord_integer hk hlt
  refine ⟨v, hv, hmem, ?_⟩
  rw [encode, word_int hk, hword, Int.toNat_natCast, ← hlength,
    Bytes.toLittleEndian_ofLittleEndian]

/-- A value of an integer kind is kept. -/
theorem convert_convert (hk : k.isInteger = true) (v : Value) :
    k.convert (k.convert v) = k.convert v := by
  obtain ⟨w, hw, -, hbytes⟩ := encode_decode hk (k.length_encode v)
  rw [convert, convert, hw, hbytes, hw]

end Kind

namespace Bytes

variable {buffer : Bytes} {k : Kind}

/-- The value at the front of a buffer is the one at its first byte. -/
theorem decode?_toList (buffer : Bytes) (k : Kind) :
    k.decode? buffer.toList = buffer.readValue? k 0 := by
  unfold Kind.decode? readValue? read?
  rw [Array.length_toList, Nat.zero_add]
  split
  · rw [Option.map_some, Array.toList_extract]
    rfl
  · rfl

/-- A value written to a buffer that is long enough comes back as its kind keeps it. -/
theorem writeValue?_front (h : k.size ≤ buffer.size) (v : Value) :
    ∃ buffer' : Bytes, buffer.writeValue? k 0 v = some buffer' ∧
      k.decode? buffer'.toList = some (k.convert v) ∧ buffer'.size = buffer.size ∧
      ∀ i, k.size ≤ i → buffer'[i]? = buffer[i]? := by
  refine ⟨buffer.put 0 (k.encode v), ?_, ?_, size_put .., fun i hi => ?_⟩
  · rw [writeValue?, write?, Kind.length_encode, if_pos (by omega)]
  · rw [decode?_toList, readValue?_put_same (by omega)]
  · rw [getElem?_put, Kind.length_encode, if_neg (by omega)]

/-- Writing the bytes that are there changes nothing. -/
theorem put_read? {offset : Nat} {bytes : List UInt8} {count : Nat}
    (h : buffer.read? offset count = some bytes) : buffer.put offset bytes = buffer := by
  obtain ⟨-, hlength, hget⟩ := read?_eq_some_iff.mp h
  apply Array.ext_getElem?
  intro i
  rw [getElem?_put]
  split
  case isTrue hi =>
    rw [← hget (i - offset) (by omega), Nat.add_sub_cancel' hi.1]
  case isFalse => rfl

end Bytes

/-- Writing an integer to a buffer that is long enough, as an integer kind, and reading it gives the
integer of the range of the kind that is congruent to it modulo the number of words of the kind, and
the integer itself exactly if it lies in the range. Only the bytes of the kind change.

Writing what was read from such a buffer changes nothing.

A cast to the kind gives what any value comes back as from such a buffer, and a second cast changes
nothing. -/
theorem integer_codec {k : Kind} {lo hi : Int} (hk : k.intRange? = some (lo, hi)) :
    (∀ (buffer : Bytes) (v : Int64), k.size ≤ buffer.size →
      ∃ (buffer' : Bytes) (w : Int64), buffer.writeValue? k 0 (.int v) = some buffer' ∧
        k.decode? buffer'.toList = some (.int w) ∧ lo ≤ w.toInt ∧ w.toInt ≤ hi ∧
        w.toInt % twoTo (8 * k.size) = v.toInt % twoTo (8 * k.size) ∧
        (w = v ↔ lo ≤ v.toInt ∧ v.toInt ≤ hi) ∧
        buffer'.size = buffer.size ∧ ∀ i, k.size ≤ i → buffer'[i]? = buffer[i]?) ∧
    (∀ buffer : Bytes, k.size ≤ buffer.size →
      ∃ w : Int64, k.decode? buffer.toList = some (.int w) ∧
        buffer.writeValue? k 0 (.int w) = some buffer) ∧
    (∀ (buffer : Bytes) (v : Value), k.size ≤ buffer.size →
      ∃ (buffer' : Bytes) (w : Value), buffer.writeValue? k 0 v = some buffer' ∧
        k.decode? buffer'.toList = some w ∧
        ∀ (e : Expr) (slots : List Value), e.eval slots = .ok v →
          (e.cast k).eval slots = .ok w) ∧
    ∀ (e : Expr) (slots : List Value),
      (Expr.cast k (.cast k e)).eval slots = (Expr.cast k e).eval slots := by
  have hint := Kind.isInteger_of_intRange? hk
  refine ⟨fun buffer v hsize => ?written, fun buffer hsize => ?kept, fun buffer v hsize => ?cast,
    fun e slots => ?twice⟩
  case written =>
    obtain ⟨buffer', hwrite, hread, hsize', hrest⟩ := Bytes.writeValue?_front hsize (.int v)
    rw [Kind.convert_int hint] at hread
    have hw := Kind.toInt_ofInt_wrap hint v.toInt
    have hmem := (Kind.contains_iff hk).mp (Kind.contains_wrap hint v.toInt)
    refine ⟨buffer', _, hwrite, hread, ?_, ?_, ?_, ?_, hsize', hrest⟩
    · rw [hw]
      exact hmem.1
    · rw [hw]
      exact hmem.2
    · rw [hw]
      exact Kind.wrap_emod hint v.toInt
    · rw [← Int64.toInt_inj, hw, Kind.wrap_eq_self_iff hint, Kind.contains_iff hk]
  case kept =>
    have hfits : 0 + k.size ≤ buffer.size := by omega
    obtain ⟨bytes, hbytes⟩ := Bytes.isSome_read? hfits
    obtain ⟨w, hw, -, hencode⟩ :=
      Kind.encode_decode hint (Bytes.read?_eq_some_iff.mp hbytes).2.1
    refine ⟨w, ?_, ?_⟩
    · rw [Bytes.decode?_toList, Bytes.readValue?, hbytes, Option.map_some, hw]
    · rw [Bytes.writeValue?, Bytes.write?, Kind.length_encode, if_pos (by omega), hencode,
        Bytes.put_read? hbytes]
  case cast =>
    obtain ⟨buffer', hwrite, hread, -⟩ := Bytes.writeValue?_front hsize v
    refine ⟨buffer', _, hwrite, hread, fun e slots he => ?_⟩
    rw [Expr.eval, he]
    rfl
  case twice =>
    simp only [Expr.eval]
    cases e.eval slots with
    | error cause => rfl
    | ok v => exact congrArg Except.ok (Kind.convert_convert hint v)

/-- A number past the 16 bits that are kept, at the front of four bytes: the other two stay. -/
theorem integer_codec_of_past_range :
    ∃ (buffer : Bytes) (w : Int64), Kind.i16.intRange? = some (-32768, 32767) ∧
      Bytes.writeValue? #[1, 2, 3, 4] .i16 0 (.int 40000) = some buffer ∧
      buffer = #[64, 156, 3, 4] ∧ Kind.i16.decode? buffer.toList = some (.int w) ∧
      w = -25536 ∧ w.toInt % 65536 = (40000 : Int64).toInt % 65536 ∧
      (Expr.cast .i16 (.cast .i16 (.const (.int 40000)))).eval [] = .ok (.int (-25536)) := by
  have hrange : Kind.i16.intRange? = some (-32768, 32767) := rfl
  obtain ⟨hwritten, -, -, htwice⟩ := integer_codec hrange
  obtain ⟨buffer, w, hwrite, hread, -, -, hmod, -⟩ := hwritten #[1, 2, 3, 4] 40000 (by decide)
  have hbytes : Bytes.writeValue? #[1, 2, 3, 4] .i16 0 (.int 40000) = some #[64, 156, 3, 4] := by
    decide
  obtain rfl : buffer = #[64, 156, 3, 4] := Option.some.inj (hwrite.symm.trans hbytes)
  obtain rfl : w = -25536 := by
    have hdecode : Kind.i16.decode? [64, 156, 3, 4] = some (.int (-25536)) := by decide
    simpa using hread.symm.trans hdecode
  exact ⟨_, _, hrange, hwrite, rfl, hread, rfl, hmod, (htwice _ _).trans rfl⟩

end StreamGauge
