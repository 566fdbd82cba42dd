import StreamGauge.Scalar.Power

/-!
# Byte stores

Numbers as little-endian bytes, and an array of bytes read and written at an offset.

* `ofLittleEndian_toLittleEndian`: reading written bytes gives the number modulo its width;
* `toLittleEndian_ofLittleEndian`: writing what was read gives the same bytes.

A read or write that is not wholly inside the array has no result.
-/

namespace StreamGauge

/-- A store of bytes. -/
abbrev Bytes := Array UInt8

namespace Bytes

/-- The lowest `width` bytes of `n`, lowest first. -/
def toLittleEndian : (width : Nat) → (n : Nat) → List UInt8
  | 0, _ => []
  | width + 1, n => UInt8.ofNat n :: toLittleEndian width (n / 256)

/-- The number of which these are the bytes, lowest first. -/
def ofLittleEndian : List UInt8 → Nat
  | [] => 0
  | b :: rest => b.toNat + 256 * ofLittleEndian rest

@[simp]
theorem length_toLittleEndian (width n : Nat) : (toLittleEndian width n).length = width := by
  induction width generalizing n with
  | zero => rfl
  | succ w ih => simp [toLittleEndian, ih]

theorem twoTo_byte (width : Nat) : twoTo (8 * (width + 1)) = 256 * twoTo (8 * width) := by
  rw [Nat.mul_add, Nat.add_comm, twoTo_add]
  rfl

theorem ofLittleEndian_lt (bs : List UInt8) : ofLittleEndian bs < twoTo (8 * bs.length) := by
  induction bs with
  | nil => exact twoTo_pos _
  | cons b rest ih =>
    have hb := b.toNat_lt
    simp only [ofLittleEndian, List.length_cons, twoTo_byte]
    omega

theorem ofLittleEndian_toLittleEndian (width n : Nat) :
    ofLittleEndian (toLittleEndian width n) = n % twoTo (8 * width) := by
  induction width generalizing n with
  | zero => simp [toLittleEndian, ofLittleEndian, twoTo_zero, Nat.mod_one]
  | succ w ih =>
    simp only [toLittleEndian, ofLittleEndian, ih, UInt8.toNat_ofNat', twoTo_byte]
    exact (Nat.mod_mul (a := 256)).symm

theorem toLittleEndian_ofLittleEndian (bs : List UInt8) :
    toLittleEndian bs.length (ofLittleEndian bs) = bs := by
  induction bs with
  | nil => rfl
  | cons b rest ih =>
    have hb := b.toNat_lt
    have hdiv : (b.toNat + 256 * ofLittleEndian rest) / 256 = ofLittleEndian rest := by omega
    have hmod : UInt8.ofNat (b.toNat + 256 * ofLittleEndian rest) = b := by
      apply UInt8.toNat_inj.1
      rw [UInt8.toNat_ofNat']
      omega
    simp only [ofLittleEndian, List.length_cons, toLittleEndian, hdiv, hmod, ih]

/-- `count` zero bytes. -/
def zeroed (count : Nat) : Bytes := Array.replicate count 0

/-- The `count` bytes from `offset` on. -/
def read? (store : Bytes) (offset count : Nat) : Option (List UInt8) :=
  if offset + count ≤ store.size then some (store.extract offset (offset + count)).toList else none

/-- Puts bytes one after the other from `offset` on; what would fall outside is dropped. -/
def put (store : Bytes) (offset : Nat) : List UInt8 → Bytes
  | [] => store
  | b :: rest => put (store.setIfInBounds offset b) (offset + 1) rest

/-- The store with `bytes` from `offset` on. -/
def write? (store : Bytes) (offset : Nat) (bytes : List UInt8) : Option Bytes :=
  if offset + bytes.length ≤ store.size then some (store.put offset bytes) else none

@[simp]
theorem size_put (store : Bytes) (offset : Nat) (bytes : List UInt8) :
    (store.put offset bytes).size = store.size := by
  induction bytes generalizing store offset with
  | nil => rfl
  | cons b rest ih => simp [put, ih]

end Bytes

end StreamGauge
