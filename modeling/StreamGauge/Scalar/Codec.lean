import StreamGauge.Scalar.Bytes
import StreamGauge.Scalar.Kind
import StreamGauge.Scalar.Value

/-!
# Elements as bytes

`Kind.encode` gives the bytes of a value stored as a kind, lowest first; `Kind.decode?` reads the
value at the front of some bytes. An integer kind keeps the low bits of an integer in two's
complement; a floating point kind keeps the nearest number it has.
-/

namespace StreamGauge

/-- The integer that `bits` bits of two's complement denote. -/
def signedOf (bits n : Nat) : Int := if 2 * n < twoTo bits then n else n - twoTo bits

namespace Kind

/-- The bits of a value stored as this kind, as a number. -/
def word (k : Kind) (v : Value) : Nat :=
  match k with
  | f32 => v.toDouble.narrow.toNat
  | f64 => v.toDouble.bits.toNat
  | _ => (v.toInt64.toInt % twoTo (8 * k.size)).toNat

/-- The value that bits of this kind denote. -/
def ofWord (k : Kind) (n : Nat) : Value :=
  match k with
  | f32 => .float (.ofSingle (UInt32.ofNat n))
  | f64 => .float ⟨UInt64.ofNat n⟩
  | u8 => .int (Int64.ofNat n)
  | _ => .int (Int64.ofInt (signedOf (8 * k.size) n))

/-- The bytes of a value stored as this kind. -/
def encode (k : Kind) (v : Value) : List UInt8 := Bytes.toLittleEndian k.size (k.word v)

/-- The value in bytes of this kind. -/
def decode (k : Kind) (bytes : List UInt8) : Value := k.ofWord (Bytes.ofLittleEndian bytes)

/-- The value at the front of some bytes, if there are enough. -/
def decode? (k : Kind) (bytes : List UInt8) : Option Value :=
  if k.size ≤ bytes.length then some (k.decode (bytes.take k.size)) else none

@[simp]
theorem length_encode (k : Kind) (v : Value) : (k.encode v).length = k.size :=
  Bytes.length_toLittleEndian ..

/-- The value after storing it as this kind. -/
def convert (k : Kind) (v : Value) : Value := k.decode (k.encode v)

end Kind

namespace Bytes

/-- The element of kind `k` stored at `offset`. -/
def readValue? (store : Bytes) (k : Kind) (offset : Nat) : Option Value :=
  (store.read? offset k.size).map k.decode

/-- The store with a value stored as kind `k` at `offset`. -/
def writeValue? (store : Bytes) (k : Kind) (offset : Nat) (v : Value) : Option Bytes :=
  store.write? offset (k.encode v)

end Bytes

end StreamGauge
