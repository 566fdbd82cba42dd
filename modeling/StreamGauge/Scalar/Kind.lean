import StreamGauge.Scalar.Saturate

/-!
# Element kinds

A region stores elements of one `Kind`: an integer or a floating point number of a fixed width.
`Kind.intRange?` gives the integers that an integer kind holds.
-/

namespace StreamGauge

/-- What one stored element is. -/
inductive Kind where
  | i8
  | i16
  | i32
  | i64
  | u8
  | f32
  | f64
deriving DecidableEq, Repr

namespace Kind

/-- Every kind. -/
def all : List Kind := [i8, i16, i32, i64, u8, f32, f64]

/-- Bytes of one element. -/
def size : Kind → Nat
  | i8 | u8 => 1
  | i16 => 2
  | i32 | f32 => 4
  | i64 | f64 => 8

/-- Whether the kind holds floating point numbers. -/
def isFloat : Kind → Bool
  | f32 | f64 => true
  | _ => false

/-- Whether the kind holds integers. -/
def isInteger (k : Kind) : Bool := !k.isFloat

/-- The first and the last integer of an integer kind. -/
def intRange? : Kind → Option (Int × Int)
  | i8 => some (-128, 127)
  | i16 => some (-32768, 32767)
  | i32 => some (-2147483648, 2147483647)
  | i64 => some (minInt64, maxInt64)
  | u8 => some (0, 255)
  | f32 | f64 => none

/-- The short name: the sort of number and its bits. -/
def name : Kind → String
  | i8 => "i8"
  | i16 => "i16"
  | i32 => "i32"
  | i64 => "i64"
  | u8 => "u8"
  | f32 => "f32"
  | f64 => "f64"

/-- The kind of a short name. -/
def ofName? (s : String) : Option Kind := all.find? (·.name == s)

instance : ToString Kind := ⟨name⟩

theorem size_pos (k : Kind) : 0 < k.size := by cases k <;> decide

theorem size_le_eight (k : Kind) : k.size ≤ 8 := by cases k <;> decide

end Kind

end StreamGauge
