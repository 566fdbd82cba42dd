import StreamGauge.Json.Tree
import StreamGauge.Scalar.Saturate
import StreamGauge.Text.Hex

/-!
# JSON forms

`JsonForm α` says how values of a type are written as JSON and which documents are read as one.
The shapes that the forms of this library are made of:

* a record is an object with its fields in order; it is also read from an array of all of them;
* a case of a type is its name, or an object with its name and content.

Reading counts down the containers that may still be nested, `room`.
-/

namespace StreamGauge

/-- A character inside a JSON string. -/
def jsonChar (c : Char) : String :=
  match c with
  | '"' => "\\\""
  | '\\' => "\\\\"
  | '\x08' => "\\b"
  | '\x0c' => "\\f"
  | '\n' => "\\n"
  | '\r' => "\\r"
  | '\t' => "\\t"
  | c => if c.toNat < 0x20 then "\\u" ++ hexText 4 c.toNat else c.toString

/-- A text as a JSON string. -/
def jsonString (s : String) : String := "\"" ++ String.join (s.toList.map jsonChar) ++ "\""

/-- An array of written items. -/
def jsonArray (items : List String) : String := "[" ++ ",".intercalate items ++ "]"

/-- An object of written fields. -/
def jsonObject (fields : List (String × String)) : String :=
  "\x7b" ++ ",".intercalate (fields.map fun (k, v) => jsonString k ++ ":" ++ v) ++ "\x7d"

/-- A case with content. -/
def jsonCase (name content : String) : String := jsonObject [(name, content)]

/-- How values of a type are written and read. -/
class JsonForm (α : Type) where
  write : α → String
  read? : (room : Nat) → JsonTree → Option α

namespace JsonForm

/-- Containers that may be nested in a document that is read. -/
def maxRoom : Nat := 127

/-- The value of a text. -/
def ofText? (α : Type) [JsonForm α] (s : String) : Option α :=
  (JsonTree.parse? s).bind (read? maxRoom)

end JsonForm

namespace JsonTree

/-- An integer from `lo` to `hi`. -/
def int? (lo hi : Int) : JsonTree → Option Int
  | number n => n.toInt?.filter fun i => lo ≤ i ∧ i ≤ hi
  | _ => none

/-- The items of an array, of which there are `n`. -/
def tuple? (n : Nat) (room : Nat) : JsonTree → Option (List JsonTree × Nat)
  | array vs => if vs.length = n ∧ 0 < room then some (vs, room - 1) else none
  | _ => none

/-- The name of a case and its content, if it has any. -/
def case? (room : Nat) : JsonTree → Option (String × Option JsonTree × Nat)
  | string name? => name?.map (·, none, room)
  | object [(some name, content)] => if 0 < room then some (name, some content, room - 1) else none
  | _ => none

/-- A case without content may have a null. -/
def isBare : Option JsonTree → Bool
  | none => true
  | some null => true
  | some _ => false

/-- The only value of a field, if it is there once; an inner `none` if it is not there. -/
def field? (fields : List (String × JsonTree)) (name : String) : Option (Option JsonTree) :=
  match fields.filter (·.1 = name) with
  | [] => some none
  | [f] => some (some f.2)
  | _ => none

/-- How lenient a record is. -/
structure RecordRule where
  /-- Fields of other names are passed over. -/
  othersAllowed : Bool
  /-- An array may leave out fields at its end. -/
  shortAllowed : Bool

/-- The values of the fields of a record, in the order of the names. -/
def record? (rule : RecordRule) (names : List String) (room : Nat) :
    JsonTree → Option (List (Option JsonTree) × Nat)
  | object fields => do
    if room = 0 then none
    let fields ← fields.mapM fun (k, v) => k.map (·, v)
    if !rule.othersAllowed ∧ fields.any (!names.contains ·.1) then none
    return (← names.mapM (field? fields), room - 1)
  | array vs =>
    if room = 0 ∨ names.length < vs.length then none
    else if vs.length < names.length ∧ !rule.shortAllowed then none
    else some (vs.map some ++ List.replicate (names.length - vs.length) none, room - 1)
  | _ => none

/-- Records that pass over other fields and need all of theirs. -/
def plainRecord : RecordRule := ⟨true, false⟩

end JsonTree

open JsonTree

instance : JsonForm Nat where
  write n := toString n
  read? _ t := (t.int? 0 (UInt64.size - 1)).map Int.toNat

instance : JsonForm UInt64 where
  write n := toString n
  read? _ t := (t.int? 0 (UInt64.size - 1)).map fun i => UInt64.ofNat i.toNat

instance : JsonForm UInt32 where
  write n := toString n
  read? _ t := (t.int? 0 (UInt32.size - 1)).map fun i => UInt32.ofNat i.toNat

instance : JsonForm Int where
  write n := toString n
  read? _ t := t.int? minInt64 maxInt64

instance : JsonForm Int64 where
  write n := toString n.toInt
  read? _ t := (t.int? minInt64 maxInt64).map Int64.ofInt

instance : JsonForm Float where
  write x := if x.isFinite then Decimal.Style.json.text x else "null"
  read?
    | _, .number n => n.toFloat?
    | _, _ => none

instance : JsonForm Bool where
  write b := if b then "true" else "false"
  read?
    | _, .bool b => some b
    | _, _ => none

instance : JsonForm String where
  write := jsonString
  read?
    | _, .string s? => s?
    | _, _ => none

instance [JsonForm α] : JsonForm (Option α) where
  write
    | some a => JsonForm.write a
    | none => "null"
  read?
    | _, .null => some none
    | room, t => (JsonForm.read? room t).map some

/-- The form of a type whose cases have no content: their names. -/
@[reducible]
def JsonForm.ofNames (name : α → String) (all : List (String × α)) : JsonForm α where
  write a := jsonString (name a)
  read? room t := do
    let (name, content, _) ← t.case? room
    if !isBare content then none
    (all.find? (·.1 = name)).map (·.2)

end StreamGauge
