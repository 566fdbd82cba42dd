import StreamGauge.Json.Numeral

/-!
# JSON documents

`JsonTree.parse?` reads a JSON document as a tree. Numbers stay as they are written, and a string
with a lone surrogate is in the tree without a text: such parts are refused only where they are
used. Blanks are the space, the tab and the two line ends.
-/

namespace StreamGauge

/-- A JSON document. A string or key has no text if it holds a lone surrogate. -/
inductive JsonTree where
  | null
  | bool (b : Bool)
  | number (n : Numeral)
  | string (text? : Option String)
  | array (items : List JsonTree)
  | object (fields : List (Option String × JsonTree))

namespace JsonTree

/-- The characters after the blanks. -/
def skipBlanks (cs : List Char) : List Char :=
  cs.dropWhile fun c => c = ' ' ∨ c = '\t' ∨ c = '\n' ∨ c = '\r'

/-- The value of a decimal digit. -/
def digit? (c : Char) : Option Nat := if c.isDigit then some (c.toNat - '0'.toNat) else none

/-- The digits at the front. -/
def takeDigits : List Char → List Nat × List Char
  | [] => ([], [])
  | c :: rest =>
    match digit? c with
    | some d =>
      let (ds, rest) := takeDigits rest
      (d :: ds, rest)
    | none => ([], c :: rest)

/-- At least one digit. -/
def someDigits (cs : List Char) : Option (List Nat × List Char) :=
  match takeDigits cs with
  | ([], _) => none
  | r => some r

/-- A number: no zero in front of further digits, and digits around a point. -/
def readNumeral (cs : List Char) : Option (Numeral × List Char) := do
  let (negative, cs) := match cs with
    | '-' :: rest => (true, rest)
    | _ => (false, cs)
  let (whole, cs) ← someDigits cs
  if whole.head? = some 0 ∧ whole.length > 1 then none
  let (fraction?, cs) ← match cs with
    | '.' :: rest => (someDigits rest).map fun (ds, rest) => (some ds, rest)
    | _ => some (none, cs)
  let (exponent?, cs) ← match cs with
    | 'e' :: rest | 'E' :: rest =>
      let (negative, rest) := match rest with
        | '-' :: rest => (true, rest)
        | '+' :: rest => (false, rest)
        | _ => (false, rest)
      (someDigits rest).map fun (ds, rest) => (some (negative, ds), rest)
    | _ => some (none, cs)
  return (⟨negative, whole, fraction?, exponent?⟩, cs)

/-- The value of a hexadecimal digit. -/
def hexDigit? (c : Char) : Option Nat :=
  if c.isDigit then some (c.toNat - '0'.toNat)
  else if 'a' ≤ c ∧ c ≤ 'f' then some (c.toNat - 'a'.toNat + 10)
  else if 'A' ≤ c ∧ c ≤ 'F' then some (c.toNat - 'A'.toNat + 10)
  else none

/-- Four hexadecimal digits. -/
def hexQuad : List Char → Option (Nat × List Char)
  | a :: b :: c :: d :: rest => do
    return (((← hexDigit? a) * 16 + (← hexDigit? b)) * 256 + (← hexDigit? c) * 16 + (← hexDigit? d),
      rest)
  | _ => none

/-- The character that a letter stands for after a backslash. -/
def escaped? : Char → Option Char
  | '"' => some '"'
  | '\\' => some '\\'
  | '/' => some '/'
  | 'b' => some '\x08'
  | 'f' => some '\x0c'
  | 'n' => some '\n'
  | 'r' => some '\r'
  | 't' => some '\t'
  | _ => none

/-- The low surrogate at the front. -/
def lowSurrogate? : List Char → Option (Nat × List Char)
  | '\\' :: 'u' :: rest => do
    let (low, rest) ← hexQuad rest
    if 0xDC00 ≤ low ∧ low < 0xE000 then some (low, rest) else none
  | _ => none

/-- A code unit written in hexadecimal, with the low surrogate that belongs to it. The character
is missing if a surrogate stands alone. -/
def unicodeEscape (cs : List Char) : Option (Option Char × List Char) := do
  let (unit, rest) ← hexQuad cs
  if 0xD800 ≤ unit ∧ unit < 0xDC00 then
    match lowSurrogate? rest with
    | some (low, rest) =>
      return (some (Char.ofNat (0x10000 + (unit - 0xD800) * 0x400 + (low - 0xDC00))), rest)
    | none => return (none, rest)
  else if 0xDC00 ≤ unit ∧ unit < 0xE000 then return (none, rest)
  else return (some (Char.ofNat unit), rest)

/-- One more character of a string, if both are there. -/
def snoc (text? : Option (List Char)) (c? : Option Char) : Option (List Char) := do
  return (← c?) :: (← text?)

/-- The rest of a string after its opening quote; what was read of it comes last first. Controls
are not allowed. -/
def stringRest : (fuel : Nat) → Option (List Char) → List Char → Option (Option String × List Char)
  | 0, _, _ => none
  | fuel + 1, text?, cs =>
    match cs with
    | [] => none
    | '"' :: rest => some (text?.map fun text => String.ofList text.reverse, rest)
    | '\\' :: 'u' :: rest => do
      let (c?, rest) ← unicodeEscape rest
      stringRest fuel (snoc text? c?) rest
    | '\\' :: e :: rest => do
      let c ← escaped? e
      stringRest fuel (snoc text? (some c)) rest
    | c :: rest => if c.toNat < 0x20 then none else stringRest fuel (snoc text? (some c)) rest

/-- A string after its opening quote. -/
def readString (cs : List Char) : Option (Option String × List Char) :=
  stringRest (cs.length + 1) (some []) cs

mutual

/-- A value, with blanks before it. The fuel bounds the characters that are read. -/
def readValue : (fuel : Nat) → List Char → Option (JsonTree × List Char)
  | 0, _ => none
  | fuel + 1, cs =>
    match skipBlanks cs with
    | 'n' :: 'u' :: 'l' :: 'l' :: rest => some (.null, rest)
    | 't' :: 'r' :: 'u' :: 'e' :: rest => some (.bool true, rest)
    | 'f' :: 'a' :: 'l' :: 's' :: 'e' :: rest => some (.bool false, rest)
    | '"' :: rest => (readString rest).map fun (s, rest) => (.string s, rest)
    | '[' :: rest =>
      match skipBlanks rest with
      | ']' :: rest => some (.array [], rest)
      | _ => (readItems fuel rest).map fun (vs, rest) => (.array vs, rest)
    | '\x7b' :: rest =>
      match skipBlanks rest with
      | '\x7d' :: rest => some (.object [], rest)
      | _ => (readFields fuel rest).map fun (fs, rest) => (.object fs, rest)
    | cs => (readNumeral cs).map fun (n, rest) => (.number n, rest)

/-- The items of an array, at least one, up to the closing bracket. -/
def readItems : (fuel : Nat) → List Char → Option (List JsonTree × List Char)
  | 0, _ => none
  | fuel + 1, cs => do
    let (v, rest) ← readValue fuel cs
    match skipBlanks rest with
    | ']' :: rest => return ([v], rest)
    | ',' :: rest =>
      let (vs, rest) ← readItems fuel rest
      return (v :: vs, rest)
    | _ => none

/-- The fields of an object, at least one, up to the closing brace. -/
def readFields : (fuel : Nat) → List Char → Option (List (Option String × JsonTree) × List Char)
  | 0, _ => none
  | fuel + 1, cs =>
    match skipBlanks cs with
    | '"' :: rest => do
      let (key, rest) ← readString rest
      match skipBlanks rest with
      | ':' :: rest =>
        let (v, rest) ← readValue fuel rest
        match skipBlanks rest with
        | '\x7d' :: rest => return ([(key, v)], rest)
        | ',' :: rest =>
          let (fs, rest) ← readFields fuel rest
          return ((key, v) :: fs, rest)
        | _ => none
      | _ => none
    | _ => none

end

/-- The document of a text that holds nothing else. -/
def parse? (s : String) : Option JsonTree :=
  let cs := s.toList
  match readValue (2 * cs.length + 2) cs with
  | some (v, rest) => if (skipBlanks rest).isEmpty then some v else none
  | none => none

end JsonTree

end StreamGauge
