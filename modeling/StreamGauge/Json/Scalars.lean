import StreamGauge.Json.Form
import StreamGauge.Region.Layout
import StreamGauge.Scalar.Value

/-!
# JSON forms of elements and layouts
-/

namespace StreamGauge

open JsonTree

instance : JsonForm Kind := .ofNames Kind.name (Kind.all.map fun k => (k.name, k))

instance : JsonForm Value where
  write
    | .int v => jsonCase "Int" (JsonForm.write v)
    | .float x => jsonCase "Float" (JsonForm.write x.toFloat)
    | .bool b => jsonCase "Bool" (JsonForm.write b)
  read? room t := do
    let (name, content?, room) ← t.case? room
    let content ← content?
    match name with
    | "Int" => (JsonForm.read? room content).map .int
    | "Float" => (JsonForm.read? room content).map .ofFloat
    | "Bool" => (JsonForm.read? room content).map .bool
    | _ => none

/-- The form of a record of two fields. -/
@[reducible]
def JsonForm.pair [JsonForm β] [JsonForm γ] (first second : String) (make : β → γ → α)
    (parts : α → β × γ) : JsonForm α where
  write a := jsonObject [(first, JsonForm.write (parts a).1), (second, JsonForm.write (parts a).2)]
  read? room t := do
    match ← t.record? plainRecord [first, second] room with
    | ([some b, some c], room) =>
      return make (← JsonForm.read? room b) (← JsonForm.read? room c)
    | _ => none

instance : JsonForm Span := .pair "t" "d" Span.mk fun s => (s.start, s.length)

instance : JsonForm OffsetSpan := .pair "offset" "d" OffsetSpan.mk fun s => (s.offset, s.length)

instance : JsonForm PackingPolicy where
  write
    | .always => jsonString "always"
    | .never => jsonString "never"
    | .everyNth n => jsonCase "every_nth" (JsonForm.write n)
  read? room t := do
    let (name, content?, room) ← t.case? room
    match name with
    | "always" => if isBare content? then some .always else none
    | "never" => if isBare content? then some .never else none
    | "every_nth" => (JsonForm.read? room (← content?)).map .everyNth
    | _ => none

instance : JsonForm Block where
  write b := jsonObject [("start", JsonForm.write b.start), ("next_start", JsonForm.write b.next),
    ("len", JsonForm.write b.length), ("compressed", JsonForm.write b.packed)]
  read? room t := do
    match ← t.record? plainRecord ["start", "next_start", "len", "compressed"] room with
    | ([some a, some b, some c, some d], room) =>
      return ⟨← JsonForm.read? room a, ← JsonForm.read? room b, ← JsonForm.read? room c,
        ← JsonForm.read? room d⟩
    | _ => none

end StreamGauge
