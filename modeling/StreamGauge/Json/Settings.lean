import StreamGauge.Bench.Report
import StreamGauge.Bench.Stage
import StreamGauge.Json.Form

/-!
# JSON forms of settings and reports

Settings are a record in which any field may be missing and takes its default, but no other field
may be there.
-/

namespace StreamGauge

open JsonTree

/-- The name of a stage in a document. -/
def Stage.jsonName : Stage → String
  | uninitialized => "Uninitialized"
  | compiled => "Compiled"
  | initialized => "Initialized"
  | executed => "Executed"
  | released => "Released"

instance : JsonForm Stage := .ofNames Stage.jsonName (Stage.all.map fun s => (s.jsonName, s))

instance : JsonForm Scenario := .ofNames Scenario.name Scenario.names

namespace Settings

/-- The fields of settings in a document. -/
def fieldNames : List String :=
  ["scenario", "size", "threads", "period", "window", "block_size", "seed", "enable_debug_dump",
    "dump_dir"]

/-- Any field may be missing, and no other may be there. -/
def recordRule : RecordRule := ⟨false, true⟩

/-- The value of a field, or its default if it is missing. -/
def fieldOr [JsonForm α] (default : α) (room : Nat) (field? : Option JsonTree) : Option α :=
  match field? with
  | some t => JsonForm.read? room t
  | none => some default

/-- The written fields. -/
def fields (s : Settings) : List String :=
  [JsonForm.write s.scenario, JsonForm.write s.size, JsonForm.write s.threads,
    JsonForm.write s.period, JsonForm.write s.window?, JsonForm.write s.blockSize,
    JsonForm.write s.seed, JsonForm.write s.dumps, JsonForm.write s.dumpDirectory]

instance : JsonForm Settings where
  write s := jsonObject (fieldNames.zip s.fields)
  read? room t := do
    match ← t.record? recordRule fieldNames room with
    | ([scenario, size, threads, period, window, blockSize, seed, dumps, dumpDirectory], room) =>
      let d : Settings := {}
      return {
        scenario := ← fieldOr d.scenario room scenario
        size := ← fieldOr d.size room size
        threads := ← fieldOr d.threads room threads
        period := ← fieldOr d.period room period
        window? := ← fieldOr d.window? room window
        blockSize := ← fieldOr d.blockSize room blockSize
        seed := ← fieldOr d.seed room seed
        dumps := ← fieldOr d.dumps room dumps
        dumpDirectory := ← fieldOr d.dumpDirectory room dumpDirectory }
    | _ => none

/-- The settings that a text holds. -/
def ofText (text : String) : Except SettingsError Settings :=
  match JsonForm.ofText? Settings text with
  | some s => .ok s
  | none => .error .malformed

end Settings

instance : JsonForm Report where
  write r := jsonObject [("scenario", JsonForm.write r.scenario), ("size", JsonForm.write r.size),
    ("threads", JsonForm.write r.threads), ("elapsed_us", JsonForm.write r.elapsed)]
  read? room t := do
    match ← t.record? plainRecord ["scenario", "size", "threads", "elapsed_us"] room with
    | ([some scenario, some size, some threads, some elapsed], room) =>
      return ⟨← JsonForm.read? room scenario, ← JsonForm.read? room size,
        ← JsonForm.read? room threads, ← JsonForm.read? room elapsed⟩
    | _ => none

end StreamGauge
