import StreamGauge.Bench.Fleet
import StreamGauge.Command.Arguments
import StreamGauge.Command.Help
import StreamGauge.Json.Settings
import StreamGauge.Random.Draw

/-!
# Sessions

A `Session` is what a command does, as far as it can be said without doing it: it may ask for the
text of a file, it may ask for work to be timed, and it ends with an `Ending`. Whoever runs the
session answers the questions and carries out the ending; everything else is decided here.
-/

namespace StreamGauge

/-- How a command ends. -/
structure Ending where
  exitCode : UInt32 := 0
  /-- Files that are written first, as far as they can be. -/
  dumps : List DumpFile := []
  /-- The standard output. -/
  output : String := ""
  /-- The standard error. -/
  errors : String := ""

/-- A command and what it asks for. -/
inductive Session where
  | finish (ending : Ending)
  /-- Goes on with the text of a file, if it can be read. -/
  | load (path : String) (next : Option String → Session)
  /-- Goes on with the result of some work and the microseconds that it took. -/
  | time (work : Unit → Fleet Trial × Except BenchError Unit)
    (next : Fleet Trial × Except BenchError Unit → (elapsed : Float) → Session)

namespace Session

/-- Ends with an error. -/
def fail (message : String) : Session :=
  finish { exitCode := 1, errors := "Error: " ++ message ++ "\n" }

/-- Ends with the failure of a benchmark. One that is a fault has no message. -/
def failWith (e : BenchError) : Session :=
  if e.isFault then finish { exitCode := 101 } else fail e.message

/-- Ends with a text. -/
def print (text : String) : Session := finish { output := text }

/-- Ends because the arguments make no sense. -/
def refuse : Session :=
  finish {
    exitCode := 2
    errors := "error: invalid arguments\n\nFor more information, try '--help'.\n" }

end Session

/-- The settings with what the arguments say instead. -/
def Arguments.override (a : Arguments) (s : Settings) : Except SettingsError Settings := do
  let scenario ← match a.scenario? with
    | some name => Scenario.ofName name
    | none => pure s.scenario
  let s := { s with
    scenario := scenario
    size := a.size?.getD s.size
    threads := a.threads?.getD s.threads
    period := a.period?.getD s.period
    window? := a.window?.or s.window?
    blockSize := a.blockSize?.getD s.blockSize
    seed := a.seed?.getD s.seed
    dumps := s.dumps || a.has .dumps
    dumpDirectory := a.dumpDirectory?.getD s.dumpDirectory }
  s.check
  return s

/-- Goes on with the settings of the arguments, over those of the file that they name. -/
def Arguments.withSettings (a : Arguments) (next : Settings → Session) : Session :=
  let go (s : Settings) : Session :=
    match a.override s with
    | .ok s => next s
    | .error e => .fail e.message
  match a.config? with
  | none => go {}
  | some path =>
    .load path fun text? =>
      let loaded := match text? with
        | some text => Settings.ofText text
        | none => .error .unreadable
      match loaded with
      | .ok s => go s
      | .error e => .fail s!"loading config {path}: {e.message}"

/-- Prints the query of a scenario. -/
def Settings.printQuery (s : Settings) : Session :=
  match Workload.ofSettings s 0 with
  | .ok w => .print w.query.text
  | .error e => .fail e.message

/-- Writes a report. -/
def Report.print (r : Report) (json : Bool) : String :=
  (if json then JsonForm.write r else r.text) ++ "\n"

/-- The random numbers of a command. -/
instance : RandomSource := KeyStream.source

/-- Releases a fleet and prints its report. -/
def Fleet.conclude (json : Bool) (f : Fleet Trial) (elapsed : Float) : Session :=
  match f.release, f.report? elapsed with
  | (_, .error e), _ => .failWith e
  | (_, .ok _), none => .finish {}
  | (_, .ok released), some report =>
    .finish { dumps := released.flatMap (·.dumps), output := report.print json }

/-- The hash of a command: each byte is mixed in by an exclusive or and a product with the prime
`2 ^ 40 + 0x1b3`. -/
instance : TextHash :=
  ⟨fun s => s.toUTF8.foldl (fun h b => (h ^^^ b.toUInt64) * 0x100000001b3) 0xcbf29ce484222325⟩

/-- Runs a fleet and prints its report. -/
def Settings.runFleet (s : Settings) (json : Bool) : Session :=
  match Fleet.ofSettings s with
  | .error e => .failWith e
  | .ok f =>
    let schedule := Schedule.byNumber f.size
    match f.prepare (Service.compiler Backend.interpreter) schedule.init (Service.empty 0) with
    | (_, _, .error e) => .failWith e
    | (_, f, .ok ()) =>
      .time (fun _ => f.execute schedule.execute) fun (f, ended) elapsed =>
        match ended with
        | .error e => .failWith e
        | .ok () => f.conclude json elapsed

/-- What the arguments ask for: the catalogue, else a query, else a run. -/
def Arguments.session (a : Arguments) : Session :=
  if a.has .list then .print catalogueText
  else a.withSettings fun s =>
    if a.has .printQuery then s.printQuery else s.runFleet (a.has .json)

/-- The session of a command line. -/
def Session.ofArguments (args : List String) : Session :=
  match Parsed.ofList args with
  | .refused => .refuse
  | .help => .print helpText
  | .version => .print versionText
  | .arguments a => a.session

end StreamGauge
