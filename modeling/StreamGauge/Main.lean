import StreamGauge.Command.Session

/-!
# The command
-/

namespace StreamGauge

/-- The text of a file, if it can be read. -/
def readText (path : String) : IO (Option String) := do
  try
    return some (← IO.FS.readFile path)
  catch _ =>
    return none

/-- Writes a file; a failure is passed over. -/
def writeDump (f : DumpFile) : IO Unit := do
  try
    IO.FS.writeFile f.path f.text
  catch _ =>
    return ()

/-- Answers the questions of a session and carries out its ending. -/
def Session.interpret : Session → IO UInt32
  | .finish e => do
    e.dumps.forM writeDump
    IO.print e.output
    IO.eprint e.errors
    return e.exitCode
  | .load path next => do
    interpret (next (← readText path))
  | .time work next => do
    let started ← IO.monoNanosNow
    let result ← IO.lazyPure work
    let stopped ← IO.monoNanosNow
    interpret (next result (microseconds 0 (stopped - started)))

end StreamGauge

/-- Runs the command line. -/
def main (args : List String) : IO UInt32 :=
  (StreamGauge.Session.ofArguments args).interpret
