import StreamGauge.Bench.Workload
import StreamGauge.Query.Text
import StreamGauge.Region.Dump

/-!
# What the command prints about itself

The version, the usage, and the catalogue with the root of each scenario's query.
-/

namespace StreamGauge

/-- The name of the command. -/
def commandName : String := "streambench"

def versionText : String := commandName ++ " 0.1.0\n"

def helpText : String := textOfLines [
  "streambench CLI - throughput of compiled stream queries " ++
    "over uncompressed and base-delta regions",
  "",
  "Usage: streambench [OPTIONS] [SCENARIO] [SIZE] [THREADS]",
  "",
  "Arguments:",
  "  [SCENARIO]  Scenario to run (see --list) [default: select]",
  "  [SIZE]      Elements per instance [default: 100000000]",
  "  [THREADS]   Parallel instances, one worker thread each [default: 1]",
  "",
  "Options:",
  "      --period <PERIOD>          Time between consecutive input elements",
  "      --window <WINDOW>          Window length (scenario default when unset)",
  "      --block-size <BLOCK_SIZE>  Elements per compressed block",
  "      --seed <SEED>              Generator seed",
  "  -c, --config <FILE>            JSON config file; flags override its values",
  "      --dump-dir <DIR>           Directory receiving debug dumps",
  "      --debug-dump               Dump every region before it is released",
  "      --json                     Print the run report as JSON",
  "      --list                     List the scenario catalogue and exit",
  "      --print-query              Print the scenario's query plan and exit",
  "  -v, --verbose                  Debug logging on stderr",
  "  -h, --help                     Print help",
  "  -V, --version                  Print version"]

/-- A text with blanks up to a width. -/
def padRight (width : Nat) (s : String) : String :=
  s ++ String.ofList (List.replicate (width - s.length) ' ')

/-- The first line of a text. -/
def firstLine (s : String) : String := String.ofList (s.toList.takeWhile (· ≠ '\n'))

/-- The line of a scenario in the catalogue. -/
def Scenario.catalogueLine (s : Scenario) : String :=
  padRight 14 s.name ++ " " ++
    match Workload.ofSettings { scenario := s } 0 with
    | .ok w => firstLine w.query.text
    | .error e => "(" ++ e.message ++ ")"

/-- The catalogue, and the aliases after it. -/
def catalogueText : String :=
  textOfLines (Scenario.all.map Scenario.catalogueLine ++
    Scenario.aliases.map fun (other, s) => s!"{padRight 14 other} same as {s}")

end StreamGauge
