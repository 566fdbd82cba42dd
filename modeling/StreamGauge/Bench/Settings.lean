import StreamGauge.Bench.Scenario

/-!
# Settings

The `Settings` of a benchmark say which scenario runs, how large it is and what is done beside.
`Settings.check` refuses settings that no run can follow and names the first of their faults.
-/

namespace StreamGauge

/-- What is wrong with settings. -/
inductive SettingsDefect where
  | noElements
  | noThreads
  | period (period : Int)
  | window (window : Int)
  | blockSize
  /-- The time at which the last element stops leaves 64 bits. -/
  | timeRange (size : Nat) (period : Int)
  /-- A delta stream is coarser than its base stream. -/
  | periodPastWindow (scenario : Scenario) (period window : Int)
  /-- A block lasts longer than a 32-bit offset can say. -/
  | blockSpan (span : Int)
  /-- A parallel run has nothing to run. -/
  | noInstances
  /-- A benchmark has a reason of its own. -/
  | rejected (reason : String)
deriving DecidableEq, Repr

def SettingsDefect.message : SettingsDefect → String
  | noElements => "size must be positive"
  | noThreads => "threads must be positive"
  | period p => s!"period must be positive, got {p}"
  | window w => s!"window must be positive, got {w}"
  | blockSize => "block size must be positive"
  | timeRange size p => s!"time range of {size} elements every {p} overflows"
  | periodPastWindow scenario p w =>
    s!"{scenario} needs period <= window, got period {p} and window {w}"
  | blockSpan span => s!"block span {span} does not fit 32-bit delta timestamps"
  | noInstances => "parallel runner needs at least one instance"
  | rejected reason => reason

/-- Why there are no settings to run. -/
inductive SettingsError where
  | unknownScenario (name : String)
  | invalid (cause : SettingsDefect)
  /-- The file of the settings cannot be read. -/
  | unreadable
  /-- The file of the settings holds something else. -/
  | malformed
deriving DecidableEq, Repr

def SettingsError.message : SettingsError → String
  | unknownScenario name => "unknown scenario: " ++ name
  | invalid cause => "invalid configuration: " ++ cause.message
  | unreadable => "I/O error"
  | malformed => "JSON error"

/-- The scenario of a name or alias. -/
def Scenario.ofName (text : String) : Except SettingsError Scenario :=
  match ofName? text with
  | some s => .ok s
  | none => .error (.unknownScenario text)

/-- What to run. -/
structure Settings where
  scenario : Scenario := .select
  /-- Elements of each instance. -/
  size : UInt64 := 100000000
  /-- Instances, which run side by side. -/
  threads : UInt64 := 1
  /-- Time from one input element to the next. -/
  period : Int64 := 1
  /-- The length of a window; without it the scenario says. -/
  window? : Option Int64 := none
  /-- Elements of a block. -/
  blockSize : UInt64 := 64
  /-- The first instance draws from this seed, each further one from the next. -/
  seed : UInt64 := 42
  /-- Whether every region is dumped before it is released. -/
  dumps : Bool := false
  dumpDirectory : String := "."
deriving DecidableEq, Repr

namespace Settings

/-- The length of a window. -/
def window (s : Settings) : Int :=
  match s.window? with
  | some w => w.toInt
  | none => s.scenario.defaultWindow s.period.toInt

/-- The time that `count` elements take, the count being read as a signed number. -/
def duration (s : Settings) (count : UInt64) : Int := s.period.toInt * count.toInt64.toInt

/-- The time at which the last element stops. -/
def endTime (s : Settings) : Int := saturate (s.duration s.size)

/-- The time that a block takes. -/
def blockSpan (s : Settings) : Int := saturate (s.duration s.blockSize)

/-- The first fault of the settings. -/
def defect? (s : Settings) : Option SettingsDefect :=
  if s.size = 0 then some .noElements
  else if s.threads = 0 then some .noThreads
  else if s.period ≤ 0 then some (.period s.period.toInt)
  else if s.window ≤ 0 then some (.window s.window)
  else if s.blockSize = 0 then some .blockSize
  else if saturate (s.duration s.size) ≠ s.duration s.size then
    some (.timeRange s.size.toNat s.period.toInt)
  else if s.scenario.isTwoStream ∧ s.window < s.period.toInt then
    some (.periodPastWindow s.scenario s.period.toInt s.window)
  else if s.scenario.isBlocked ∧ ¬(0 ≤ s.blockSpan ∧ s.blockSpan < UInt32.size) then
    some (.blockSpan s.blockSpan)
  else none

/-- Refuses settings with a fault. -/
def check (s : Settings) : Except SettingsError Unit :=
  match s.defect? with
  | some defect => .error (.invalid defect)
  | none => .ok ()

end Settings

end StreamGauge
