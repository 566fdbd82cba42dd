import StreamGauge.Bench.Settings
import StreamGauge.Compile.Routine
import StreamGauge.Generator.Error

/-!
# Stages

A benchmark goes through five stages, each of its steps leading from one to the next:

    uninitialized --compile, attach--> compiled --init--> initialized
      --execute--> executed --release--> released

A step that is taken from any other stage is refused with `BenchError.outOfOrder`.
-/

namespace StreamGauge

/-- How far a benchmark has come. -/
inductive Stage where
  /-- There is no routine yet. -/
  | uninitialized
  /-- There is a routine. -/
  | compiled
  /-- The inputs are filled. -/
  | initialized
  /-- The routine has run. -/
  | executed
  /-- The regions are gone. -/
  | released
deriving DecidableEq, Repr

namespace Stage

def name : Stage → String
  | uninitialized => "uninitialized"
  | compiled => "compiled"
  | initialized => "initialized"
  | executed => "executed"
  | released => "released"

instance : ToString Stage := ⟨name⟩

/-- The stages in order. -/
def all : List Stage := [uninitialized, compiled, initialized, executed, released]

/-- How many steps lead to a stage. -/
def rank : Stage → Nat
  | uninitialized => 0
  | compiled => 1
  | initialized => 2
  | executed => 3
  | released => 4

end Stage

/-- What leads from a stage to the next. -/
inductive Step where
  | compile
  | attach
  | init
  | execute
  | release
deriving DecidableEq, Repr

namespace Step

def name : Step → String
  | compile => "compile"
  | attach => "attach"
  | init => "init"
  | execute => "execute"
  | release => "release"

instance : ToString Step := ⟨name⟩

/-- The only stage that a step can be taken from. -/
def source : Step → Stage
  | compile | attach => .uninitialized
  | init => .compiled
  | execute => .initialized
  | release => .executed

/-- The stage that a step leads to. -/
def target : Step → Stage
  | compile | attach => .compiled
  | init => .initialized
  | execute => .executed
  | release => .released

end Step

/-- Why a step of a benchmark fails. -/
inductive BenchError where
  | outOfOrder (step : Step) (stage : Stage)
  | settings (cause : SettingsError)
  | region (cause : RegionError)
  | generator (cause : GeneratorError)
  | compile (cause : CompileError)
  | exec (cause : ExecError)
  /-- No buffer can hold so many elements. -/
  | noBuffer (elements : Nat)

def BenchError.message : BenchError → String
  | outOfOrder step stage => s!"cannot {step} a benchmark in state {stage}"
  | settings cause => cause.message
  | region cause => cause.message
  | generator cause => cause.message
  | compile cause => cause.message
  | exec cause => cause.message
  | noBuffer elements => s!"no buffer holds {elements} elements"

/-- Whether what failed is no failure of the benchmark, but something that is not there. -/
def BenchError.isFault : BenchError → Bool
  | generator (.time _) | exec (.fault _) | noBuffer _ => true
  | _ => false

end StreamGauge
