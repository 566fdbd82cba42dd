import StreamGauge.Bench.Settings
import StreamGauge.Text.Integer

/-!
# Arguments

The arguments of a command line are read from left to right. An argument that begins with a
hyphen is an option, unless it is a lone hyphen or comes after `--`; the others are the positional
values scenario, size and threads.

* A long option takes its value after `=` or as the next argument, a short one in the same
  argument, with or without `=`, or as the next one. A next argument that looks like an option is
  no value.
* Nothing may be given twice, and every value has to be readable.
* Help and version end the reading where they stand: what comes after them does not matter.
-/

namespace StreamGauge

/-- What takes a value. -/
inductive Parameter where
  | scenario
  | size
  | threads
  | period
  | window
  | blockSize
  | seed
  | config
  | dumpDirectory
deriving DecidableEq, Repr

/-- What is either given or not. -/
inductive Switch where
  | dumps
  | json
  | list
  | printQuery
  | verbose
deriving DecidableEq, Repr

/-- Arguments that were read. -/
structure Arguments where
  scenario? : Option String := none
  size? : Option UInt64 := none
  threads? : Option UInt64 := none
  period? : Option Int64 := none
  window? : Option Int64 := none
  blockSize? : Option UInt64 := none
  seed? : Option UInt64 := none
  /-- The file of the settings. -/
  config? : Option String := none
  dumpDirectory? : Option String := none
  switches : List Switch := []
deriving DecidableEq, Repr

/-- What an option is for. -/
inductive OptionRole where
  | value (parameter : Parameter)
  | switch (switch : Switch)
  | help
  | version
deriving DecidableEq, Repr

/-- What a command line asks for. -/
inductive Parsed where
  | refused
  | help
  | version
  | arguments (a : Arguments)
deriving DecidableEq, Repr

/-- The long options. -/
def longOptions : List (String × OptionRole) :=
  [("period", .value .period), ("window", .value .window), ("block-size", .value .blockSize),
    ("seed", .value .seed), ("config", .value .config), ("dump-dir", .value .dumpDirectory),
    ("debug-dump", .switch .dumps), ("json", .switch .json), ("list", .switch .list),
    ("print-query", .switch .printQuery), ("verbose", .switch .verbose), ("help", .help),
    ("version", .version)]

/-- The short options. -/
def shortOptions : List (Char × OptionRole) :=
  [('c', .value .config), ('v', .switch .verbose), ('h', .help), ('V', .version)]

/-- The positional values in order. -/
def positions : List Parameter := [.scenario, .size, .threads]

namespace Arguments

/-- Fills a place that is still empty. -/
def fill (place? : Option α) (value? : Option α) (put : Option α → Arguments) :
    Option Arguments :=
  match place?, value? with
  | none, some v => some (put (some v))
  | _, _ => none

/-- A path; there is none without characters. -/
def path? (text : String) : Option String := if text.isEmpty then none else some text

/-- With the value of a parameter, if it has none yet and the text can be read. -/
def set (a : Arguments) (text : String) : Parameter → Option Arguments
  | .scenario => fill a.scenario? (some text) ({ a with scenario? := · })
  | .size => fill a.size? (readUInt64? text) ({ a with size? := · })
  | .threads => fill a.threads? (readUInt64? text) ({ a with threads? := · })
  | .period => fill a.period? (readInt64? text) ({ a with period? := · })
  | .window => fill a.window? (readInt64? text) ({ a with window? := · })
  | .blockSize => fill a.blockSize? (readUInt64? text) ({ a with blockSize? := · })
  | .seed => fill a.seed? (readUInt64? text) ({ a with seed? := · })
  | .config => fill a.config? (path? text) ({ a with config? := · })
  | .dumpDirectory => fill a.dumpDirectory? (path? text) ({ a with dumpDirectory? := · })

/-- With a switch, if it is not on yet. -/
def turnOn (a : Arguments) (s : Switch) : Option Arguments :=
  if s ∈ a.switches then none else some { a with switches := s :: a.switches }

/-- Whether a switch is on. -/
def has (a : Arguments) (s : Switch) : Bool := a.switches.contains s

end Arguments

/-- What an argument leads to. -/
inductive Outcome where
  /-- Reading goes on, first with the value of `pending?` if there is one. -/
  | next (a : Arguments) (pending? : Option Parameter)
  | stop (parsed : Parsed)

/-- Reading goes on without a value to come. -/
def Outcome.ofOption : Option Arguments → Outcome
  | some a => .next a none
  | none => .stop .refused

/-- A name and, after the first `=`, a value. -/
def splitValue (cs : List Char) : String × Option String :=
  (String.ofList (cs.takeWhile (· ≠ '=')),
    match cs.dropWhile (· ≠ '=') with
    | [] => none
    | _ :: value => some (String.ofList value))

/-- Takes a long option, without its hyphens. -/
def takeLong (a : Arguments) (cs : List Char) : Outcome :=
  let (name, value?) := splitValue cs
  match List.lookup name longOptions, value? with
  | some (.value p), some text => .ofOption (a.set text p)
  | some (.value p), none => .next a (some p)
  | some (.switch s), none => .ofOption (a.turnOn s)
  | some .help, none => .stop .help
  | some .version, none => .stop .version
  | _, _ => .stop .refused

/-- Takes the short options of one argument, without their hyphen. -/
def takeShort (a : Arguments) : List Char → Outcome
  | [] => .next a none
  | c :: rest =>
    match List.lookup c shortOptions with
    | some (.value p) =>
      match rest with
      | [] => .next a (some p)
      | '=' :: value => .ofOption (a.set (String.ofList value) p)
      | value => .ofOption (a.set (String.ofList value) p)
    | some (.switch s) =>
      match a.turnOn s with
      | some a => takeShort a rest
      | none => .stop .refused
    | some .help => .stop .help
    | some .version => .stop .version
    | none => .stop .refused

/-- Whether an argument is an option. -/
def looksLikeOption (text : String) : Bool := text.startsWith "-" && text ≠ "-"

/-- Reads arguments as positional values. -/
def readPositions (a : Arguments) : List Parameter → List String → Parsed
  | _, [] => .arguments a
  | [], _ :: _ => .refused
  | p :: places, text :: rest =>
    match a.set text p with
    | some a => readPositions a places rest
    | none => .refused

/-- Reads arguments, the first as the value of `pending?` if there is one. -/
def readArguments (a : Arguments) (places : List Parameter) (pending? : Option Parameter) :
    List String → Parsed
  | [] => if pending?.isSome then .refused else .arguments a
  | text :: rest =>
    match pending? with
    | some p =>
      if looksLikeOption text then .refused
      else
        match a.set text p with
        | some a => readArguments a places none rest
        | none => .refused
    | none =>
      if text = "--" then readPositions a places rest
      else if looksLikeOption text then
        let outcome := match text.toList with
          | '-' :: '-' :: cs => takeLong a cs
          | _ :: cs => takeShort a cs
          | [] => .stop .refused
        match outcome with
        | .next a pending? => readArguments a places pending? rest
        | .stop parsed => parsed
      else
        match places with
        | [] => .refused
        | p :: places =>
          match a.set text p with
          | some a => readArguments a places none rest
          | none => .refused

/-- What a command line asks for. -/
def Parsed.ofList (args : List String) : Parsed := readArguments {} positions none args

end StreamGauge
