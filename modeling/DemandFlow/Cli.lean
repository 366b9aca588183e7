import DemandFlow.Options
import DemandFlow.Text.Decimal

/-
  The command line: eight settings that take a number, the flag `--metrics`, and the usual
  `--help` and `--version`. A value stands after its setting or is attached with an equals sign.
  A value that is not attached is checked when the next known argument is met or when the line
  ends, so that an unknown argument in between is reported first.
-/

namespace DemandFlow.Cli

/-- The settings that take a number. -/
inductive Setting where
  | messages
  | payloadSize
  | batchSize
  | batchBytes
  | threshold
  | expiresMs
  | drainMs
  | reportEvery
deriving DecidableEq

namespace Setting

def all : List Setting :=
  [.messages, .payloadSize, .batchSize, .batchBytes, .threshold, .expiresMs, .drainMs,
   .reportEvery]

def name : Setting → String
  | .messages => "messages"
  | .payloadSize => "payload-size"
  | .batchSize => "batch-size"
  | .batchBytes => "batch-bytes"
  | .threshold => "threshold"
  | .expiresMs => "expires-ms"
  | .drainMs => "drain-ms"
  | .reportEvery => "report-every"

def default : Setting → Nat
  | .messages => 10000
  | .payloadSize => 128
  | .batchSize => Defaults.batchSize
  | .batchBytes => 0
  | .threshold => Defaults.threshold
  | .expiresMs => 30000
  | .drainMs => 1000
  | .reportEvery => 1000

def help : Setting → String
  | .messages => "Messages to publish before consuming"
  | .payloadSize => "Payload size of each published message in bytes"
  | .batchSize => "Messages requested by the initial pull"
  | .batchBytes => "Byte budget of the initial pull; 0 leaves it unbounded"
  | .threshold => "Percentage of the batch consumed before a refill is issued"
  | .expiresMs => "Pull request expiry in milliseconds"
  | .drainMs => "Grace period for the final drain in milliseconds"
  | .reportEvery => "Report throughput every this many messages"

/-- The number that a text gives to the setting: the threshold is a signed word that has to fit
a byte, all others are unsigned words. -/
def value? (s : Setting) (text : String) : Option Nat :=
  match s with
  | .threshold => Text.signedCount? 255 text.toList
  | _ => Text.count? text.toList

end Setting

/-- What a name on the command line stands for. -/
inductive Known where
  | setting (s : Setting)
  | metrics
  | help
  | version
deriving DecidableEq

def known? (name : String) : Option Known :=
  match Setting.all.find? fun s => s.name == name with
  | some s => some (.setting s)
  | none =>
    if name = "metrics" then some .metrics
    else if name = "help" then some .help
    else if name = "version" then some .version
    else none

/-- Why a command line is not run. -/
inductive Refusal where
  | displayHelp
  | displayVersion
  | unknownArgument
  | valueValidation
  | invalidValue
  | argumentConflict
  | tooManyValues
deriving DecidableEq

def Refusal.name : Refusal → String
  | .displayHelp => "DisplayHelp"
  | .displayVersion => "DisplayVersion"
  | .unknownArgument => "UnknownArgument"
  | .valueValidation => "ValueValidation"
  | .invalidValue => "InvalidValue"
  | .argumentConflict => "ArgumentConflict"
  | .tooManyValues => "TooManyValues"

/-- The arguments that a command line gives. -/
structure Arguments where
  messages : Nat
  payloadSize : Nat
  batchSize : Nat
  batchBytes : Nat
  threshold : Nat
  expiresMs : Nat
  drainMs : Nat
  reportEvery : Nat
  metrics : Bool
deriving DecidableEq

/-! ## Reading -/

/-- What was read so far. A pending setting waits for its value or for the check of it. -/
structure Progress where
  given : List (Setting × Nat)
  metrics : Bool
  pending : Option (Setting × Option String)

def Progress.start : Progress := ⟨[], false, none⟩

/-- Take the value of a setting: it has to be there, to be the first and to be a number. -/
def Progress.settle (p : Progress) (s : Setting) (text : Option String) :
    Except Refusal Progress :=
  match text with
  | none => .error .invalidValue
  | some text =>
    if p.given.any fun g => g.1 = s then .error .argumentConflict
    else
      match s.value? text with
      | none => .error .valueValidation
      | some n => .ok { p with given := p.given ++ [(s, n)] }

/-- Check what is pending. -/
def Progress.resolve (p : Progress) : Except Refusal Progress :=
  match p.pending with
  | none => .ok p
  | some (s, text) => { p with pending := none }.settle s text

/-- A long argument, with the value that is attached to it. -/
def Progress.long (p : Progress) (name : String) (attached : Option String) :
    Except Refusal Progress :=
  match known? name with
  | none => .error .unknownArgument
  | some (.setting s) => do
    let p ← p.resolve
    match attached with
    | some text => p.settle s (some text)
    | none => .ok { p with pending := some (s, none) }
  | some other =>
    if attached.isSome then .error .tooManyValues
    else do
      let p ← p.resolve
      match other with
      | .help => .error .displayHelp
      | .version => .error .displayVersion
      | _ => if p.metrics then .error .argumentConflict else .ok { p with metrics := true }

/-- A cluster of short arguments ends at its first letter, whatever that is. -/
def Progress.short (p : Progress) (letter : Char) : Except Refusal Progress :=
  if letter = 'h' then do
    let _ ← p.resolve
    .error .displayHelp
  else if letter = 'V' then do
    let _ ← p.resolve
    .error .displayVersion
  else .error .unknownArgument

/-- An argument that is no option: the value that is waited for, if any is. -/
def Progress.plain (p : Progress) (text : String) : Except Refusal Progress :=
  match p.pending with
  | some (s, none) => .ok { p with pending := some (s, some text) }
  | _ => .error .unknownArgument

/-- The name of a long argument, and what stands after its first equals sign. -/
def splitAttached (cs : List Char) : String × Option String :=
  let name := String.ofList (cs.takeWhile (· ≠ '='))
  match cs.dropWhile (· ≠ '=') with
  | [] => (name, none)
  | _ :: text => (name, some (String.ofList text))

def Progress.argument (p : Progress) (arg : String) : Except Refusal Progress :=
  match arg.toList with
  | '-' :: '-' :: rest => let (name, attached) := splitAttached rest; p.long name attached
  | '-' :: letter :: _ => p.short letter
  | _ => p.plain arg

def Progress.finish (p : Progress) : Except Refusal Arguments := do
  let p ← p.resolve
  let get (s : Setting) : Nat := (p.given.lookup s).getD s.default
  .ok ⟨get .messages, get .payloadSize, get .batchSize, get .batchBytes, get .threshold,
    get .expiresMs, get .drainMs, get .reportEvery, p.metrics⟩

/-- Read the arguments from left to right; after `--` none is allowed. -/
def Progress.read (p : Progress) : List String → Except Refusal Arguments
  | [] => p.finish
  | arg :: rest =>
    if arg = "--" then if rest.isEmpty then p.finish else .error .unknownArgument
    else
      match p.argument arg with
      | .error r => .error r
      | .ok p => p.read rest

def parse (args : List String) : Except Refusal Arguments := Progress.start.read args

theorem parse_nil :
    parse [] = .ok ⟨10000, 128, 500, 0, 50, 30000, 1000, 1000, false⟩ := rfl

/-! ## Help -/

def programName : String := "pullwire"

def versionText : String := programName ++ " 0.1.0"

/-- Upper case with underscores, as the place of a value is shown. -/
def placeholder (name : String) : String :=
  String.ofList (name.toList.map fun c => if c = '-' then '_' else c.toUpper)

def settingLines (s : Setting) : List String :=
  ["      --" ++ s.name ++ " <" ++ placeholder s.name ++ ">",
   "          " ++ s.help ++ " [default: " ++ toString s.default ++ "]"]

def helpLines : List String :=
  ["Consume a loopback stream with a pull-demand handler", "",
   "Usage: " ++ programName ++ " [OPTIONS]", "", "Options:"]
    ++ Setting.all.flatMap settingLines
    ++ ["      --metrics", "          Print Prometheus metrics on exit", "  -h, --help",
        "          Print help", "  -V, --version", "          Print version"]

end DemandFlow.Cli
