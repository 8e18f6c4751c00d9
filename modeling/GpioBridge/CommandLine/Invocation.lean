import GpioBridge.Settings.Basic

namespace GpioBridge

structure Invocation where
  settingsPath : Option String := none
  simulate : Bool := false
  simLines : UInt32 := 16
  simUid : UInt64 := 1
  verbose : Bool := false
  json : Bool := false
  deriving DecidableEq, Repr, Inhabited

namespace Invocation

inductive Choice where
  | config
  | simulate
  | simLines
  | simUid
  | verbose
  | json
  | help
  | version
  deriving DecidableEq, Repr

inductive Halt where
  | help
  | version
  | misuse
  deriving DecidableEq, Repr

namespace Choice

def named? : String → Option Choice
  | "config" => some .config
  | "simulate" => some .simulate
  | "sim-lines" => some .simLines
  | "sim-uid" => some .simUid
  | "verbose" => some .verbose
  | "json" => some .json
  | "help" => some .help
  | "version" => some .version
  | _ => none

def lettered? : Char → Option Choice
  | 'c' => some .config
  | 's' => some .simulate
  | 'v' => some .verbose
  | 'h' => some .help
  | 'V' => some .version
  | _ => none

def takesValue : Choice → Bool
  | config | simLines | simUid => true
  | _ => false

end Choice

def decimal? (digits : List Char) : Option Nat :=
  if digits.isEmpty || !digits.all Char.isDigit then none
  else some (digits.foldl (fun n c => 10 * n + (c.toNat - '0'.toNat)) 0)

def number? (greatest : Nat) (text : List Char) : Option Nat :=
  let digits := match text with
    | '+' :: rest => rest
    | _ => text
  (decimal? digits).filter (· ≤ greatest)

-- A number of lines; zero may have a minus sign.
def lineCount? (text : List Char) : Option UInt32 :=
  match text with
  | '-' :: rest => if decimal? rest = some 0 then some 0 else none
  | _ => (number? (UInt32.size - 1) text).map UInt32.ofNat

def uid? (text : List Char) : Option UInt64 := (number? (UInt64.size - 1) text).map UInt64.ofNat

structure Draft where
  chosen : List Choice := []
  invocation : Invocation := {}

-- Adds an option with its value; an option without one has the empty value. No option may be given
-- twice.
def choose (choice : Choice) (value : List Char) (draft : Draft) : Except Halt Draft := do
  if draft.chosen.contains choice then throw .misuse
  let given := draft.invocation
  let invocation ← match choice with
    | .config =>
      if value.isEmpty then throw .misuse
      pure { given with settingsPath := some (String.ofList value) }
    | .simulate => pure { given with simulate := true }
    | .simLines =>
      match lineCount? value with
      | some simLines => pure { given with simLines }
      | none => throw .misuse
    | .simUid =>
      match uid? value with
      | some simUid => pure { given with simUid }
      | none => throw .misuse
    | .verbose => pure { given with verbose := true }
    | .json => pure { given with json := true }
    | .help => throw .help
    | .version => throw .version
  return { chosen := choice :: draft.chosen, invocation }

-- Reads an option by its name, after which a value may follow an equals sign. Gives the option that
-- still waits for a value, if it does.
def readLong (text : List Char) (draft : Draft) : Except Halt (Draft × Option Choice) :=
  let name := text.takeWhile (· != '=')
  match Choice.named? (String.ofList name), text.drop name.length with
  | none, _ => .error .misuse
  | some choice, [] =>
    if choice.takesValue then .ok (draft, some choice)
    else do return (← choose choice [] draft, none)
  | some choice, _ :: value =>
    if choice.takesValue then do return (← choose choice value draft, none)
    else .error .misuse

-- Reads options by their letters, one after the other; what follows one that takes a value is its
-- value.
def readShort : List Char → Draft → Except Halt (Draft × Option Choice)
  | [], draft => .ok (draft, none)
  | letter :: rest, draft =>
    match Choice.lettered? letter with
    | none => .error .misuse
    | some choice =>
      if choice.takesValue then
        match rest with
        | [] => .ok (draft, some choice)
        | '=' :: value => do return (← choose choice value draft, none)
        | value => do return (← choose choice value draft, none)
      else do readShort rest (← choose choice [] draft)

-- Whether an argument cannot be the value of the option before it.
def looksLikeOption : List Char → Bool
  | '-' :: _ :: _ => true
  | _ => false

-- Reads arguments, the first of them as the value of an option that waits for one.
def read : (waiting : Option Choice) → List String → Draft → Except Halt Draft
  | none, [], draft => .ok draft
  | some _, [], _ => .error .misuse
  | some choice, value :: rest, draft =>
    if looksLikeOption value.toList then .error .misuse
    else do read none rest (← choose choice value.toList draft)
  | none, arg :: rest, draft =>
    match arg.toList with
    | ['-', '-'] => if rest.isEmpty then .ok draft else .error .misuse
    | '-' :: '-' :: text => do
      let (draft, waiting) ← readLong text draft
      read waiting rest draft
    | '-' :: letter :: text => do
      let (draft, waiting) ← readShort (letter :: text) draft
      read waiting rest draft
    | _ => .error .misuse

-- The first argument from the left that asks for help or the version, or that nobody can make sense
-- of, decides.
def ofArguments (arguments : List String) : Except Halt Invocation := do
  return (← read none arguments {}).invocation

def helpLines : List String :=
  ["Virtual GPIO chips backed by a remote bridge",
    "",
    "Usage: vgpio_core [OPTIONS]",
    "",
    "Options:",
    "  -c, --config <CONFIG>        Path to the configuration file. Defaults apply if the default path does not exist",
    "  -s, --simulate               Run against an in-process simulated bridge instead of UDP",
    "      --sim-lines <SIM_LINES>  Number of lines of the simulated chip [default: 16]",
    "      --sim-uid <SIM_UID>      Uid of the simulated chip [default: 1]",
    "  -v, --verbose                Enable verbose logging",
    "      --json                   Output logs in JSON format",
    "  -h, --help                   Print help",
    "  -V, --version                Print version"]

def versionLine : String := s!"vgpio_core {releaseVersion}"

namespace Halt

def lines : Halt → List String
  | help => helpLines
  | version => [versionLine]
  | misuse => []

def exitCode : Halt → UInt32
  | help | version => 0
  | misuse => 2

end Halt

end Invocation

end GpioBridge
