import LineEditor.Settings.Place

/-!
# The command line

Two options with a value, each given once at most, and two flags that ask for information only. An
option's value follows it in an argument of its own, which must not look like an option itself, or
in the same argument after an equals sign. The arguments are read from left to right: a flag counts
as soon as it is met, and so does a mistake.
-/

namespace LineEditor.Application

/-- What the command line sets. -/
structure Arguments where
  /-- The file of settings. -/
  settings? : Option Path := none
  /-- The prompt that takes the place of the one in the settings. -/
  prompt? : Option (List Char) := none
  deriving DecidableEq, Repr

/-- An option with a value. -/
inductive Setting where
  /-- The file of settings. -/
  | settings
  /-- The prompt. -/
  | prompt
  deriving DecidableEq, Repr

/-- What a command line asks for. -/
inductive Command where
  /-- To run. -/
  | run (arguments : Arguments)
  /-- To show how the program is called. -/
  | help
  /-- To show the version. -/
  | version
  deriving DecidableEq, Repr

/-- A mistake in a command line. -/
inductive Mistake where
  /-- Nothing like this argument is expected. -/
  | unexpected (argument : List Char)
  /-- An option lacks its value. -/
  | missingValue (setting : Setting)
  /-- An option is given twice. -/
  | repeated (setting : Setting)
  /-- A flag has a value. -/
  | valueOfFlag (flag value : List Char)
  deriving DecidableEq, Repr

/-! ### Single arguments -/

namespace Setting

/-- The option, as it is written. -/
def flag : Setting → List Char
  | .settings => "--config".toList
  | .prompt => "--prompt".toList

/-- The option of an argument. -/
def ofFlag? (flag : List Char) : Option Setting :=
  [Setting.settings, .prompt].find? (·.flag = flag)

/-- Whether an option has been given. -/
def isSet (arguments : Arguments) : Setting → Bool
  | .settings => arguments.settings?.isSome
  | .prompt => arguments.prompt?.isSome

/-- Gives an option its value. A path is not empty. -/
def set (arguments : Arguments) (setting : Setting) (value : List Char) :
    Except Mistake Arguments :=
  if setting.isSet arguments then .error (.repeated setting)
  else
    match setting with
    | .settings =>
      if value.isEmpty then .error (.missingValue setting)
      else .ok { arguments with settings? := some value }
    | .prompt => .ok { arguments with prompt? := some value }

end Setting

/-- What an argument is. -/
inductive Argument where
  /-- An option, whose value follows it. -/
  | option (setting : Setting)
  /-- An option and its value. -/
  | assigned (setting : Setting) (value : List Char)
  /-- A flag that is a command. -/
  | command (c : Command)
  /-- A flag with a value. -/
  | assignedFlag (flag value : List Char)
  /-- The mark after which there are no options. -/
  | noOptions
  /-- Anything else that looks like an option. -/
  | unknown
  /-- Anything that does not look like an option. -/
  | plain
  deriving DecidableEq, Repr

/-- The part of an argument before its first equals sign, and the part after it, if it has one. -/
def splitAssignment (argument : List Char) : List Char × Option (List Char) :=
  match argument.dropWhile (· ≠ '=') with
  | [] => (argument, none)
  | _ :: value => (argument.takeWhile (· ≠ '='), some value)

/-- The command of a long flag. -/
def longFlag? (flag : List Char) : Option Command :=
  if flag = "--help".toList then some .help
  else if flag = "--version".toList then some .version
  else none

/-- Tells what an argument is. Of short flags in one argument the first counts. -/
def Argument.of (argument : List Char) : Argument :=
  match argument with
  | ['-', '-'] => .noOptions
  | '-' :: '-' :: _ =>
    let (flag, value?) := splitAssignment argument
    match Setting.ofFlag? flag, longFlag? flag, value? with
    | some setting, _, none => .option setting
    | some setting, _, some value => .assigned setting value
    | none, some c, none => .command c
    | none, some _, some value => .assignedFlag flag value
    | none, none, _ => .unknown
  | '-' :: 'h' :: _ => .command .help
  | '-' :: 'V' :: _ => .command .version
  | '-' :: _ :: _ => .unknown
  | _ => .plain

/-! ### Command lines -/

/-- Reads arguments from left to right. -/
def readArguments (arguments : Arguments) : List (List Char) → Except Mistake Command
  | [] => .ok (.run arguments)
  | argument :: rest =>
    match Argument.of argument, rest with
    | .option setting, [] => .error (.missingValue setting)
    | .option setting, value :: rest =>
      if Argument.of value = .plain then do
        readArguments (← setting.set arguments value) rest
      else .error (.missingValue setting)
    | .assigned setting value, rest => do readArguments (← setting.set arguments value) rest
    | .command c, _ => .ok c
    | .assignedFlag flag value, _ => .error (.valueOfFlag flag value)
    | .noOptions, [] => .ok (.run arguments)
    | .noOptions, argument :: _ => .error (.unexpected argument)
    | .unknown, _ | .plain, _ => .error (.unexpected argument)

/-! ### Messages -/

/-- The name of the program. -/
def programName : String := "termline"

/-- The version. -/
def version : String := "0.0.1"

/-- How the program is called. -/
def usage : String := "Usage: " ++ programName ++ " [OPTIONS]"

/-- The text that shows the version. -/
def versionText : String := programName ++ " " ++ version ++ "\n"

/-- The text that shows how the program is called. -/
def helpText : String :=
  "Line editing shell demo\n\n" ++ usage ++ "\n\n"
    ++ "Options:\n"
    ++ "      --config <CONFIG>  Optional configuration file path"
    ++ " (overrides discovery of `termline.toml`)\n"
    ++ "      --prompt <PROMPT>  Prompt to show instead of the configured one\n"
    ++ "  -h, --help             Print help\n"
    ++ "  -V, --version          Print version\n"

/-- An option with the name of its value. -/
def Setting.describe : Setting → String
  | .settings => "--config <CONFIG>"
  | .prompt => "--prompt <PROMPT>"

/-- What is told of a mistake. -/
def Mistake.message (m : Mistake) : String :=
  let reason := match m with
    | .unexpected argument =>
      "unexpected argument '" ++ String.ofList argument ++ "' found\n\n" ++ usage
    | .missingValue setting =>
      "a value is required for '" ++ setting.describe ++ "' but none was supplied"
    | .repeated setting =>
      "the argument '" ++ setting.describe ++ "' cannot be used multiple times\n\n" ++ usage
    | .valueOfFlag flag value =>
      "unexpected value '" ++ String.ofList value ++ "' for '" ++ String.ofList flag
        ++ "' found; no more were expected\n\n" ++ usage
  "error: " ++ reason ++ "\n\nFor more information, try '--help'.\n"

end LineEditor.Application
