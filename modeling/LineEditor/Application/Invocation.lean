import LineEditor.Application.Arguments
import LineEditor.Application.Running

/-!
# Calling the program

A call of the program reads its command line, finds its settings and runs; or it answers a flag, or
tells of a mistake. `Invocation.outcome?` is a whole call as a function of everything around it, and
gives something only for a call that comes to its end.
-/

namespace LineEditor.Application

/-- The exit code of a call with a mistake in it. -/
def mistakeCode : Nat := 2

/-- The prompt that is in effect. -/
def Arguments.promptIn (arguments : Arguments) (settings : Settings) : List Char :=
  arguments.prompt?.getD settings.prompt

/-- Everything that a call of the program depends on. -/
structure Invocation where
  /-- The arguments. -/
  arguments : List (List Char)
  /-- What is around the program. -/
  surroundings : Settings.Surroundings
  /-- The bytes of the input. -/
  input : List UInt8
  /-- Whether the input ends after these bytes. -/
  ends : Bool := false
  /-- What the program is granted. -/
  host : Host := {}

/-- What a call comes to, if it comes to its end. -/
def Invocation.outcome? (i : Invocation) : Option CallOutcome :=
  match readArguments {} i.arguments with
  | .error mistake =>
    some { exitCode := mistakeCode, output := [], errors := mistake.message.toList }
  | .ok .help => some { exitCode := 0, output := helpText.toList }
  | .ok .version => some { exitCode := 0, output := versionText.toList }
  | .ok (.run arguments) =>
    let settings := (Settings.find i.surroundings arguments.settings?).settings
    match Running.launch settings (arguments.promptIn settings) i.host with
    | .error why => some (.failure [] why)
    | .ok r => r.outcome? i.input i.ends

/-- What a call comes to for who does not wait: a call that goes on waiting counts as failed. -/
def Invocation.outcome (i : Invocation) : CallOutcome :=
  i.outcome?.getD { exitCode := failureCode, output := [] }

end LineEditor.Application
