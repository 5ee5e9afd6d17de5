import LineEditor.Application.Invocation

/-!
# The command line program

The outer layer of the program: it reads the command line, the settings and the standard input, and
prints. The terminal has to pass on every key as it is typed and must not echo it, as after
`stty raw -echo`. From a terminal the input is taken byte by byte, otherwise in whole blocks.
-/

namespace LineEditor.Application

/-- Prints what is to be shown. -/
def printOutput (stdout : IO.FS.Stream) (r : Running) : IO Running := do
  let (text, r) := r.takeOutput
  stdout.putStr (String.ofList text)
  stdout.flush
  return r

/-- Takes the blocks of the input until the program quits or the input ends. -/
partial def serve (stdin stdout : IO.FS.Stream) (size : USize) (r : Running) : IO Running := do
  let r ← printOutput stdout r
  if r.quit then return r
  else
    let block ← stdin.read size
    if block.isEmpty then return r.close
    else serve stdin stdout size (r.receive block.toList)

/-- The bytes of a file that can be read. -/
def readFile (path : Path) : IO (Option (List UInt8)) := do
  try
    let content ← IO.FS.readBinFile (String.ofList path)
    return some content.toList
  catch _ => return none

/-- Whether there is a file. -/
def isThere (path : Path) : IO Bool := do
  try
    let _ ← IO.FS.realPath (String.ofList path)
    return true
  catch _ => return false

/-- The settings that are in effect. -/
def findSettings (arguments : Arguments) : IO Settings := do
  let place : Settings.Place :=
    { given? := arguments.settings?
      isLocal := ← isThere Settings.fileName
      settingsHome? := (← IO.getEnv "XDG_CONFIG_HOME").map String.toList
      home? := (← IO.getEnv "HOME").map String.toList }
  return (Settings.load place.file (← readFile place.file)).settings

/-- Runs the program on the standard input and the standard output, and returns its exit code. -/
def runProgram (arguments : Arguments) : IO UInt32 := do
  let stdin ← IO.getStdin
  let stdout ← IO.getStdout
  let settings ← findSettings arguments
  let size : USize := if ← stdin.isTty then 1 else Running.blockSize.toUSize
  let outcome ← match Running.launch settings (arguments.promptIn settings) {} with
    | .error why => pure (CallOutcome.failure [] why)
    | .ok r => do
      let r ← serve stdin stdout size r
      pure (r.leave?.getD (.failure r.state.output []))
  stdout.putStr (String.ofList outcome.output)
  (← IO.getStderr).putStr (String.ofList outcome.errors)
  return outcome.exitCode.toUInt32

end LineEditor.Application

open LineEditor.Application in
/-- The program. -/
def main (arguments : List String) : IO UInt32 := do
  match readArguments {} (arguments.map String.toList) with
  | .error mistake =>
    (← IO.getStderr).putStr mistake.message
    return mistakeCode.toUInt32
  | .ok .help =>
    (← IO.getStdout).putStr helpText
    return 0
  | .ok .version =>
    (← IO.getStdout).putStr versionText
    return 0
  | .ok (.run arguments) => runProgram arguments
