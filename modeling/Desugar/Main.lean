import Desugar.Command.Run

/-!
# The program

Runs a command line on the files of the machine: reads what the command names, asks
for its effect, and lets that happen.
-/

namespace Desugar.Machine

/-- The text of a file of the machine. -/
def readText? (path : Text) : IO (Option Text) := do
  try
    let content ← IO.FS.readBinFile (String.ofList path)
    return (String.fromUTF8? content).map String.toList
  catch _ => return none

/-- Store a text in a file of the machine, and tell whether that succeeds. -/
def store (path text : Text) : IO Bool := do
  try
    IO.FS.writeFile (String.ofList path) (String.ofList text)
    return true
  catch _ => return false

/-- Let an effect happen on the machine. -/
def perform : Effect → IO Outcome
  | .print text => return .printed text
  | .approve path => return .approved path
  | .store path text => do
      if ← store path text then return .printed []
      else return .failed (.unwritable path) []

/-- Run a command on the files of the machine. -/
def execute (command : Command) : IO Outcome := do
  let contents ← command.inputs.mapM fun path => return (path, ← readText? path)
  match command.effect fun path => (contents.lookup path).join with
  | .ok effect => perform effect
  | .error failure => return .failed failure []

/-- Run a command line on the files of the machine. -/
def run (arguments : List Text) : IO Outcome :=
  match Command.ofArguments? arguments with
  | some command => execute command
  | none => return .failed .usage []

end Desugar.Machine

/-- Run the arguments of the process and print what the run leaves. -/
def main (arguments : List String) : IO UInt32 := do
  let outcome ← Desugar.Machine.run (arguments.map String.toList)
  IO.print (String.ofList outcome.stdout)
  IO.eprint (String.ofList outcome.stderr)
  return outcome.exitCode.toUInt32
