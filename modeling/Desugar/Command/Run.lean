import Desugar.Command.Arguments
import Desugar.Command.Files
import Desugar.Json.Parser
import Desugar.Json.Printer
import Desugar.Program
import Desugar.Settings.Json

/-!
# Runs of the program

A run reads its files in a fixed order (input, names, settings), desugars, and only
then prints or stores anything. The first thing that fails ends the run, and a run
that fails changes no file. What the files are, where paths lead and what may be read
and written is up to the system (`System`); a working directory by itself is one
(`Files.system`).
-/

namespace Desugar

/-- Why a run fails. -/
inductive Failure where
  /-- The arguments are no command line. -/
  | usage
  /-- A file is missing, a directory or not UTF-8. -/
  | unreadable (path : Text)
  /-- A file of names is not in the right form. -/
  | badNames (path : Text)
  /-- A file of settings is not in the right form. -/
  | badSettings (path : Text)
  /-- The input assigns to a registered name. -/
  | collided (path : Text) (collision : Collision)
  /-- The output cannot be stored. -/
  | unwritable (path : Text)
  deriving DecidableEq, Repr

namespace Failure

/-- The decimal digits of a number. -/
def decimal (number : Nat) : Text :=
  Nat.toDigits 10 number

/-- What a failure says to the user. -/
def message : Failure → Text
  | .usage =>
      "expected: preparse INPUT [-o FILE] [--fns A,B] [--fns-file FILE] [--config FILE]".toList ++
        " | check INPUT [--fns A,B] [--fns-file FILE] [--config FILE] | config".toList
  | .unreadable path => "failed to read ".toList ++ path
  | .badNames path => "invalid vector function list in ".toList ++ path
  | .badSettings path => "invalid preparser config in ".toList ++ path
  | .collided path collision =>
      path ++ ':' :: decimal collision.line ++ " (byte ".toList ++ decimal collision.offset ++
        "): ".toList ++ collision.message
  | .unwritable path => "failed to write ".toList ++ path

/-- The exit code of a failure: bad command lines are told from failed runs. -/
def exitCode : Failure → Nat
  | .usage => 2
  | _ => 1

end Failure

/-- What a run that does not fail does at its end. -/
inductive Effect where
  /-- Print a text. -/
  | print (text : Text)
  /-- Store a text in a file. -/
  | store (path text : Text)
  /-- Tell the user that a file is fine. -/
  | approve (path : Text)
  deriving DecidableEq, Repr

/-- A reader of files: the text that a path leads to, if it can be read. -/
abbrev Reader := Text → Option Text

namespace Reader

/-- The text of a file, or the failure to read it. -/
def text (reader : Reader) (path : Text) : Except Failure Text :=
  match reader path with
  | some text => .ok text
  | none => .error (.unreadable path)

/-- The value that a JSON file gives, or the failure to read or to decode it. -/
def decoded {Value : Type} (reader : Reader) (path : Text) (decode? : Json → Option Value)
    (failure : Failure) : Except Failure Value :=
  (reader.text path).bind fun text =>
    match (Json.parse? text).bind decode? with
    | some value => .ok value
    | none => .error failure

/-- The registered names: those of the file, then those of the command line. -/
def registry (reader : Reader) (sources : Sources) : Except Failure (List Text) :=
  match sources.namesFile with
  | none => .ok sources.names
  | some path =>
      (reader.decoded path Registry.ofJson? (.badNames path)).map fun names =>
        names ++ sources.names

/-- The settings: those of the file, or the standard ones. -/
def settings (reader : Reader) (sources : Sources) : Except Failure Settings :=
  match sources.settingsFile with
  | none => .ok .standard
  | some path => reader.decoded path Settings.ofJson? (.badSettings path)

/-- The text of a file, desugared. -/
def desugared (reader : Reader) (input : Text) (sources : Sources) : Except Failure Text :=
  (reader.text input).bind fun source =>
    (reader.registry sources).bind fun registry =>
      (reader.settings sources).bind fun settings =>
        (desugar settings registry source).mapError (.collided input)

end Reader

namespace Command

/-- The files that a command reads. -/
def inputs : Command → List Text
  | .preparse input _ sources | .check input sources =>
      input :: (sources.namesFile.toList ++ sources.settingsFile.toList)
  | .config => []

/-- What a command does, given the files it reads. -/
def effect (reader : Reader) : Command → Except Failure Effect
  | .preparse input output sources =>
      (reader.desugared input sources).map fun text =>
        match output with
        | none => .print text
        | some path => .store path text
  | .check input sources =>
      (reader.desugared input sources).map fun _ => .approve input
  | .config => .ok (.print (Settings.standard.toJson.pretty ++ ['\n']))

end Command

/-- What a run leaves for the one who started it. -/
structure Outcome where
  exitCode : Nat
  stdout : Text
  stderr : Text
  deriving DecidableEq, Repr

namespace Outcome

/-- A run that succeeds and prints a text. -/
def printed (text : Text) : Outcome := ⟨0, text, []⟩

/-- A run that finds a file fine. -/
def approved (path : Text) : Outcome := ⟨0, [], "OK: ".toList ++ path ++ ['\n']⟩

/-- A run that fails. What is known of the causes stands beneath the message. -/
def failed (failure : Failure) (causes : Text) : Outcome :=
  ⟨failure.exitCode, [], "Error: ".toList ++ failure.message ++ causes ++ ['\n']⟩

/-- An outcome with what has been logged before it. -/
def behind (log : Text) (outcome : Outcome) : Outcome :=
  { outcome with stderr := log ++ outcome.stderr }

end Outcome

/-- What others write into the errors of a run: the causes of a failure, in the words of those
who caused it, and the log, which depends on how it is set up. Causes are the same whatever the
command, so a stack trace is not among them. -/
structure Wording (State : Type) where
  causes : State → Failure → Text
  log : State → Command → Text

/-- Nobody else writes anything. -/
def Wording.silent {State : Type} : Wording State := ⟨fun _ _ => [], fun _ _ => []⟩

/-- A system to run on. Its files are in some state, and paths lead to them as the system sees
fit. It may refuse to read or to write for any reason; a write that it refuses leaves the state
as it was. -/
structure System where
  State : Type
  read? : State → Text → Option ByteArray
  write? : State → Text → ByteArray → Option State
  wording : Wording State

namespace System

variable (system : System) (state : system.State)

/-- The text of the file that a path leads to, if its bytes are UTF-8. -/
def readText? (path : Text) : Option Text :=
  (system.read? state path).bind fun content => (String.fromUTF8? content).map String.toList

/-- The outcome of a run that fails. -/
def failed (failure : Failure) : Outcome :=
  .failed failure (system.wording.causes state failure)

/-- Let an effect happen. -/
def perform : Effect → Outcome × system.State
  | .print text => (.printed text, state)
  | .approve path => (.approved path, state)
  | .store path text =>
      match system.write? state path (String.ofList text).toUTF8 with
      | some after => (.printed [], after)
      | none => (system.failed state (.unwritable path), state)

/-- Run a command. -/
def execute (command : Command) : Outcome × system.State :=
  let done := match command.effect (system.readText? state) with
    | .ok effect => system.perform state effect
    | .error failure => (system.failed state failure, state)
  (done.1.behind (system.wording.log state command), done.2)

/-- Run a command line. -/
def run (arguments : List Text) : Outcome × system.State :=
  match Command.ofArguments? arguments with
  | some command => system.execute state command
  | none => (.failed .usage [], state)

end System

namespace Files

/-- The system that has the files of a working directory and nothing else. -/
def system (wording : Wording Files) : System := ⟨Files, read?, store?, wording⟩

/-- Run a command line in a working directory. -/
def run (files : Files) (arguments : List Text) : Outcome × Files :=
  (system .silent).run files arguments

end Files

end Desugar
