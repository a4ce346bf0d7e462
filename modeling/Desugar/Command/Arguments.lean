import Desugar.Text.Basic

/-!
# Command lines

A command line names one of three commands and then gives options and the input in
any order. An option's value is joined to it by an equals sign or is the next
argument; after a double dash every argument is an input. What is not written this
way is no command line, and `Command.ofArguments?` answers nothing.
-/

namespace Desugar

/-- Where the registered names and the settings of a run come from. -/
structure Sources where
  names : List Text
  namesFile : Option Text
  settingsFile : Option Text
  deriving DecidableEq, Repr

/-- What a run is asked to do. -/
inductive Command where
  /-- Desugar a file, and print or store the text. -/
  | preparse (input : Text) (output : Option Text) (sources : Sources)
  /-- Desugar a file, and only tell whether that succeeds. -/
  | check (input : Text) (sources : Sources)
  /-- Print the standard settings. -/
  | config
  deriving DecidableEq, Repr

namespace Command

/-- An option of a command. -/
inductive Flag where
  | output
  | names
  | namesFile
  | settingsFile
  deriving DecidableEq, Repr

/-- What an argument is by its spelling. -/
inductive Argument where
  /-- The input. -/
  | positional
  /-- The end of the options. -/
  | endOfOptions
  /-- An option, with its value if that is joined to it. -/
  | option (flag : Flag) (value : Option Text)
  /-- An option that the command does not know. -/
  | unknown
  deriving DecidableEq, Repr

/-- The option with a long name. Only some commands store an output. -/
def longFlag? (storesOutput : Bool) (name : Text) : Option Flag :=
  if name = "fns".toList then some .names
  else if name = "fns-file".toList then some .namesFile
  else if name = "config".toList then some .settingsFile
  else if name = "output".toList && storesOutput then some .output
  else none

/-- What an argument is by its spelling. -/
def classify (storesOutput : Bool) : Text → Argument
  | ['-', '-'] => .endOfOptions
  | '-' :: '-' :: body =>
      match longFlag? storesOutput (body.takeWhile (· != '=')) with
      | none => .unknown
      | some flag =>
          match body.dropWhile (· != '=') with
          | [] => .option flag none
          | _ :: value => .option flag (some value)
  | '-' :: letter :: body =>
      if letter = 'o' && storesOutput then
        match body with
        | [] => .option .output none
        | '=' :: value => .option .output (some value)
        | value => .option .output (some value)
      else .unknown
  | _ => .positional

/-- Whether an argument can be the value of the option before it. -/
def isValue : Text → Bool
  | '-' :: _ :: _ => false
  | _ => true

/-- What the arguments read so far have given. -/
structure Draft where
  input : Option Text
  output : Option Text
  sources : Sources
  deriving DecidableEq, Repr

namespace Draft

/-- Nothing has been given. -/
def empty : Draft := ⟨none, none, ⟨[], none, none⟩⟩

/-- Fill a place for a path. It takes one path, and not the empty one. -/
def fill? (place : Option Text) (path : Text) : Option (Option Text) :=
  if place.isSome || path.isEmpty then none else some (some path)

/-- Take the input. -/
def withInput? (draft : Draft) (path : Text) : Option Draft :=
  (fill? draft.input path).map fun input => { draft with input := input }

/-- Take the value of an option. Names are divided by commas and may be given more than
once; a path only once. -/
def withOption? (draft : Draft) (value : Text) : Flag → Option Draft
  | .output => (fill? draft.output value).map fun output => { draft with output := output }
  | .names =>
      let names := (value.splitOn ',').map Text.trim
      some { draft with sources := { draft.sources with names := draft.sources.names ++ names } }
  | .namesFile =>
      (fill? draft.sources.namesFile value).map fun path =>
        { draft with sources := { draft.sources with namesFile := path } }
  | .settingsFile =>
      (fill? draft.sources.settingsFile value).map fun path =>
        { draft with sources := { draft.sources with settingsFile := path } }

/-- Take arguments one after another. -/
def takeAll? (storesOutput : Bool) : Draft → List Text → Option Draft
  | draft, [] => some draft
  | draft, argument :: arguments =>
      match classify storesOutput argument with
      | .positional =>
          (draft.withInput? argument).bind fun draft => takeAll? storesOutput draft arguments
      | .endOfOptions => arguments.foldlM withInput? draft
      | .option flag (some value) =>
          (draft.withOption? value flag).bind fun draft => takeAll? storesOutput draft arguments
      | .option flag none =>
          match arguments with
          | [] => none
          | value :: arguments =>
              if isValue value then
                (draft.withOption? value flag).bind fun draft =>
                  takeAll? storesOutput draft arguments
              else none
      | .unknown => none

end Draft

/-- The command that a command line gives, without the name of the program. -/
def ofArguments? : List Text → Option Command
  | [] => none
  | name :: arguments =>
      if name = "preparse".toList then
        (Draft.empty.takeAll? true arguments).bind fun draft =>
          draft.input.map fun input => .preparse input draft.output draft.sources
      else if name = "check".toList then
        (Draft.empty.takeAll? false arguments).bind fun draft =>
          draft.input.map fun input => .check input draft.sources
      else if name = "config".toList && (arguments = [] || arguments = [['-', '-']]) then
        some .config
      else none

end Command

end Desugar
