import Desugar.Json.Basic
import Desugar.Settings.Basic

/-!
# Settings and names in JSON

Settings are an object with one member a setting; what it leaves out keeps its
standard value, and members with unknown keys are ignored. An array gives the values
of the first settings in order instead. Names of built-in functions are an array of
objects with the member `name`, or of arrays with the name alone.
-/

namespace Desugar

/-- The JSON form of a keyword. -/
def Keyword.toJson (keyword : Keyword) : Json :=
  .ofText keyword.word

/-- The keyword that a JSON value gives: its spelling, or an object whose only member
has the spelling as its key and the value null. -/
def Keyword.ofJson? : Json → Option Keyword
  | .string literal => literal.text?.bind Keyword.ofWord?
  | .object [(key, .null)] => key.text?.bind Keyword.ofWord?
  | _ => none

theorem Keyword.ofJson?_toJson (keyword : Keyword) : ofJson? keyword.toJson = some keyword := by
  simp [toJson, Json.ofText, ofJson?, ofWord?_word]

/-- One of the settings. -/
inductive Setting where
  | listBlocks
  | callSpacing
  | symbolPaths
  | nameGuard
  | decimals
  | keywords
  | pathConstructor
  deriving DecidableEq, Repr

namespace Setting

/-- Every setting, in the order in which they are listed. -/
def all : List Setting :=
  [.listBlocks, .callSpacing, .symbolPaths, .nameGuard, .decimals, .keywords, .pathConstructor]

/-- The key of a setting. -/
def key : Setting → Text
  | .listBlocks => "list_macros".toList
  | .callSpacing => "call_spacing".toList
  | .symbolPaths => "symbol_paths".toList
  | .nameGuard => "name_guard".toList
  | .decimals => "numeric_literals".toList
  | .keywords => "macro_keywords".toList
  | .pathConstructor => "symbol_path_constructor".toList

/-- The setting with a key. -/
def ofKey? (key : Text) : Option Setting :=
  all.find? fun setting => setting.key == key

theorem ofKey?_key (setting : Setting) : ofKey? setting.key = some setting := by
  cases setting <;> decide

/-- The JSON form of the value of a setting. -/
def toJson (settings : Settings) : Setting → Json
  | .listBlocks => .bool settings.listBlocks
  | .callSpacing => .bool settings.callSpacing
  | .symbolPaths => .bool settings.symbolPaths
  | .nameGuard => .bool settings.nameGuard
  | .decimals => .bool settings.decimals
  | .keywords => .array (settings.keywords.map Keyword.toJson)
  | .pathConstructor => .ofText settings.pathConstructor

/-- The settings with one of them changed to what a JSON value gives. -/
def update? (settings : Settings) (setting : Setting) (value : Json) : Option Settings :=
  match setting with
  | .listBlocks => value.bool?.map fun on => { settings with listBlocks := on }
  | .callSpacing => value.bool?.map fun on => { settings with callSpacing := on }
  | .symbolPaths => value.bool?.map fun on => { settings with symbolPaths := on }
  | .nameGuard => value.bool?.map fun on => { settings with nameGuard := on }
  | .decimals => value.bool?.map fun on => { settings with decimals := on }
  | .keywords =>
      (value.elements?.bind fun elements => elements.mapM Keyword.ofJson?).map fun keywords =>
        { settings with keywords := keywords }
  | .pathConstructor =>
      value.text?.map fun constructor => { settings with pathConstructor := constructor }

end Setting

namespace Settings

/-- The settings with several of them changed, one after another. -/
def updateAll? (settings : Settings) (values : List (Setting × Json)) : Option Settings :=
  values.foldlM (fun settings value => value.1.update? settings value.2) settings

/-- The settings that a JSON value gives. -/
def ofJson? : Json → Option Settings
  | .object members => (Json.knownMembers? Setting.ofKey? members).bind standard.updateAll?
  | .array elements =>
      if elements.length ≤ Setting.all.length then
        standard.updateAll? (Setting.all.zip elements)
      else none
  | _ => none

/-- The JSON object of settings, each under its key. -/
def toJson (settings : Settings) : Json :=
  .object (Setting.all.map fun setting => (.ofText setting.key, setting.toJson settings))

end Settings

namespace Registry

/-- The key of a built-in function's name. -/
def nameKey? (key : Text) : Option Unit :=
  if key = "name".toList then some () else none

/-- The name of a built-in function that a JSON value gives. -/
def nameOfJson? : Json → Option Text
  | .object members =>
      match Json.knownMembers? nameKey? members with
      | some [(_, name)] => name.text?
      | _ => none
  | .array [name] => name.text?
  | _ => none

/-- The names of built-in functions that a JSON value gives. -/
def ofJson? (value : Json) : Option (List Text) :=
  value.elements?.bind fun elements => elements.mapM nameOfJson?

end Registry

end Desugar
