import Mathlib.Data.List.Duplicate
import Desugar.Settings.Json

/-!
# Settings read from JSON

A JSON object gives some of the settings and leaves out others, in any order and among members
that are none. `Settings.overlay` is what it should mean: the settings that are listed, on top
of the standard ones. Reading changes the settings one after another, and
`Settings.updateAll?_toJson` says that this comes to the same. `Settings.ofJson?_overlays`
collects what follows for objects, for arrays and for keys that come twice.
-/

namespace Desugar

/-- A list of texts that spell keywords is read back. -/
theorem Keyword.mapM_ofJson?_toJson (keywords : List Keyword) :
    (keywords.map toJson).mapM ofJson? = some keywords := by
  have each : ofJson? ∘ toJson = fun keyword => pure keyword := funext ofJson?_toJson
  rw [List.mapM_map, each, List.mapM_pure, List.map_id']
  rfl

namespace Settings

/-- The settings that are listed as `chosen` has them, the others as in `base`. -/
def overlay (base chosen : Settings) (listed : List Setting) : Settings where
  listBlocks := if .listBlocks ∈ listed then chosen.listBlocks else base.listBlocks
  callSpacing := if .callSpacing ∈ listed then chosen.callSpacing else base.callSpacing
  symbolPaths := if .symbolPaths ∈ listed then chosen.symbolPaths else base.symbolPaths
  nameGuard := if .nameGuard ∈ listed then chosen.nameGuard else base.nameGuard
  decimals := if .decimals ∈ listed then chosen.decimals else base.decimals
  keywords := if .keywords ∈ listed then chosen.keywords else base.keywords
  pathConstructor :=
    if .pathConstructor ∈ listed then chosen.pathConstructor else base.pathConstructor

variable {base chosen : Settings} {listed : List Setting}

@[simp]
theorem overlay_nil (base chosen : Settings) : base.overlay chosen [] = base := by
  simp [overlay]

/-- With all settings listed, nothing of the others is left. -/
@[simp]
theorem overlay_all (base chosen : Settings) : base.overlay chosen Setting.all = chosen := by
  simp [overlay, Setting.all]

/-- Settings may be listed one by one. -/
theorem overlay_overlay (base chosen : Settings) (setting : Setting) (listed : List Setting) :
    (base.overlay chosen [setting]).overlay chosen listed =
      base.overlay chosen (setting :: listed) := by
  have choice {Value : Type} (other : Setting) (given standing : Value) :
      (if other ∈ listed then given else if other ∈ [setting] then given else standing) =
        if other ∈ setting :: listed then given else standing := by
    by_cases later : other ∈ listed <;> simp [later]
  simp only [overlay, choice]

/-- The JSON form of a setting changes this one only, to what it is the form of. -/
theorem update?_toJson (base chosen : Settings) (setting : Setting) :
    setting.update? base (setting.toJson chosen) = some (base.overlay chosen [setting]) := by
  cases setting with
  | keywords =>
      simp only [Setting.update?, Setting.toJson, Json.elements?, Option.bind_some,
        Keyword.mapM_ofJson?_toJson, Option.map_some]
      rfl
  | pathConstructor =>
      simp only [Setting.update?, Setting.toJson, Json.text?_ofText, Option.map_some]
      rfl
  | listBlocks | callSpacing | symbolPaths | nameGuard | decimals => rfl

/-- Changing settings one after another lays them over those at the start. -/
theorem updateAll?_toJson (base chosen : Settings) (listed : List Setting) :
    base.updateAll? (listed.map fun setting => (setting, setting.toJson chosen)) =
      some (base.overlay chosen listed) := by
  induction listed generalizing base with
  | nil =>
      rw [overlay_nil]
      rfl
  | cons setting listed inductionHypothesis =>
      have others := inductionHypothesis (base.overlay chosen [setting])
      rw [overlay_overlay] at others
      simpa [updateAll?, update?_toJson] using others

/-- A member of an object whose key is that of no setting. -/
structure Foreign where
  key : Literal
  name : Text
  value : Json
  spells : key.text? = some name
  unknown : ∀ setting : Setting, setting.key ≠ name

/-- A member of an object that gives settings: one of them, or none. -/
inductive Entry where
  | given (setting : Setting)
  | foreign (member : Foreign)

namespace Entry

/-- The setting that a member gives. -/
def setting? : Entry → Option Setting
  | .given setting => some setting
  | .foreign _ => none

/-- The member as it is written in an object that gives settings as `chosen` has them. -/
def member (chosen : Settings) : Entry → Literal × Json
  | .given setting => (.ofText setting.key, setting.toJson chosen)
  | .foreign member => (member.key, member.value)

/-- The key of a member. -/
def name : Entry → Text
  | .given setting => setting.key
  | .foreign member => member.name

theorem named?_member (chosen : Settings) (entry : Entry) :
    Json.named? (entry.member chosen) = some (entry.name, (entry.member chosen).2) := by
  cases entry with
  | given setting => simp [Json.named?, member, name]
  | foreign foreign => simp [Json.named?, member, name, foreign.spells]

/-- A member is known by its key if it gives a setting. -/
theorem ofKey?_name (entry : Entry) : Setting.ofKey? entry.name = entry.setting? := by
  cases entry with
  | given setting => exact Setting.ofKey?_key setting
  | foreign foreign =>
      refine List.find?_eq_none.mpr fun setting _ => ?_
      simpa [name] using foreign.unknown setting

/-- Of several members, those that give settings are found, in order. -/
theorem filterMap_known (chosen : Settings) (entries : List Entry) :
    (entries.map fun entry => (entry.name, (entry.member chosen).2)).filterMap
        (fun named => (Setting.ofKey? named.1).map (·, named.2)) =
      (entries.filterMap setting?).map fun setting => (setting, setting.toJson chosen) := by
  rw [List.filterMap_map, List.map_filterMap]
  congr 1
  funext entry
  cases entry with
  | given setting => simp [ofKey?_name, setting?, member]
  | foreign foreign => simp [ofKey?_name, setting?]

end Entry

/-- What an object with the given members is searched for. -/
theorem knownMembers?_entries (chosen : Settings) {entries : List Entry}
    (once : (entries.filterMap Entry.setting?).Nodup) :
    Json.knownMembers? Setting.ofKey? (entries.map (Entry.member chosen)) =
      some ((entries.filterMap Entry.setting?).map
        fun setting => (setting, setting.toJson chosen)) := by
  have named : Json.named? ∘ Entry.member chosen =
      fun entry => pure (entry.name, (entry.member chosen).2) :=
    funext (Entry.named?_member chosen)
  have keys : ((entries.filterMap Entry.setting?).map
      fun setting => (setting, setting.toJson chosen)).map Prod.fst =
        entries.filterMap Entry.setting? := by
    rw [List.map_map]
    exact List.map_id' _
  rw [Json.knownMembers?, List.mapM_map, named, List.mapM_pure]
  simp only [Option.pure_def, Option.bind_some, Entry.filterMap_known, keys]
  exact if_pos once

/-- An object gives the settings that it lists, in any order and among any other members. -/
theorem ofJson?_object (chosen : Settings) {entries : List Entry}
    (once : (entries.filterMap Entry.setting?).Nodup) :
    ofJson? (.object (entries.map (Entry.member chosen))) =
      some (standard.overlay chosen (entries.filterMap Entry.setting?)) := by
  rw [ofJson?, knownMembers?_entries chosen once]
  exact updateAll?_toJson standard chosen _

/-- An object that lists some of the settings and has no other members. -/
theorem ofJson?_listed (chosen : Settings) (once : listed.Nodup) :
    ofJson? (.object (listed.map fun setting => (.ofText setting.key, setting.toJson chosen))) =
      some (standard.overlay chosen listed) := by
  have given : (listed.map Entry.given).filterMap Entry.setting? = listed := by
    rw [List.filterMap_map]
    exact List.filterMap_some
  have once : ((listed.map Entry.given).filterMap Entry.setting?).Nodup := by rwa [given]
  have object := ofJson?_object chosen once
  rw [given, List.map_map] at object
  exact object

/-- The settings in order, each with its value, as far as there are values. -/
theorem zip_map_take {Value : Type} (form : Setting → Value) (listed : List Setting)
    (count : Nat) :
    listed.zip ((listed.take count).map form) =
      (listed.take count).map fun setting => (setting, form setting) := by
  induction listed generalizing count with
  | nil => simp
  | cons setting listed inductionHypothesis =>
      cases count with
      | zero => simp
      | succ count =>
          rw [List.take_succ_cons, List.map_cons, List.map_cons, List.zip_cons_cons,
            inductionHypothesis]

/-- An array gives the first settings in order. -/
theorem ofJson?_array (chosen : Settings) (count : Nat) :
    ofJson? (.array ((Setting.all.take count).map (Setting.toJson chosen))) =
      some (standard.overlay chosen (Setting.all.take count)) := by
  have few : ((Setting.all.take count).map (Setting.toJson chosen)).length ≤
      Setting.all.length := by
    rw [List.length_map]
    exact List.length_take_le' ..
  rw [ofJson?, if_pos few, zip_map_take]
  exact updateAll?_toJson standard chosen _

end Settings

/-- The keys of members that are spelled out. -/
theorem Json.map_text?_of_named? {members : List (Literal × Json)} {named : List (Text × Json)}
    (spelled : members.mapM named? = some named) :
    members.map (fun member => member.1.text?) = named.map fun member => some member.1 := by
  induction members generalizing named with
  | nil =>
      cases Option.some.inj spelled
      rfl
  | cons member members inductionHypothesis =>
      rw [List.mapM_cons] at spelled
      obtain ⟨first, firstSpelled, spelled⟩ := Option.bind_eq_some_iff.mp spelled
      obtain ⟨others, othersSpelled, joined⟩ := Option.bind_eq_some_iff.mp spelled
      cases Option.some.inj joined
      obtain ⟨name, text, same⟩ := Option.map_eq_some_iff.mp firstSpelled
      cases same
      simp [text, inductionHypothesis othersSpelled]

/-- A known key that comes twice is refused, wherever it does. -/
theorem Json.knownMembers?_of_duplicate {Key : Type} [DecidableEq Key]
    {known : Text → Option Key} {members : List (Literal × Json)} {name : Text} {key : Key}
    (isKnown : known name = some key)
    (twice : List.Duplicate (some name) (members.map fun member => member.1.text?)) :
    knownMembers? known members = none := by
  refine Option.bind_eq_none_iff.mpr fun named spelled => if_neg fun once => ?_
  rw [map_text?_of_named? spelled, List.duplicate_iff_sublist] at twice
  have repeated := twice.filterMap fun spelling => spelling.bind known
  have keys : (named.map fun member => some member.1).filterMap
        (fun spelling => spelling.bind known) =
      (named.filterMap fun member => (known member.1).map (·, member.2)).map Prod.fst := by
    rw [List.filterMap_map, List.map_filterMap]
    congr 1
    funext member
    simp [Function.comp_def]
  rw [keys] at repeated
  refine List.nodup_iff_sublist.mp once key ?_
  simpa [isKnown] using repeated

namespace Settings

/-- Reading settings from JSON respects the standard ones. An object in which no setting comes
twice gives what it lists, whatever else it has and in whatever order; so the JSON form of
settings gives them back. An array gives the first settings just as an object does that lists
them. An object in which a setting comes twice gives nothing. -/
theorem ofJson?_overlays (chosen : Settings) :
    (∀ entries : List Entry, (entries.filterMap Entry.setting?).Nodup →
      ofJson? (.object (entries.map (Entry.member chosen))) =
        some (standard.overlay chosen (entries.filterMap Entry.setting?))) ∧
    ofJson? chosen.toJson = some chosen ∧
    (∀ count,
      ofJson? (.array ((Setting.all.take count).map (Setting.toJson chosen))) =
        some (standard.overlay chosen (Setting.all.take count)) ∧
      ofJson? (.object ((Setting.all.take count).map
          fun setting => (.ofText setting.key, setting.toJson chosen))) =
        some (standard.overlay chosen (Setting.all.take count))) ∧
    ∀ (members : List (Literal × Json)) (setting : Setting),
      List.Duplicate (some setting.key) (members.map fun member => member.1.text?) →
        ofJson? (.object members) = none := by
  have once : Setting.all.Nodup := by decide
  refine ⟨fun _ => ofJson?_object chosen, ?_, fun count => ⟨ofJson?_array chosen count, ?_⟩, ?_⟩
  · exact (ofJson?_listed chosen once).trans (congrArg some (overlay_all standard chosen))
  · exact ofJson?_listed chosen (once.sublist (List.take_sublist count _))
  · intro members setting twice
    have refused := Json.knownMembers?_of_duplicate (Setting.ofKey?_key setting) twice
    rw [ofJson?, refused]
    rfl

/-- Two settings in another order among members that are none, and a setting that comes twice. -/
theorem ofJson?_overlays_keywords :
    [Setting.keywords, .decimals].Nodup ∧
    ofJson? (.object
        [(.ofText "volume".toList, .null),
          (.ofText "macro_keywords".toList, .array [.ofText "nit".toList]),
          (.ofText "volume".toList, .null), (.ofText "numeric_literals".toList, .bool false)]) =
      some { standard with keywords := [.nit], decimals := false } ∧
    List.Duplicate (some Setting.decimals.key)
      [some "numeric_literals".toList, some "volume".toList, some "numeric_literals".toList] ∧
    ofJson? (.object
        [(.ofText "numeric_literals".toList, .bool true), (.ofText "volume".toList, .null),
          (.ofText "numeric_literals".toList, .number ['1'])]) = none := by
  let volume : Foreign :=
    ⟨.ofText "volume".toList, "volume".toList, .null, Literal.text?_ofText _,
      fun setting => by cases setting <;> decide⟩
  have overlays := ofJson?_overlays { off with keywords := [.nit] }
  have once : [Setting.keywords, .decimals].Nodup := by decide
  have twice : List.Duplicate (some Setting.decimals.key)
      [some "numeric_literals".toList, some "volume".toList, some "numeric_literals".toList] :=
    List.duplicate_iff_two_le_count.mpr (by decide)
  exact ⟨once,
    overlays.1 [.foreign volume, .given .keywords, .foreign volume, .given .decimals] once,
    twice, overlays.2.2.2 _ .decimals twice⟩

end Settings

end Desugar
