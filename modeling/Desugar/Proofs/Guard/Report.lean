import Desugar.Program
import Desugar.Proofs.Lexer.Reading

/-!
# What the guard reports

`Assignment.Occurs` says what an assignment to a name is: where it stands, and what
stands beside it. The guard looks for assignments by two nested scans, over the
registered names and over the text it reads. `desugar_error_iff` says what a collision
tells about them: the first registered name that is assigned to anywhere, and the line
and byte offset of its first assignment.
-/

namespace Desugar

namespace Text

/-- The bytes of a text in UTF-8. -/
def utf8 (text : Text) : List UInt8 :=
  text.flatMap String.utf8EncodeChar

@[simp]
theorem utf8_append (left right : Text) : utf8 (left ++ right) = left.utf8 ++ right.utf8 :=
  List.flatMap_append

/-- A text has as many bytes as its byte length says. -/
theorem length_utf8 (text : Text) : text.utf8.length = text.byteLength := by
  induction text with
  | nil => rfl
  | cons c text inductionHypothesis =>
      rw [byteLength_cons, ← inductionHypothesis, utf8, List.flatMap_cons, List.length_append,
        String.length_utf8EncodeChar, utf8]

/-- The bytes from a byte offset on are those of the text from its position on. -/
theorem drop_utf8 (text : Text) (position : Nat) :
    text.utf8.drop (byteLength (text.take position)) = utf8 (text.drop position) := by
  have divided : text.utf8 = utf8 (text.take position) ++ utf8 (text.drop position) := by
    rw [← utf8_append, List.take_append_drop]
  rw [divided, ← length_utf8, List.drop_left]

end Text

namespace Assignment

/-- An assignment to a name stands at a position of a text: the position holds code, no
word ends before it, and the name is followed by blanks, an equals sign and then a blank
or a word. -/
structure Occurs (text name : Text) (position : Nat) : Prop where
  code : position ∈ text.codePositions
  ownWord : ∀ c, text.before? position = some c → isWord c = false
  written : ∃ blanks c rest, text.drop position = name ++ blanks ++ '=' :: c :: rest ∧
    (∀ blank ∈ blanks, isBlank blank = true) ∧ (isBlank c = true ∨ isWord c = true)

/-- An equals sign assigns if a blank or a word follows it. -/
theorem assigns_iff {text : Text} :
    assigns text = true ↔
      ∃ c rest, text = '=' :: c :: rest ∧ (isBlank c = true ∨ isWord c = true) := by
  constructor
  · intro assigned
    unfold assigns at assigned
    split at assigned
    · next c rest => exact ⟨c, rest, rfl, by simpa using assigned⟩
    · cases assigned
  · rintro ⟨c, rest, rfl, follows⟩
    simpa [assigns] using follows

/-- What stands at the head of a text where the guard sees an assignment. -/
theorem standsAt_iff {name rest : Text} {previous : Option Char} :
    standsAt name previous rest = true ↔
      (∀ c, previous = some c → isWord c = false) ∧
        ∃ blanks c tail, rest = name ++ blanks ++ '=' :: c :: tail ∧
          (∀ blank ∈ blanks, isBlank blank = true) ∧ (isBlank c = true ∨ isWord c = true) := by
  have ownWord : (!previous.any isWord) = true ↔ ∀ c, previous = some c → isWord c = false := by
    cases previous <;> simp
  rw [standsAt, Bool.and_eq_true, Bool.and_eq_true, ownWord, assigns_iff]
  constructor
  · rintro ⟨⟨named, alone⟩, c, tail, assigned, follows⟩
    obtain ⟨behind, rfl⟩ := List.isPrefixOf_iff_prefix.mp named
    rw [List.drop_left] at assigned
    refine ⟨alone, behind.takeWhile isBlank, c, tail, ?_, ?_, follows⟩
    · rw [← assigned, List.append_assoc, List.takeWhile_append_dropWhile]
    · exact List.all_eq_true.mp List.all_takeWhile
  · rintro ⟨alone, blanks, c, tail, rfl, blank, follows⟩
    have skipped : (blanks ++ '=' :: c :: tail).dropWhile isBlank = '=' :: c :: tail := by
      rw [List.dropWhile_append_of_pos blank]
      rfl
    refine ⟨⟨?_, alone⟩, c, tail, ?_, follows⟩
    · rw [List.append_assoc]
      exact List.isPrefixOf_iff_prefix.mpr (List.prefix_append _ _)
    · rw [List.append_assoc, List.drop_left, skipped]

/-- The guard looks for assignments where they can stand. -/
theorem occurs_iff {text name : Text} {position : Nat} :
    Occurs text name position ↔
      (text.isCodeAt position &&
        standsAt name (text.before? position) (text.drop position)) = true := by
  rw [Bool.and_eq_true, standsAt_iff, ← Text.mem_codePositions]
  exact ⟨fun ⟨code, alone, written⟩ => ⟨code, alone, written⟩,
    fun ⟨code, alone, written⟩ => ⟨code, alone, written⟩⟩

/-- An assignment stands inside the text. -/
theorem Occurs.lt_length {text name : Text} {position : Nat} (occurs : Occurs text name position) :
    position < text.length := by
  have member := occurs.code
  rw [Text.codePositions_eq_filter, List.mem_filter, List.mem_range] at member
  exact member.1

/-- The guard takes the first code position at which the name is assigned to. -/
theorem first?_eq_find? (text name : Text) :
    first? text name = (List.range text.length).find? fun position =>
      text.isCodeAt position && standsAt name (text.before? position) (text.drop position) := by
  have single : (rule name).Single := by
    intro previous rest item width claimed
    unfold rule at claimed
    split at claimed
    · cases claimed
      rfl
    · cases claimed
  have claimed (position : Nat) :
      (text.claimAt? (rule name) position).map Prod.fst =
        Option.guard (fun position => text.isCodeAt position &&
          standsAt name (text.before? position) (text.drop position)) position := by
    rw [Text.claimAt?, rule, Option.guard]
    cases text.isCodeAt position with
    | false => rfl
    | true => cases standsAt name (text.before? position) (text.drop position) <;> rfl
  rw [first?, Text.scan_eq_filterMap single, ← List.head?_map, List.map_filterMap,
    List.head?_filterMap, funext claimed, List.findSome?_guard]

/-- The guard finds the smallest position at which the name is assigned to. -/
theorem first?_eq_some_iff {text name : Text} {position : Nat} :
    first? text name = some position ↔
      Occurs text name position ∧ ∀ other, Occurs text name other → position ≤ other := by
  rw [first?_eq_find?, List.find?_range_eq_some]
  simp only [Bool.not_eq_true', ← Bool.not_eq_true, ← occurs_iff]
  constructor
  · rintro ⟨occurs, _, earlier⟩
    exact ⟨occurs, fun other found => Nat.le_of_not_lt fun before => earlier other before found⟩
  · rintro ⟨occurs, least⟩
    refine ⟨occurs, List.mem_range.mpr occurs.lt_length, fun other before found => ?_⟩
    exact absurd (least other found) (Nat.not_le_of_lt before)

/-- The guard finds nothing only if the name is assigned to nowhere. -/
theorem first?_eq_none_iff {text name : Text} :
    first? text name = none ↔ ∀ position, ¬ Occurs text name position := by
  rw [first?_eq_find?, List.find?_range_eq_none]
  simp only [Bool.not_eq_true', ← Bool.not_eq_true, ← occurs_iff]
  constructor
  · intro nowhere position occurs
    exact nowhere position occurs.lt_length occurs
  · intro nowhere position _
    exact nowhere position

/-- No report on a name means that it is assigned to nowhere. -/
theorem collision?_eq_none_iff {text name : Text} :
    collision? text name = none ↔ ∀ position, ¬ Occurs text name position := by
  rw [collision?, Option.map_eq_none_iff, first?_eq_none_iff]

/-- A report names the smallest position at which the name is assigned to, by its line
and its byte offset. -/
theorem collision?_eq_some_iff {text name : Text} {collision : Collision} :
    collision? text name = some collision ↔
      ∃ position, Occurs text name position ∧
        (∀ other, Occurs text name other → position ≤ other) ∧
        collision = ⟨name, text.lineAt position, Text.byteLength (text.take position)⟩ := by
  rw [collision?, Option.map_eq_some_iff]
  constructor
  · rintro ⟨position, found, rfl⟩
    obtain ⟨occurs, least⟩ := first?_eq_some_iff.mp found
    exact ⟨position, occurs, least, rfl⟩
  · rintro ⟨position, occurs, least, rfl⟩
    exact ⟨position, first?_eq_some_iff.mpr ⟨occurs, least⟩, rfl⟩

/-- The bytes of a text from the offset of an assignment on start with the name. -/
theorem Occurs.utf8_prefix {text name : Text} {position : Nat}
    (occurs : Occurs text name position) :
    name.utf8 <+: text.utf8.drop (Text.byteLength (text.take position)) := by
  obtain ⟨blanks, c, rest, written, _⟩ := occurs.written
  rw [Text.drop_utf8, written, List.append_assoc, Text.utf8_append]
  exact List.prefix_append _ _

end Assignment

/-- A text with the decimals completed, if the settings say so, is what the passes after
the guard leave. -/
theorem runAll_passesAfterGuard (settings : Settings) (text : Text) :
    Pass.runAll settings.passesAfterGuard text =
      if settings.decimals then Decimal.complete text else text := by
  unfold Settings.passesAfterGuard
  split <;> rfl

open Assignment

theorem mem_properNames {registry : List Text} {name : Text} :
    name ∈ properNames registry ↔ name ∈ registry ∧ name ≠ [] := by
  simp [properNames]

/-- The report on several names is that on the first of them which is assigned to. -/
theorem firstCollision?_eq_some_iff {text : Text} {registry : List Text}
    {collision : Collision} :
    firstCollision? text (properNames registry) = some collision ↔
      ∃ before after, registry = before ++ collision.name :: after ∧ collision.name ≠ [] ∧
        (∀ name ∈ before, name ≠ [] → ∀ position, ¬ Occurs text name position) ∧
        Assignment.collision? text collision.name = some collision := by
  rw [firstCollision?, List.findSome?_eq_some_iff]
  constructor
  · rintro ⟨skipped, name, others, divided, found, missed⟩
    obtain ⟨before, behind, rfl, rfl, behindDivided⟩ := List.filter_eq_append_iff.mp divided
    obtain ⟨empty, after, rfl, allEmpty, proper, _⟩ := List.filter_eq_cons_iff.mp behindDivided
    obtain ⟨_, _, _, rfl⟩ := collision?_eq_some_iff.mp found
    refine ⟨before ++ empty, after, by simp, by simpa using proper, ?_, found⟩
    intro other member nonempty
    rcases List.mem_append.mp member with member | member
    · exact collision?_eq_none_iff.mp (missed other (by simp [member, nonempty]))
    · exact absurd (by simpa using nonempty) (allEmpty other member)
  · rintro ⟨before, after, rfl, proper, missed, found⟩
    refine ⟨properNames before, collision.name, properNames after, ?_, found, ?_⟩
    · simp [properNames, proper]
    · intro other member
      obtain ⟨member, nonempty⟩ := mem_properNames.mp member
      exact collision?_eq_none_iff.mpr (missed other member nonempty)

/-- There is no report on several names if none of them is assigned to. -/
theorem firstCollision?_eq_none_iff {text : Text} {registry : List Text} :
    firstCollision? text (properNames registry) = none ↔
      ∀ name ∈ registry, name ≠ [] → ∀ position, ¬ Occurs text name position := by
  rw [firstCollision?, List.findSome?_eq_none_iff]
  constructor
  · intro nowhere name member proper
    exact collision?_eq_none_iff.mp (nowhere name (mem_properNames.mpr ⟨member, proper⟩))
  · intro nowhere name member
    obtain ⟨member, proper⟩ := mem_properNames.mp member
    exact collision?_eq_none_iff.mpr (nowhere name member proper)

/-- A program in which the guard finds nothing is desugared to what the last passes
leave. -/
theorem desugar_eq_ok {settings : Settings} {registry : List Text} {source output : Text}
    (clear : collision? settings registry source = none)
    (completed : Pass.runAll settings.passesAfterGuard (guardedText settings registry source) =
      output) : desugar settings registry source = .ok output := by
  rw [desugar, clear, completed]

/-- With the guard on, a program is desugared unless the guard reports an assignment in
the text it reads. -/
theorem desugar_eq_of_nameGuard {settings : Settings} (guarded : settings.nameGuard = true)
    (registry : List Text) (source : Text) :
    desugar settings registry source =
      match firstCollision? (guardedText settings registry source) (properNames registry) with
      | some collision => .error collision
      | none =>
          .ok (if settings.decimals then Decimal.complete (guardedText settings registry source)
            else guardedText settings registry source) := by
  have guard : collision? settings registry source =
      firstCollision? (guardedText settings registry source) (properNames registry) := by
    rw [collision?, if_pos guarded]
  cases found : firstCollision? (guardedText settings registry source) (properNames registry) with
  | none => simp only [desugar, guard, found, runAll_passesAfterGuard]
  | some collision => simp only [desugar, guard, found]

/-- With the guard on, a collision is what the guard reports. -/
theorem desugar_eq_error_iff {settings : Settings} (guarded : settings.nameGuard = true)
    {registry : List Text} {source : Text} {collision : Collision} :
    desugar settings registry source = .error collision ↔
      firstCollision? (guardedText settings registry source) (properNames registry) =
        some collision := by
  rw [desugar_eq_of_nameGuard guarded]
  cases firstCollision? (guardedText settings registry source) (properNames registry) <;> simp

/-- With the guard on, a program is refused if a registered name is assigned to in the text
that the guard reads. -/
theorem exists_error_iff {settings : Settings} (guarded : settings.nameGuard = true)
    {registry : List Text} {source : Text} :
    (∃ collision, desugar settings registry source = .error collision) ↔
      ∃ name ∈ registry, name ≠ [] ∧
        ∃ position, Occurs (guardedText settings registry source) name position := by
  simp only [desugar_eq_error_iff guarded]
  rw [← Option.isSome_iff_exists, ← Option.ne_none_iff_isSome, ne_eq,
    firstCollision?_eq_none_iff]
  simp only [Classical.not_forall, Classical.not_not, exists_prop]

/-- A collision is reported exactly if a registered name that is not empty is assigned to
in the text that the guard reads. It names the first such name in the order of the
registry and the first place where that name is assigned to, by the line and by the byte
offset, from which on the text starts with the name. Otherwise decimals are completed. -/
theorem desugar_error_iff {settings : Settings} (guarded : settings.nameGuard = true)
    (registry : List Text) (source : Text) :
    let text := guardedText settings registry source
    (∀ collision, desugar settings registry source = .error collision ↔
      ∃ before after position, registry = before ++ collision.name :: after ∧
        collision.name ≠ [] ∧
        (∀ name ∈ before, name ≠ [] → ∀ other, ¬ Occurs text name other) ∧
        Occurs text collision.name position ∧
        (∀ other, Occurs text collision.name other → position ≤ other) ∧
        collision.line = 1 + (text.take position).count '\n' ∧
        collision.offset = (Text.utf8 (text.take position)).length ∧
        collision.name.utf8 <+: text.utf8.drop collision.offset) ∧
    ((∃ collision, desugar settings registry source = .error collision) ↔
      ∃ name ∈ registry, name ≠ [] ∧ ∃ position, Occurs text name position) ∧
    ((∀ name ∈ registry, name ≠ [] → ∀ position, ¬ Occurs text name position) →
      desugar settings registry source =
        .ok (if settings.decimals then Decimal.complete text else text)) := by
  intro text
  refine ⟨fun collision => ?_, exists_error_iff guarded, fun nowhere => ?_⟩
  · rw [desugar_eq_error_iff guarded, firstCollision?_eq_some_iff]
    constructor
    · rintro ⟨before, after, divided, proper, missed, found⟩
      obtain ⟨position, occurs, least, reported⟩ := collision?_eq_some_iff.mp found
      have line : collision.line = text.lineAt position := congrArg Collision.line reported
      have offset : collision.offset = Text.byteLength (text.take position) :=
        congrArg Collision.offset reported
      refine ⟨before, after, position, divided, proper, missed, occurs, least, ?_, ?_, ?_⟩
      · rw [line, Text.lineAt, Nat.add_comm]
      · rw [offset, Text.length_utf8]
      · rw [offset]
        exact occurs.utf8_prefix
    · rintro ⟨before, after, position, divided, proper, missed, occurs, least, line, offset, _⟩
      refine ⟨before, after, divided, proper, missed, ?_⟩
      refine collision?_eq_some_iff.mpr ⟨position, occurs, least, ?_⟩
      rw [Text.lineAt, ← Nat.add_comm 1, ← line, ← Text.length_utf8, ← offset]
  · rw [desugar_eq_of_nameGuard guarded, firstCollision?_eq_none_iff.mpr nowhere]

/-- The second of two names is assigned to, behind a character of two bytes and a call of
the first name that is respaced. -/
theorem desugar_error_ring :
    Settings.standard.nameGuard = true ∧
      desugar .standard [[], "knit".toList, "ring".toList] "é = 1\n(knit 1)\nring = 2".toList =
        .error ⟨"ring".toList, 3, 16⟩ := by
  refine ⟨rfl, ?_⟩
  have text : guardedText .standard [[], "knit".toList, "ring".toList]
      "é = 1\n(knit 1)\nring = 2".toList = "é = 1\n knit(1)\nring = 2".toList := by
    decide +kernel
  have knitMissed : first? "é = 1\n knit(1)\nring = 2".toList "knit".toList = none := by
    decide +kernel
  have ringFound : first? "é = 1\n knit(1)\nring = 2".toList "ring".toList = some 15 := by
    decide +kernel
  obtain ⟨occurs, least⟩ := first?_eq_some_iff.mp ringFound
  have error_iff := (desugar_error_iff (show Settings.standard.nameGuard = true from rfl)
    [[], "knit".toList, "ring".toList] "é = 1\n(knit 1)\nring = 2".toList).1
  rw [text] at error_iff
  refine (error_iff _).mpr ⟨[[], "knit".toList], [], 15, rfl, by decide, ?_, occurs, least,
    by decide +kernel, by decide +kernel, by decide +kernel⟩
  intro name member proper
  simp only [List.mem_cons, List.not_mem_nil, or_false] at member
  rcases member with rfl | rfl
  · exact absurd rfl proper
  · exact first?_eq_none_iff.mp knitMissed

end Desugar
