import Desugar.Text.Character

/-!
# Texts and positions

A text is the list of its characters, and a position counts characters from its
start. Lines and byte offsets are what a position means to an editor: a line
number counts newlines before the position, a byte offset counts the UTF-8 bytes.
-/

namespace Desugar

/-- A text as the list of its characters. -/
abbrev Text := List Char

namespace Text

/-- Number of bytes of the text in UTF-8. -/
def byteLength (text : Text) : Nat :=
  text.foldr (fun c bytes => c.utf8Size + bytes) 0

/-- Byte offset of a position, if the text reaches that far. -/
def byteOffset? (text : Text) (position : Nat) : Option Nat :=
  if position ≤ text.length then some (byteLength (text.take position)) else none

/-- One-based number of the line that a position lies on. Positions past the end lie
on the last line. -/
def lineAt (text : Text) (position : Nat) : Nat :=
  (text.take position).count '\n' + 1

/-- Character before a position. -/
def before? (text : Text) (position : Nat) : Option Char :=
  if position = 0 then none else text[position - 1]?

/-- End of the longest run of accepted characters that begins at `start`. -/
def runEnd (text : Text) (start : Nat) (accept : Char → Bool) : Nat :=
  start + ((text.drop start).takeWhile accept).length

/-- Whether a word stands at a position. The empty word stands everywhere. -/
def occursAt (text : Text) (position : Nat) (word : Text) : Bool :=
  word.isPrefixOf (text.drop position)

/-- The maximal runs of characters that are not blank, in order. -/
def words (text : Text) : List Text :=
  (text.splitOnP isBlank).filter fun word => !word.isEmpty

/-- The text without the blanks at its two ends. -/
def trim (text : Text) : Text :=
  ((text.dropWhile isBlank).reverse.dropWhile isBlank).reverse

@[simp]
theorem byteLength_nil : byteLength [] = 0 := rfl

@[simp]
theorem byteLength_cons (c : Char) (text : Text) :
    byteLength (c :: text) = c.utf8Size + byteLength text := rfl

@[simp]
theorem byteLength_append (left right : Text) :
    byteLength (left ++ right) = byteLength left + byteLength right := by
  induction left with
  | nil => simp
  | cons c left inductionHypothesis =>
      rw [List.cons_append, byteLength_cons, byteLength_cons, inductionHypothesis, Nat.add_assoc]

@[simp]
theorem before?_zero (text : Text) : text.before? 0 = none := rfl

@[simp]
theorem before?_succ (text : Text) (position : Nat) :
    text.before? (position + 1) = text[position]? := by
  simp [before?]

/-- A run ends at or after its start. -/
theorem le_runEnd (text : Text) (start : Nat) (accept : Char → Bool) :
    start ≤ text.runEnd start accept :=
  Nat.le_add_right _ _

/-- A text that has a character is divided by its first occurrence. -/
theorem exists_eq_takeWhile_append {text : Text} {c : Char} (member : c ∈ text) :
    ∃ rest, text = text.takeWhile (fun other => other != c) ++ c :: rest := by
  induction text with
  | nil => cases member
  | cons first text inductionHypothesis =>
      by_cases same : first = c
      · exact ⟨text, by simp [same]⟩
      · have later : c ∈ text := by
          cases member with
          | head => exact absurd rfl same
          | tail _ later => exact later
        obtain ⟨rest, divided⟩ := inductionHypothesis later
        refine ⟨rest, ?_⟩
        rw [List.takeWhile_cons_of_pos (by simpa using same), List.cons_append, ← divided]

/-- The pieces between separators are made of the other characters of a text. -/
theorem of_mem_splitOnP {separates : Char → Bool} {text piece : Text} {c : Char}
    (listed : piece ∈ text.splitOnP separates) (inside : c ∈ piece) :
    c ∈ text ∧ separates c = false := by
  induction text generalizing piece with
  | nil =>
      rw [List.splitOnP_nil, List.mem_singleton] at listed
      rw [listed] at inside
      cases inside
  | cons d text inductionHypothesis =>
      have later {piece : Text} (listed : piece ∈ text.splitOnP separates) (inside : c ∈ piece) :
          c ∈ d :: text ∧ separates c = false :=
        (inductionHypothesis listed inside).imp_left (List.mem_cons_of_mem _)
      rw [List.splitOnP_cons_eq_if_modifyHead] at listed
      split at listed
      · rcases List.mem_cons.mp listed with rfl | listed
        · cases inside
        · exact later listed inside
      · next other =>
        cases pieces : text.splitOnP separates with
        | nil => exact absurd pieces (List.splitOnP_ne_nil _ _)
        | cons first others =>
            rw [pieces] at listed later
            rcases List.mem_cons.mp listed with rfl | listed
            · rcases List.mem_cons.mp inside with rfl | inside
              · exact ⟨List.mem_cons_self .., Bool.eq_false_iff.mpr other⟩
              · exact later (List.mem_cons_self ..) inside
            · exact later (List.mem_cons_of_mem _ listed) inside

/-- The words of a text are made of its characters that are not blank. -/
theorem of_mem_words {text word : Text} {c : Char} (listed : word ∈ text.words)
    (inside : c ∈ word) : c ∈ text ∧ isBlank c = false :=
  of_mem_splitOnP (List.mem_filter.mp listed).1 inside

/-- The empty word stands everywhere. -/
@[simp]
theorem occursAt_nil (text : Text) (position : Nat) : text.occursAt position [] = true := by
  simp [occursAt]

end Text

end Desugar
