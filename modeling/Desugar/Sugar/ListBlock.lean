import Desugar.Edit
import Desugar.Lexer.Scan

/-!
# List blocks

A list block is a parenthesis, a keyword, blanks and a body: `(ing 1 2 3)`. Its body
lists words without commas, and may be laid out over lines with comments. Expanding
the block joins the words with commas, `(ing 1,2,3)`.

The body runs to the next closing parenthesis, also where that one belongs to a pair
opened in the body; such a block is cut short there.
-/

namespace Desugar

/-- The words that introduce a list block. -/
inductive Keyword where
  | ing
  | nit
  | ine
  deriving DecidableEq, Repr

namespace Keyword

/-- Every keyword, in the order in which they are tried. -/
def all : List Keyword := [.ing, .nit, .ine]

/-- Spelling of a keyword. -/
def word : Keyword → Text
  | .ing => ['i', 'n', 'g']
  | .nit => ['n', 'i', 't']
  | .ine => ['i', 'n', 'e']

/-- The keyword of a spelling. -/
def ofWord? (word : Text) : Option Keyword :=
  all.find? fun keyword => keyword.word == word

theorem ofWord?_word (keyword : Keyword) : ofWord? keyword.word = some keyword := by
  cases keyword <;> rfl

end Keyword

/-- Leave out comments: from a `#` without an opening brace after it up to the end of
its line. `inComment` tells whether the text begins inside one. -/
def uncomment : (inComment : Bool) → Text → Text
  | _, [] => []
  | true, c :: rest => if c = '\n' then c :: uncomment false rest else uncomment true rest
  | false, c :: rest =>
      if c = '#' && rest.head? != some '{' then uncomment true rest
      else c :: uncomment false rest

/-- The words of a body, comments left out, joined with commas. -/
def flattenBody (body : Text) : Text :=
  [','].intercalate (Text.words (uncomment false body))

/-- A list block: its keyword, the blanks after the keyword, and its body up to the
closing parenthesis. -/
structure ListBlock where
  keyword : Keyword
  gap : Text
  body : Text
  deriving DecidableEq, Repr

namespace ListBlock

/-- Number of characters before the body. -/
def headWidth (block : ListBlock) : Nat :=
  block.keyword.word.length + block.gap.length + 1

/-- The block as it is written in a source. -/
def written (block : ListBlock) : Text :=
  '(' :: block.keyword.word ++ block.gap ++ block.body ++ [')']

/-- The list block that stands at the head of a text, if it is introduced by one of the
keywords, has a blank after it and is closed. -/
def read? (keywords : List Keyword) : Text → Option ListBlock
  | '(' :: rest =>
      (keywords.find? fun keyword => keyword.word.isPrefixOf rest).bind fun keyword =>
        let tail := rest.drop keyword.word.length
        let gap := tail.takeWhile isBlank
        let content := tail.dropWhile isBlank
        if gap.isEmpty || !content.contains ')' then none
        else some ⟨keyword, gap, content.takeWhile fun c => c != ')'⟩
  | _ => none

/-- The rule that claims list blocks. -/
def rule (keywords : List Keyword) : Rule ListBlock := fun _ rest =>
  (read? keywords rest).map fun block => (block, block.written.length)

/-- The list blocks of a source, each with the position of its opening parenthesis. -/
def all (keywords : List Keyword) (source : Text) : List (Nat × ListBlock) :=
  source.scan (rule keywords)

/-- The edit that flattens the body of a block found at `position`, unless the body is
flat already. -/
def edit? (position : Nat) (block : ListBlock) : Option Edit :=
  let flat := flattenBody block.body
  let start := position + block.headWidth
  if flat = block.body then none else some ⟨start, start + block.body.length, flat⟩

/-- The edits that expand the list blocks of a source. -/
def edits (keywords : List Keyword) (source : Text) : List Edit :=
  (all keywords source).filterMap fun found => edit? found.1 found.2

/-- Expand the list blocks of a source. -/
def expand (keywords : List Keyword) (source : Text) : Text :=
  Edit.applyAll (edits keywords source) source

@[simp]
theorem length_written (block : ListBlock) :
    block.written.length = block.headWidth + block.body.length + 1 := by
  simp [written, headWidth]
  omega

/-- A block is read where it is written: its text stands at the head. -/
theorem written_isPrefix_of_read? {keywords : List Keyword} {text : Text} {block : ListBlock}
    (found : read? keywords text = some block) : block.written <+: text := by
  unfold read? at found
  split at found
  · next rest =>
    obtain ⟨keyword, chosen, found⟩ := Option.bind_eq_some_iff.mp found
    have spelled : keyword.word.isPrefixOf rest = true :=
      List.find?_some (p := fun keyword : Keyword => keyword.word.isPrefixOf rest) chosen
    obtain ⟨tail, rfl⟩ := List.isPrefixOf_iff_prefix.mp spelled
    simp only [List.drop_left] at found
    split at found
    · cases found
    · next shape =>
      cases found
      have closed : ')' ∈ tail.dropWhile isBlank := by simp_all
      obtain ⟨after, divided⟩ := Text.exists_eq_takeWhile_append closed
      refine ⟨after, ?_⟩
      have whole := List.takeWhile_append_dropWhile (p := isBlank) (l := tail)
      rw [divided] at whole
      simp [written, whole]
  · cases found

theorem length_head (block : ListBlock) :
    ('(' :: (block.keyword.word ++ block.gap)).length = block.headWidth := by
  rw [List.length_cons, List.length_append, headWidth]

/-- A block divides the text that it is read from: into its head, its body, and what is left
from the closing parenthesis on. -/
theorem exists_eq_append_of_read? {keywords : List Keyword} {text : Text} {block : ListBlock}
    (found : read? keywords text = some block) :
    ∃ behind, text =
      '(' :: (block.keyword.word ++ block.gap) ++ (block.body ++ ')' :: behind) := by
  obtain ⟨behind, written⟩ := written_isPrefix_of_read? found
  refine ⟨behind, ?_⟩
  rw [← written]
  simp [ListBlock.written]

end ListBlock

end Desugar
