import Desugar.Proofs.Lexer.Reading

/-!
# The grammar of code

A source is built from pieces: plain characters, brace groups, comments, strings of
either kind and character literals. Double-quoted strings hold interpolations, and an
interpolation holds a block of pieces again, so the grammar nests to any depth.

`Block` is the type of such sources and `Block.shape` writes one down, with the
characters that are code marked. What a character means can depend on its neighbours;
`Block.fits` says that they are such that every piece is what it is meant to be. The
main statement, `Block.exhausts_text`, is that a cursor then answers exactly the marked
positions and ends with no string open.
-/

namespace Desugar

/-- A quote that a character literal can hold. -/
inductive Quote where
  | single
  | double
  deriving DecidableEq, Repr

/-- The character of a quote. -/
def Quote.character : Quote → Char
  | .single => '\''
  | .double => '"'

/-- A unit of the body of a single-quoted string. -/
inductive QuotedUnit where
  | plain (c : Char) (ordinary : c ≠ '\'' ∧ c ≠ '\\')
  | escape (c : Char)
  deriving DecidableEq, Repr

/-- A unit as it is written. -/
def QuotedUnit.text : QuotedUnit → Text
  | .plain c _ => [c]
  | .escape c => ['\\', c]

mutual

/-- A sequence of pieces of code. -/
inductive Block where
  | done
  | plain (c : Char) (ordinary : isPlain c = true) (rest : Block)
  | braces (inner rest : Block)
  | comment (text : Text) (oneLine : '\n' ∉ text) (closed : text.head? ≠ some '{') (rest : Block)
  | quoted (units : List QuotedUnit) (rest : Block)
  | string (body : StringBody) (rest : Block)
  | literal (quote : Quote) (rest : Block)

/-- The body of a double-quoted string. -/
inductive StringBody where
  | done
  | plain (c : Char) (ordinary : c ≠ '"' ∧ c ≠ '\\') (rest : StringBody)
  | escape (c : Char) (rest : StringBody)
  | interpolation (inner : Block) (rest : StringBody)

end

/-- Characters of a source, each with whether it is code. -/
abbrev Shape := List (Char × Bool)

namespace Shape

/-- The characters alone. -/
def text (shape : Shape) : Text :=
  shape.map Prod.fst

/-- A text that holds no code. -/
def skipped (text : Text) : Shape :=
  text.map (·, false)

end Shape

mutual

/-- A block as it is written. Code are the plain characters, the braces of groups and
the newlines that end comments. -/
def Block.shape : Block → Shape
  | .done => []
  | .plain c _ rest => (c, true) :: rest.shape
  | .braces inner rest => ('{', true) :: inner.shape ++ ('}', true) :: rest.shape
  | .comment text _ _ rest => ('#', false) :: Shape.skipped text ++ ('\n', true) :: rest.shape
  | .quoted units rest =>
      ('\'', false) :: Shape.skipped (units.flatMap QuotedUnit.text) ++ ('\'', false) :: rest.shape
  | .string body rest => ('"', false) :: body.shape ++ ('"', false) :: rest.shape
  | .literal quote rest => ('?', false) :: (quote.character, false) :: rest.shape

/-- The body of a string as it is written. Code is only what its interpolations hold. -/
def StringBody.shape : StringBody → Shape
  | .done => []
  | .plain c _ rest => (c, false) :: rest.shape
  | .escape c rest => ('\\', false) :: (c, false) :: rest.shape
  | .interpolation inner rest =>
      ('#', false) :: ('{', false) :: inner.shape ++ ('}', false) :: rest.shape

end

mutual

/-- Whether the neighbours of every piece let it be what it is, between the characters
`previous` and `following`: no word stands beside a character literal. -/
def Block.fits (previous : Option Char) : Block → (following : Option Char) → Bool
  | .done, _ => true
  | .plain c _ rest, following => rest.fits (some c) following
  | .braces inner rest, following =>
      inner.fits (some '{') (some '}') && rest.fits (some '}') following
  | .comment _ _ _ rest, following => rest.fits (some '\n') following
  | .quoted _ rest, following => rest.fits (some '\'') following
  | .string body rest, following => body.fits && rest.fits (some '"') following
  | .literal quote rest, following =>
      !previous.any isWord && !(rest.shape.text.head?.or following).any isWord &&
        rest.fits (some quote.character) following

/-- Whether the neighbours of every part let it be what it is: a plain `#` has no opening
brace behind it. -/
def StringBody.fits : StringBody → Bool
  | .done => true
  | .plain c _ rest => (c != '#' || rest.shape.text.head? != some '{') && rest.fits
  | .escape _ rest => rest.fits
  | .interpolation inner rest => inner.fits (some '{') (some '}') && rest.fits

end

namespace Block

/-- A block as a source. -/
def text (block : Block) : Text :=
  block.shape.text

/-- The positions of a block that are code. -/
def codePositions (block : Block) : List Nat :=
  (List.range block.shape.length).filter fun position => block.shape[position]?.any Prod.snd

end Block

namespace Reading

/-- Reading a shape before `following` finds the marked characters to be code and ends at
`final`. -/
def Reads (reading : Reading) (shape : Shape) (following : Text) (final : Reading) : Prop :=
  reading.marks shape.text following = shape.map Prod.snd ∧
    reading.after shape.text following = final

variable {reading middle final : Reading} {shape left right : Shape} {following rest : Text}
  {nesting outer : Nesting} {previous : Option Char} {c : Char} {mark : Bool}

@[simp]
theorem Reads.refl (reading : Reading) (following : Text) : reading.Reads [] following reading :=
  ⟨rfl, rfl⟩

/-- Reading one character and then the others. -/
theorem Reads.cons (stepped : reading.step c (shape.text ++ following) = (mark, middle))
    (others : middle.Reads shape following final) :
    reading.Reads ((c, mark) :: shape) following final := by
  obtain ⟨marked, ended⟩ := others
  constructor
  · calc
      reading.marks (Shape.text ((c, mark) :: shape)) following =
          (reading.step c (shape.text ++ following)).1 ::
            (reading.step c (shape.text ++ following)).2.marks shape.text following := rfl
      _ = mark :: shape.map Prod.snd := by rw [stepped, marked]
  · calc
      reading.after (Shape.text ((c, mark) :: shape)) following =
          (reading.step c (shape.text ++ following)).2.after shape.text following := rfl
      _ = final := by rw [stepped, ended]

/-- Reading one shape before another, then the other. -/
theorem Reads.append (first : reading.Reads left (right.text ++ following) middle)
    (second : middle.Reads right following final) :
    reading.Reads (left ++ right) following final := by
  obtain ⟨marked, ended⟩ := first
  have joined : Shape.text (left ++ right) = left.text ++ right.text := List.map_append
  constructor
  · rw [joined, marks_append, marked, ended, second.1, List.map_append]
  · rw [joined, after_append, ended, second.2]

/-- A text without newlines runs on inside a comment. -/
theorem reads_comment (nesting : Nesting) (previous : Option Char) {text : Text}
    (following : Text) (oneLine : '\n' ∉ text) :
    ∃ last, (Reading.mk .comment nesting previous).Reads (Shape.skipped text) following
      ⟨.comment, nesting, last⟩ := by
  induction text generalizing previous with
  | nil => exact ⟨previous, .refl _ _⟩
  | cons c text inductionHypothesis =>
      rw [List.mem_cons, not_or] at oneLine
      obtain ⟨last, others⟩ := inductionHypothesis (some c) oneLine.2
      exact ⟨last, .cons (by simp [step, Ne.symm oneLine.1]) others⟩

/-- The body of a single-quoted string runs on inside the string. -/
theorem reads_quoted (nesting : Nesting) (previous : Option Char) (units : List QuotedUnit)
    (following : Text) :
    ∃ last, (Reading.mk .quoted nesting previous).Reads
      (Shape.skipped (units.flatMap QuotedUnit.text)) following ⟨.quoted, nesting, last⟩ := by
  induction units generalizing previous with
  | nil => exact ⟨previous, .refl _ _⟩
  | cons unit units inductionHypothesis =>
      cases unit with
      | plain c ordinary =>
          obtain ⟨last, others⟩ := inductionHypothesis (some c)
          exact ⟨last, .cons (by simp [step, ordinary]) others⟩
      | escape c =>
          obtain ⟨last, others⟩ := inductionHypothesis (some c)
          exact ⟨last, .cons rfl (.cons rfl others)⟩

/-- A plain character of a string's literal text opens nothing. -/
theorem step_literalText (ordinary : c ≠ '"' ∧ c ≠ '\\')
    (noBrace : c = '#' → rest.head? ≠ some '{') :
    (Reading.mk .fresh (0 :: outer) previous).step c rest =
      (false, ⟨.fresh, 0 :: outer, some c⟩) := by
  obtain ⟨notQuote, notBackslash⟩ := ordinary
  by_cases hash : c = '#'
  · subst hash
    simp [step, look, Nesting.visit, noBrace rfl]
  · simp [step, look, Nesting.visit, notQuote, notBackslash, hash]

end Reading

open Reading

mutual

/-- A fitting block is read as what it is, whatever strings are open around it, and ends
with the same strings open. -/
theorem Block.reads : ∀ (block : Block) (nesting : Nesting) (previous : Option Char)
    (following : Text), InCode nesting → block.fits previous following.head? = true →
    ∃ last, (Reading.mk .fresh nesting previous).Reads block.shape following
      ⟨.fresh, nesting, last⟩
  | .done, _, previous, _, _, _ => ⟨previous, .refl _ _⟩
  | .plain c ordinary rest, nesting, _, following, inCode, fits => by
      obtain ⟨last, others⟩ := rest.reads nesting (some c) following inCode fits
      exact ⟨last, .cons (step_plain ordinary inCode) others⟩
  | .braces inner rest, nesting, _, following, inCode, fits => by
      simp only [Block.fits, Bool.and_eq_true] at fits
      obtain ⟨last, others⟩ := rest.reads nesting (some '}') following inCode fits.2
      obtain ⟨_, held⟩ := inner.reads (braced nesting) (some '{')
        ('}' :: rest.shape.text ++ following) (inCode_braced nesting) fits.1
      refine ⟨last, .cons (step_openBrace inCode) (held.append ?_)⟩
      exact .cons (step_closeBrace inCode) others
  | .comment text oneLine closed rest, nesting, _, following, inCode, fits => by
      obtain ⟨last, others⟩ := rest.reads nesting (some '\n') following inCode fits
      obtain ⟨_, held⟩ := reads_comment nesting (some '#')
        ('\n' :: rest.shape.text ++ following) oneLine
      have ended := held.append (.cons (step_newline inCode) others)
      refine ⟨last, .cons (step_hash inCode ?_) ended⟩
      cases text with
      | nil => simp [Shape.text, Shape.skipped]
      | cons c text => simpa [Shape.text, Shape.skipped] using closed
  | .quoted units rest, nesting, _, following, inCode, fits => by
      obtain ⟨last, others⟩ := rest.reads nesting (some '\'') following inCode fits
      obtain ⟨_, held⟩ := reads_quoted nesting (some '\'') units
        ('\'' :: rest.shape.text ++ following)
      exact ⟨last, .cons (step_apostrophe inCode) (held.append (.cons rfl others))⟩
  | .string body rest, nesting, _, following, inCode, fits => by
      simp only [Block.fits, Bool.and_eq_true] at fits
      obtain ⟨last, others⟩ := rest.reads nesting (some '"') following inCode fits.2
      obtain ⟨_, held⟩ := body.reads nesting (some '"') (rest.shape.text ++ following) fits.1
      exact ⟨last, .cons (step_quote inCode) (held.append (.cons rfl others))⟩
  | .literal quote rest, nesting, previous, following, inCode, fits => by
      simp only [Block.fits, Bool.and_eq_true, Bool.not_eq_true'] at fits
      obtain ⟨⟨notBehind, notBefore⟩, fits⟩ := fits
      obtain ⟨last, others⟩ :=
        rest.reads nesting (some quote.character) following inCode fits
      have lone : loneQuoteNext (quote.character :: (rest.shape.text ++ following)) = true := by
        cases quote <;>
          simp [loneQuoteNext, Quote.character, isQuote, List.head?_append, notBefore]
      exact ⟨last, .cons (step_question inCode lone notBehind) (.cons rfl others)⟩

/-- The body of a fitting string is read as what it is and ends inside the string. -/
theorem StringBody.reads : ∀ (body : StringBody) (nesting : Nesting) (previous : Option Char)
    (following : Text), body.fits = true →
    ∃ last, (Reading.mk .fresh (0 :: nesting) previous).Reads body.shape ('"' :: following)
      ⟨.fresh, 0 :: nesting, last⟩
  | .done, _, previous, _, _ => ⟨previous, .refl _ _⟩
  | .plain c ordinary rest, nesting, _, following, fits => by
      simp only [StringBody.fits, Bool.and_eq_true] at fits
      obtain ⟨last, others⟩ := rest.reads nesting (some c) following fits.2
      refine ⟨last, .cons (step_literalText ordinary fun hash => ?_) others⟩
      have noBrace : rest.shape.text.head? ≠ some '{' := by simpa [hash] using fits.1
      cases behind : rest.shape.text with
      | nil => simp
      | cons next text => simpa [behind] using noBrace
  | .escape c rest, nesting, _, following, fits => by
      obtain ⟨last, others⟩ := rest.reads nesting (some c) following fits
      exact ⟨last, .cons rfl (.cons rfl others)⟩
  | .interpolation inner rest, nesting, _, following, fits => by
      simp only [StringBody.fits, Bool.and_eq_true] at fits
      obtain ⟨last, others⟩ := rest.reads nesting (some '}') following fits.2
      obtain ⟨_, held⟩ := inner.reads (1 :: nesting) (some '{')
        ('}' :: rest.shape.text ++ '"' :: following) nofun fits.1
      exact ⟨last, .cons rfl (.cons rfl (held.append (.cons rfl others)))⟩

end

namespace Block

/-- Where a block is read as what it is, its code positions are the marked ones. -/
theorem codePositions_text {block : Block} {final : Reading}
    (reads : Reading.start.Reads block.shape [] final) :
    block.text.codePositions = block.codePositions := by
  have whole : block.text.drop 0 = block.text := rfl
  have marks := Text.marks_readingAt whole
  rw [Text.readingAt_zero, ← List.range_eq_range'] at marks
  have length : block.text.length = block.shape.length := List.length_map _
  rw [Text.codePositions_eq_filter, codePositions, length]
  apply List.filter_congr
  intro position inside
  have mark := congrArg (·[position]?) (marks.symm.trans reads.1)
  simp only [length, List.getElem?_map, List.getElem?_range (List.mem_range.mp inside),
    Option.map_some] at mark
  obtain ⟨entry, held, flagged⟩ := Option.map_eq_some_iff.mp mark.symm
  rw [held, Option.any_some, flagged]

/-- Called until it answers nothing on a fitting block as a whole source, a cursor answers
exactly the positions of its plain characters, of the braces of its groups and of the
newlines that end its comments, and ends with no string open. -/
theorem exhausts_text (block : Block) (fits : block.fits none none = true) :
    ∃ final, Cursor.Exhausts block.text Cursor.start block.codePositions final ∧
      final.nesting = [] := by
  obtain ⟨last, reads⟩ := block.reads [] none [] nofun fits
  obtain ⟨final, exhausts, stillOpen⟩ := Cursor.exhausts_codePositions block.text
  have ended : block.text.readingAt block.text.length = ⟨.fresh, [], last⟩ := by
    rw [Text.readingAt, List.take_length, List.drop_length]
    exact reads.2
  rw [codePositions_text reads] at exhausts
  rw [ended] at stillOpen
  exact ⟨final, exhausts, stillOpen⟩

/-- A string whose interpolation holds a brace group with a string that interpolates
again, and a comment with a quote and a brace in it; then a character literal. -/
def nested : Block :=
  .string
    (.plain 'a' (by decide) (.interpolation
      (.braces (.string (.interpolation (.plain 'k' rfl .done) .done) .done)
        (.comment ['"', '}'] (by decide) (by decide) .done))
      (.plain '#' (by decide) .done)))
    (.plain ' ' rfl (.literal .single .done))

theorem exhausts_nested :
    nested.text = "\"a#\x7b\x7b\"#\x7bk\x7d\"\x7d#\"\x7d\n\x7d#\" ?'".toList ∧
      nested.codePositions = [4, 8, 11, 15, 19] ∧ nested.fits none none = true ∧
      ∃ final, Cursor.Exhausts nested.text Cursor.start nested.codePositions final ∧
        final.nesting = [] :=
  ⟨by decide, by decide, by decide, nested.exhausts_text (by decide)⟩

end Block

end Desugar
