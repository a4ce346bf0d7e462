import Mathlib.Data.List.Basic
import Desugar.Proofs.Indexed.Flattening
import Desugar.Proofs.Lexer.Reading

/-!
# What the body of a list block lists

`Listing` is the body of a list block written out: tokens, and between them blanks and comments,
which are its layout. `Listing.flattenBody_text` says that flattening depends on the tokens alone.

Flattening leaves out comments by a rule of its own, which knows nothing of strings. Where there
are no quotes there are none, and `flattenBody_eq_code` says that the rule then keeps exactly what
a cursor finds to be code.
-/

namespace Desugar

/-- What a line comment has behind its `#`. -/
structure Comment where
  text : Text
  oneLine : '\n' ∉ text
  noBrace : text.head? ≠ some '{'

/-- A token of a body: it has no blanks, and a `#` in it begins an interpolation. -/
structure Token where
  text : Text
  nonempty : text ≠ []
  solid : ∀ c ∈ text, isBlank c = false
  interpolates : ∀ position : Nat, text[position]? = some '#' → text[position + 1]? = some '{'

/-- A body from some place on, where `separated` tells whether a token may begin there. Behind a
token none may, before there is some layout. The end of the body also ends a comment. -/
inductive Listing : (separated : Bool) → Type where
  | done {separated : Bool} : Listing separated
  | lastComment {separated : Bool} (note : Comment) : Listing separated
  | comment {separated : Bool} (note : Comment) (rest : Listing true) : Listing separated
  | blank {separated : Bool} (c : Char) (white : isBlank c = true) (rest : Listing true) :
      Listing separated
  | token (word : Token) (rest : Listing false) : Listing true

namespace Listing

/-- The body as it is written. -/
def text {separated : Bool} : Listing separated → Text
  | .done => []
  | .lastComment note => '#' :: note.text
  | .comment note rest => '#' :: (note.text ++ '\n' :: rest.text)
  | .blank c _ rest => c :: rest.text
  | .token word rest => word.text ++ rest.text

/-- The texts of its tokens. -/
def tokens {separated : Bool} : Listing separated → List Text
  | .done => []
  | .lastComment _ => []
  | .comment _ rest => rest.tokens
  | .blank _ _ rest => rest.tokens
  | .token word rest => word.text :: rest.tokens

end Listing

variable {c : Char} {rest : Text}

/-- A `#` without an opening brace behind it starts a comment. -/
theorem uncomment_hash (noBrace : rest.head? ≠ some '{') :
    uncomment false ('#' :: rest) = uncomment true rest := by
  rw [uncomment, if_pos]
  rw [Bool.and_eq_true, bne_iff_ne]
  exact ⟨rfl, noBrace⟩

/-- Any other character stays. -/
theorem uncomment_cons (brace : c = '#' → rest.head? = some '{') :
    uncomment false (c :: rest) = c :: uncomment false rest := by
  rw [uncomment, if_neg]
  rw [Bool.and_eq_true, bne_iff_ne, decide_eq_true_eq]
  rintro ⟨hash, noBrace⟩
  exact noBrace (brace hash)

theorem uncomment_blank (white : isBlank c = true) :
    uncomment false (c :: rest) = c :: uncomment false rest := by
  apply uncomment_cons
  rintro rfl
  cases white

/-- A comment leaves the newline that ends it. -/
theorem Comment.uncomment_newline (note : Comment) (rest : Text) :
    uncomment false ('#' :: (note.text ++ '\n' :: rest)) = '\n' :: uncomment false rest := by
  have noBrace : (note.text ++ '\n' :: rest).head? ≠ some '{' := by
    cases shape : note.text with
    | nil => simp
    | cons c text => simpa [shape] using note.noBrace
  calc
    uncomment false ('#' :: (note.text ++ '\n' :: rest)) =
        uncomment true (note.text ++ '\n' :: rest) := uncomment_hash noBrace
    _ = uncomment true note.text ++ '\n' :: uncomment false rest :=
      uncomment_append_newline note.oneLine rest
    _ = '\n' :: uncomment false rest := by rw [uncomment_true note.oneLine, List.nil_append]

/-- A comment that ends with the text leaves nothing. -/
theorem Comment.uncomment_end (note : Comment) : uncomment false ('#' :: note.text) = [] :=
  (uncomment_hash note.noBrace).trans (uncomment_true note.oneLine)

/-- Nothing of a token is left out. -/
theorem Token.uncomment_append (word : Token) (rest : Text) :
    uncomment false (word.text ++ rest) = word.text ++ uncomment false rest := by
  have interpolates := word.interpolates
  generalize word.text = text at interpolates
  induction text with
  | nil => rfl
  | cons c text inductionHypothesis =>
      have brace : c = '#' → (text ++ rest).head? = some '{' := by
        rintro rfl
        have next : text[0]? = some '{' := interpolates 0 rfl
        rw [List.head?_append, List.head?_eq_getElem?, next, Option.some_or]
      have later := inductionHypothesis fun position => interpolates (position + 1)
      rw [List.cons_append, uncomment_cons brace, later, List.cons_append]

namespace Text

theorem words_cons_blank (blank : isBlank c = true) (text : Text) :
    words (c :: text) = words text :=
  words_append_cons blank [] text

/-- A word that is followed by a blank or by nothing is the first word. -/
theorem words_append {word : Text} (nonempty : word ≠ [])
    (solid : ∀ c ∈ word, isBlank c = false) (ends : rest.head?.all isBlank = true) :
    words (word ++ rest) = word :: words rest := by
  have single : words word = [word] := words_eq_singleton nonempty solid
  cases rest with
  | nil =>
      rw [List.append_nil, single]
      rfl
  | cons c rest =>
      have blank : isBlank c = true := ends
      rw [words_append_cons blank, single, words_cons_blank blank, List.singleton_append]

end Text

namespace Listing

/-- Behind a token, what is left without comments begins with a blank or is nothing. -/
theorem head?_uncomment_text (listing : Listing false) :
    (uncomment false listing.text).head?.all isBlank = true := by
  cases listing with
  | done => simp [text, uncomment]
  | lastComment note => simp [text, note.uncomment_end]
  | comment note rest =>
      have newline : isBlank '\n' = true := by decide
      simp [text, note.uncomment_newline, newline]
  | blank c white rest => simp [text, uncomment_blank white, white]

/-- Without comments, the words of a body are its tokens. -/
theorem words_uncomment_text {separated : Bool} (listing : Listing separated) :
    Text.words (uncomment false listing.text) = listing.tokens := by
  induction listing with
  | done => simp [text, tokens, uncomment, Text.words]
  | lastComment note => simp [text, tokens, note.uncomment_end, Text.words]
  | comment note rest inductionHypothesis =>
      have newline : isBlank '\n' = true := by decide
      rw [text, note.uncomment_newline, Text.words_cons_blank newline, inductionHypothesis, tokens]
  | blank c white rest inductionHypothesis =>
      rw [text, uncomment_blank white, Text.words_cons_blank white, inductionHypothesis, tokens]
  | token word rest inductionHypothesis =>
      rw [text, word.uncomment_append, tokens, ← inductionHypothesis]
      exact Text.words_append word.nonempty word.solid rest.head?_uncomment_text

/-- A body is flattened to its tokens with commas between them, at once or line by line, whatever
layout they stand in. Layout alone is flattened to nothing. -/
theorem flattenBody_text (listing : Listing true) :
    flattenBody listing.text = [','].intercalate listing.tokens ∧
      flattenBody? listing.text = some ([','].intercalate listing.tokens) ∧
      (listing.tokens = [] → flattenBody listing.text = []) := by
  have flat : flattenBody listing.text = [','].intercalate listing.tokens := by
    rw [flattenBody, listing.words_uncomment_text]
  refine ⟨flat, ?_, fun none => ?_⟩
  · rw [flattenBody?_eq_some, flat]
  · rw [flat, none]
    rfl

/-- Comments with a carriage return, a line separator and an interpolation in them, one of them
directly behind a token. -/
example :
    flattenBody "#\r\n a#\x7bb\x7d#\x7b# #\x7b\n\u2028c # \u2028d\n\r\ne#".toList =
      "a#\x7bb\x7d#\x7b,c,e".toList := by
  decide +kernel

end Listing

namespace Reading

open Cursor

variable {reading after : Reading} {nesting : Nesting} {previous : Option Char} {position : Nat}

/-- A character that is not code is not among the code. -/
theorem claims_of_step_skip (stepped : reading.step c rest = (false, after)) :
    reading.claims everyCode position (c :: rest) = after.claims everyCode (position + 1) rest := by
  rw [claims_cons, stepped]
  rfl

/-- A character that is code comes first, and the code behind it follows. -/
theorem claims_of_step_code
    (stepped : reading.step c rest = (true, ⟨.fresh, nesting, some c⟩)) :
    reading.claims everyCode position (c :: rest) = (position, c) ::
      (Reading.mk .fresh nesting (some c)).claims everyCode (position + 1) rest := by
  rw [claims_cons, stepped]
  rfl

/-- Outside strings and comments, a character that is no quote and starts no comment is code, if no
quote follows it. -/
theorem step_of_unquoted (noQuote : isQuote c = false)
    (noQuoteBehind : ∀ d ∈ rest, isQuote d = false) (brace : c = '#' → rest.head? = some '{') :
    (Reading.mk .fresh [] previous).step c rest = (true, ⟨.fresh, [], some c⟩) := by
  have notDouble : c ≠ '"' := by
    rintro rfl
    cases noQuote
  have notSingle : c ≠ '\'' := by
    rintro rfl
    cases noQuote
  have notLone : loneQuoteNext rest = false := by
    cases rest with
    | nil => rfl
    | cons d rest => simp [loneQuoteNext, noQuoteBehind d (List.mem_cons_self ..)]
  simp only [step, look, Nesting.visit, notDouble, notSingle, notLone, if_false, Bool.and_false,
    Bool.false_and]
  grind

/-- Outside strings, a cursor finds in a text without quotes what leaving out the comments
leaves. -/
theorem map_claims_of_unquoted {text : Text} (noQuote : ∀ c ∈ text, isQuote c = false)
    (inComment : Bool) (previous : Option Char) (position : Nat) :
    ((Reading.mk (if inComment then .comment else .fresh) [] previous).claims everyCode position
      text).map Prod.snd = uncomment inComment text := by
  induction text generalizing inComment previous position with
  | nil => cases inComment <;> rfl
  | cons c text inductionHypothesis =>
      obtain ⟨first, others⟩ := List.forall_mem_cons.mp noQuote
      have further := inductionHypothesis others
      cases inComment with
      | true =>
          by_cases newline : c = '\n'
          · subst newline
            rw [if_pos rfl, claims_of_step_code (step_newline inCode_nil), uncomment, if_pos rfl]
            exact congrArg _ (further false _ _)
          · have skipped : (Reading.mk .comment [] previous).step c text =
                (false, ⟨.comment, [], some c⟩) := by
              simp [step, newline]
            rw [if_pos rfl, claims_of_step_skip skipped, uncomment, if_neg newline]
            exact further true _ _
      | false =>
          by_cases starts : c = '#' ∧ text.head? ≠ some '{'
          · obtain ⟨rfl, noBrace⟩ := starts
            rw [if_neg Bool.false_ne_true, claims_of_step_skip (step_hash inCode_nil noBrace),
              uncomment_hash noBrace]
            exact further true _ _
          · have brace : c = '#' → text.head? = some '{' := fun hash =>
              Classical.byContradiction fun noBrace => starts ⟨hash, noBrace⟩
            rw [if_neg Bool.false_ne_true, claims_of_step_code (step_of_unquoted first others brace),
              uncomment_cons brace]
            exact congrArg _ (further false _ _)

end Reading

/-- The code of a text is what stands at its code positions. -/
theorem Text.codeText_eq_filterMap (text : Text) :
    text.codeText = text.codePositions.filterMap fun position => text[position]? := by
  have stands : ∀ found ∈ text.scan Cursor.everyCode, text[found.1]? = some found.2 := by
    intro found listed
    obtain ⟨width, claimed⟩ := claimed_of_mem_scan listed
    obtain ⟨c, first, same⟩ := Option.map_eq_some_iff.mp claimed
    rw [← List.head?_drop, first, (Prod.mk.inj same).1]
  calc
    text.codeText = (text.scan Cursor.everyCode).filterMap fun found => some found.2 :=
      (congrFun List.filterMap_eq_map' _).symm
    _ = (text.scan Cursor.everyCode).filterMap fun found => text[found.1]? :=
      List.filterMap_congr fun found listed => (stands found listed).symm
    _ = text.codePositions.filterMap fun position => text[position]? := List.filterMap_map.symm

/-- A text without quotes has its comments left out by keeping its code. -/
theorem uncomment_eq_codeText {text : Text} (noQuote : ∀ c ∈ text, isQuote c = false) :
    uncomment false text = text.codeText :=
  (Reading.map_claims_of_unquoted noQuote false none 0).symm

/-- A body without quotes is flattened, at once or line by line, to the words of its code, joined
with commas. Its code is what stands where the cursor stops on its way through the body. -/
theorem flattenBody_eq_code {body : Text} (noSingle : '\'' ∉ body) (noDouble : '"' ∉ body) :
    (∃ final, Cursor.Exhausts body Cursor.start body.codePositions final) ∧
      flattenBody body = [','].intercalate
        (Text.words (body.codePositions.filterMap fun position => body[position]?)) ∧
      flattenBody? body = some ([','].intercalate
        (Text.words (body.codePositions.filterMap fun position => body[position]?))) := by
  have noQuote : ∀ c ∈ body, isQuote c = false := by
    intro c member
    rw [isQuote, Bool.or_eq_false_iff, beq_eq_false_iff_ne, beq_eq_false_iff_ne]
    exact ⟨ne_of_mem_of_not_mem member noSingle, ne_of_mem_of_not_mem member noDouble⟩
  obtain ⟨final, exhausts, -⟩ := Cursor.exhausts_codePositions body
  refine ⟨⟨final, exhausts⟩, ?_⟩
  rw [← Text.codeText_eq_filterMap, ← uncomment_eq_codeText noQuote]
  exact ⟨rfl, flattenBody?_eq_some body⟩

/-- Interpolations are code with all that stands in them, and a comment is not, at the end of a
line or of the body. -/
theorem flattenBody_eq_code_interpolated :
    '\'' ∉ "a?#\r\n#\x7bb\x7d #\x7b #c\n?d#".toList ∧
      '"' ∉ "a?#\r\n#\x7bb\x7d #\x7b #c\n?d#".toList ∧
      Text.codePositions "a?#\r\n#\x7bb\x7d #\x7b #c\n?d#".toList =
        [0, 1, 4, 5, 6, 7, 8, 9, 10, 11, 12, 15, 16, 17] ∧
      flattenBody "a?#\r\n#\x7bb\x7d #\x7b #c\n?d#".toList = "a?,#\x7bb\x7d,#\x7b,?d".toList := by
  have noSingle : '\'' ∉ "a?#\r\n#\x7bb\x7d #\x7b #c\n?d#".toList := by decide
  have noDouble : '"' ∉ "a?#\r\n#\x7bb\x7d #\x7b #c\n?d#".toList := by decide
  refine ⟨noSingle, noDouble, by decide +kernel, ?_⟩
  rw [(flattenBody_eq_code noSingle noDouble).2.1]
  decide +kernel

end Desugar
