import Desugar.Text.Basic

/-!
# Regions skipped whole

Three kinds of text hold no code at all and are recognised at their first
character: a line comment, a quote written as a character literal, and a
single-quoted string. `regionWidth?` measures such a region. Double-quoted strings
are not regions, since their interpolations hold code.
-/

namespace Desugar

/-- Width of the rest of a single-quoted string whose opening quote has been read: its
body and its closing quote. A backslash protects the character after it; a string
that nobody closes runs to the end. -/
def quotedWidth : Text → Nat
  | [] => 0
  | '\\' :: _ :: rest => quotedWidth rest + 2
  | c :: rest => if c = '\'' then 1 else quotedWidth rest + 1

/-- Width of the region that starts at the head of `rest`, where `previous` is the
character before it.

* A comment is `#`, unless an opening brace follows, and all that follows up to the
  newline, which stays outside.
* A character literal is `?` with a quote, where neither the character before nor the
  one after belongs to a word; otherwise the `?` chooses between two values and the
  quote opens a string.
* A single-quoted string is measured by `quotedWidth`. -/
def regionWidth? (previous : Option Char) : Text → Option Nat
  | '#' :: rest =>
      if rest.head? = some '{' then none
      else some ((rest.takeWhile fun c => c != '\n').length + 1)
  | '?' :: quote :: rest =>
      if (quote = '\'' || quote = '"') && !rest.head?.any isWord && !previous.any isWord then
        some 2
      else none
  | '\'' :: rest => some (quotedWidth rest + 1)
  | _ => none

/-- Position just after the region that starts at `position`, if one does. Every
position at or past the end of the source counts as the start of an empty region
there. -/
def regionEnd? (source : Text) (position : Nat) : Option Nat :=
  if source.length ≤ position then some source.length
  else (regionWidth? (source.before? position) (source.drop position)).map (position + ·)

/-- A string ends inside the text. -/
theorem quotedWidth_le_length (rest : Text) : quotedWidth rest ≤ rest.length := by
  fun_induction quotedWidth rest <;> simp only [List.length_cons, List.length_nil] <;> omega

/-- A region has a character and ends inside the text. -/
theorem regionWidth?_bounds {previous : Option Char} {text : Text} {width : Nat}
    (found : regionWidth? previous text = some width) : 1 ≤ width ∧ width ≤ text.length := by
  unfold regionWidth? at found
  split at found
  · next rest =>
    split at found
    · cases found
    · cases found
      have inside := (rest.takeWhile_sublist fun c => c != '\n').length_le
      simp only [List.length_cons]
      omega
  · next quote rest =>
    split at found
    · cases found
      simp
    · cases found
  · next rest =>
    cases found
    have inside := quotedWidth_le_length rest
    simp only [List.length_cons]
    omega
  · cases found

end Desugar
