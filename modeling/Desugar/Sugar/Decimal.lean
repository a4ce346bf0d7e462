import Desugar.Edit
import Desugar.Lexer.Scan

/-!
# Shorthand decimals

A decimal may be written without the digits on one side of its dot, `2.` or `.3`.
Completing it writes the missing zero. Complete decimals, ranges such as `1..5` and
calls of methods such as `x.y` are no shorthand.
-/

namespace Desugar

namespace Decimal

/-- Width of the digits and the dot of a decimal `2.` at the head of a text. It starts
a word of its own, and a blank or the end of the text follows the dot. -/
def trailingDot? (previous : Option Char) (rest : Text) : Option Nat :=
  let digits := rest.takeWhile Char.isDigit
  match rest.dropWhile Char.isDigit with
  | '.' :: tail =>
      if !digits.isEmpty && previous.all isBlank && tail.head?.all isBlank then
        some (digits.length + 1)
      else none
  | _ => none

/-- Whether a decimal `.3` stands at the head of a text. Its dot follows neither a dot
nor a word, and its digits end at a blank, a closing parenthesis or the end. -/
def leadsWithDot (previous : Option Char) : Text → Bool
  | '.' :: rest =>
      rest.head?.any Char.isDigit &&
        !(previous.any fun c => c == '.' || isWord c) &&
        (rest.dropWhile Char.isDigit).head?.all fun c => isBlank c || c == ')'
  | _ => false

/-- The rule that claims the first digit of each decimal `2.`, with the width of its
digits and dot. -/
def trailingRule : Rule Nat := fun previous rest =>
  (trailingDot? previous rest).map (·, 1)

/-- The rule that claims the dot of each decimal `.3`. -/
def leadingRule : Rule Unit := fun previous rest =>
  if leadsWithDot previous rest then some ((), 1) else none

/-- The edits that write a zero behind each trailing dot. -/
def trailingEdits (source : Text) : List Edit :=
  (source.scan trailingRule).map fun (position, width) => .insertion (position + width) ['0']

/-- The edits that write a zero before each leading dot. -/
def leadingEdits (source : Text) : List Edit :=
  (source.scan leadingRule).map fun (position, _) => .insertion position ['0']

/-- Complete the decimals that end in a dot. -/
def completeTrailing (source : Text) : Text :=
  Edit.applyAll (trailingEdits source) source

/-- Complete the decimals that begin with a dot. -/
def completeLeading (source : Text) : Text :=
  Edit.applyAll (leadingEdits source) source

/-- Complete both kinds of shorthand decimals. -/
def complete (source : Text) : Text :=
  completeLeading (completeTrailing source)

end Decimal

end Desugar
