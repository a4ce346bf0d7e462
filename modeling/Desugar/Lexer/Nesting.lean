import Desugar.Text.Basic

/-!
# Nesting of double-quoted strings

A double-quoted string may hold interpolations, an interpolation holds code, and
that code may hold strings again. `Nesting` records the strings that are open at a
position, and `Nesting.visit` is the whole rule: what one character, seen with the
character after it, does to the record, and whether it is code.
-/

namespace Desugar

/-- The double-quoted strings open at a position, innermost first. Each is recorded
by the number of braces open in its current interpolation; zero means that the
position lies in the string's literal text. -/
abbrev Nesting := List Nat

/-- What a character is to the reader of code. -/
inductive Verdict where
  /-- The character stands outside code, and `width` characters from it on do too. -/
  | skip (width : Nat)
  /-- The character is code. -/
  | code
  deriving DecidableEq, Repr

namespace Nesting

/-- Visit a character with the one after it: its verdict, and the strings open
afterwards. In literal text a backslash protects the next character and `#` with an
opening brace starts an interpolation; in code a double quote opens a string, and
inside an interpolation braces are counted until the one that closes it. -/
def visit : Nesting → Char → Option Char → Verdict × Nesting
  | [], c, _ => if c = '"' then (.skip 1, [0]) else (.code, [])
  | 0 :: outer, c, next =>
      if c = '\\' && next.isSome then (.skip 2, 0 :: outer)
      else if c = '#' && next = some '{' then (.skip 2, 1 :: outer)
      else if c = '"' then (.skip 1, outer)
      else (.skip 1, 0 :: outer)
  | (depth + 1) :: outer, c, _ =>
      if c = '"' then (.skip 1, 0 :: (depth + 1) :: outer)
      else if c = '{' then (.code, (depth + 2) :: outer)
      else if c = '}' then (if depth = 0 then .skip 1 else .code, depth :: outer)
      else (.code, (depth + 1) :: outer)

/-- Visit the characters at the given positions of a source one after another, in any
order, and collect each verdict with the strings then open. A position outside the
source has no character: it gets no verdict and changes nothing. -/
def visitAll (source : Text) : Nesting → List Nat → List (Option Verdict × Nesting)
  | _, [] => []
  | nesting, position :: positions =>
      match source[position]? with
      | none => (none, nesting) :: visitAll source nesting positions
      | some c =>
          let (verdict, after) := nesting.visit c source[position + 1]?
          (some verdict, after) :: visitAll source after positions

end Nesting

end Desugar
