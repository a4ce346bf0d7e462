import Desugar.Text.Alphanumeric

/-!
# Character classes

The scanner and the sugar rules ask four questions of a character: is it blank,
does it continue a word, may it stand in a segment of a symbol path, is it a
decimal digit. Blank and word characters range over all of Unicode; the other two
are ASCII by the rules of the notation they belong to. The last is `Char.isDigit`.
-/

namespace Desugar

/-- The code points with the Unicode property `White_Space`. -/
def CodeRange.whiteSpace : List CodeRange :=
  [⟨0x9, 0xD⟩, ⟨0x20, 0x20⟩, ⟨0x85, 0x85⟩, ⟨0xA0, 0xA0⟩, ⟨0x1680, 0x1680⟩, ⟨0x2000, 0x200A⟩,
   ⟨0x2028, 0x2029⟩, ⟨0x202F, 0x202F⟩, ⟨0x205F, 0x205F⟩, ⟨0x3000, 0x3000⟩]

/-- Whether a character is white space. -/
def isBlank (c : Char) : Bool :=
  CodeRange.anyContains CodeRange.whiteSpace c.toNat

/-- Whether a character beyond ASCII is a letter, a dependent mark or a number. -/
def isAlphanumericBeyondAscii (c : Char) : Bool :=
  let code := c.toNat
  if code.blt 0x80 then false
  else if code.blt 0x1000 then CodeRange.anyContains CodeRange.alphanumericBelow1000 code
  else if code.blt 0x10000 then CodeRange.anyContains CodeRange.alphanumericBasic code
  else CodeRange.anyContains CodeRange.alphanumericSupplementary code

/-- Whether a character can continue a word: a letter, a number or an underscore. -/
def isWord (c : Char) : Bool :=
  c.isAlphanum || c == '_' || isAlphanumericBeyondAscii c

/-- Whether a character can stand in a segment of a symbol path: an ASCII letter or
digit, or one of the marks that may close or join a symbol's name. -/
def isSegment (c : Char) : Bool :=
  c.isAlphanum || c == '!' || c == '?' || c == '=' || c == '_'

end Desugar

