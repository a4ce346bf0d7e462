import Desugar.Json.Basic

/-!
# Writing JSON

The laid-out form of a value: each element and member on a line of its own, two
spaces deeper than what holds it, and nothing between the brackets of an empty array
or object.
-/

namespace Desugar

/-- Digit of the hexadecimal system, for a number below sixteen. -/
def hexDigit (value : Nat) : Char :=
  Char.ofNat (if value < 10 then value + 48 else value + 87)

/-- The escape that names a code unit by its four hexadecimal digits. -/
def unitEscape (unit : Nat) : Text :=
  ['\\', 'u', hexDigit (unit / 0x1000 % 16), hexDigit (unit / 0x100 % 16),
    hexDigit (unit / 0x10 % 16), hexDigit (unit % 16)]

/-- How a letter is written in a string: quotes, backslashes and control characters
are escaped, by a single letter where there is one, and so are lone surrogates. -/
def Letter.written : Letter → Text
  | .scalar '"' => ['\\', '"']
  | .scalar '\\' => ['\\', '\\']
  | .scalar '\x08' => ['\\', 'b']
  | .scalar '\x0c' => ['\\', 'f']
  | .scalar '\n' => ['\\', 'n']
  | .scalar '\r' => ['\\', 'r']
  | .scalar '\t' => ['\\', 't']
  | .scalar c => if c.toNat < 0x20 then unitEscape c.toNat else [c]
  | .surrogate unit => unitEscape unit

/-- A literal between its quotes. -/
def Literal.quoted (literal : Literal) : Text :=
  '"' :: literal.flatMap Letter.written ++ ['"']

namespace Json

/-- Items between brackets, each on a line `indent + 2` deep, the closing bracket on a
line `indent` deep. -/
def bracketed (opening closing : Char) (indent : Nat) : List Text → Text
  | [] => [opening, closing]
  | items =>
      let line := items.map (List.replicate (indent + 2) ' ' ++ ·)
      opening :: '\n' :: [',', '\n'].intercalate line ++
        '\n' :: List.replicate indent ' ' ++ [closing]

mutual

/-- The laid-out form of a value whose first line is already indented. -/
def layOut (indent : Nat) : Json → Text
  | .null => "null".toList
  | .bool value => if value then "true".toList else "false".toList
  | .number digits => digits
  | .string literal => literal.quoted
  | .array elements => bracketed '[' ']' indent (layOutElements (indent + 2) elements)
  | .object members => bracketed '{' '}' indent (layOutMembers (indent + 2) members)

/-- The laid-out forms of the elements of an array. -/
def layOutElements (indent : Nat) : List Json → List Text
  | [] => []
  | element :: elements => layOut indent element :: layOutElements indent elements

/-- The laid-out forms of the members of an object. -/
def layOutMembers (indent : Nat) : List (Literal × Json) → List Text
  | [] => []
  | (key, value) :: members =>
      (key.quoted ++ ':' :: ' ' :: layOut indent value) :: layOutMembers indent members

end

/-- The laid-out form of a value. -/
def pretty (value : Json) : Text :=
  value.layOut 0

end Json

end Desugar
