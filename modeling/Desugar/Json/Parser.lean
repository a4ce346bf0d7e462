import Desugar.Json.Basic

/-!
# Reading JSON

A reader of strict JSON: blanks are the four that the format names, nothing follows
the value, no comma trails, and a string holds no raw control character. Each reader
takes the text from where its construct starts and answers with the text after it.
-/

namespace Desugar.Json.Parser

/-- Leave out the blanks at the head of a text. -/
def skipSpace (text : Text) : Text :=
  text.dropWhile fun c => c == ' ' || c == '\t' || c == '\n' || c == '\r'

/-- Value of a hexadecimal digit. -/
def hexDigit? (c : Char) : Option Nat :=
  if c.isDigit then some (c.toNat - 48)
  else if 'a' ≤ c && c ≤ 'f' then some (c.toNat - 87)
  else if 'A' ≤ c && c ≤ 'F' then some (c.toNat - 55)
  else none

/-- Number with the given hexadecimal digits. -/
def hexNumber? (digits : Text) : Option Nat :=
  (digits.mapM hexDigit?).map fun values => values.foldl (fun number value => number * 16 + value) 0

/-- The letter of a four-digit escape. -/
def unitLetter (unit : Nat) : Letter :=
  if 0xD800 ≤ unit && unit < 0xE000 then .surrogate unit else .scalar (Char.ofNat unit)

/-- The character that a backslash and a single letter stand for. -/
def escaped? : Char → Option Char
  | '"' => some '"'
  | '\\' => some '\\'
  | '/' => some '/'
  | 'b' => some '\x08'
  | 'f' => some '\x0c'
  | 'n' => some '\n'
  | 'r' => some '\r'
  | 't' => some '\t'
  | _ => none

/-- Read a string whose opening quote has been read, with its closing quote. -/
def string? : Text → Option (Literal × Text)
  | [] => none
  | '"' :: rest => some ([], rest)
  | '\\' :: 'u' :: a :: b :: c :: d :: rest =>
      (hexNumber? [a, b, c, d]).bind fun unit =>
        (string? rest).map fun (literal, rest) => (unitLetter unit :: literal, rest)
  | '\\' :: c :: rest =>
      (escaped? c).bind fun c =>
        (string? rest).map fun (literal, rest) => (.scalar c :: literal, rest)
  | c :: rest =>
      if c.toNat < 0x20 || c = '\\' then none
      else (string? rest).map fun (literal, rest) => (.scalar c :: literal, rest)

/-- Read one digit or more. -/
def digits? (text : Text) : Option (Text × Text) :=
  let digits := text.takeWhile Char.isDigit
  if digits.isEmpty then none else some (digits, text.dropWhile Char.isDigit)

/-- Read a whole number. It begins with a zero only if it is zero. -/
def whole? : Text → Option (Text × Text)
  | '0' :: rest => some (['0'], rest)
  | text => digits? text

/-- Read the fraction of a number, if it has one. -/
def fraction? : Text → Option (Text × Text)
  | '.' :: rest => (digits? rest).map fun (digits, rest) => ('.' :: digits, rest)
  | text => some ([], text)

/-- Read the sign of an exponent, if it has one. -/
def exponentSign : Text → Text × Text
  | '+' :: rest => (['+'], rest)
  | '-' :: rest => (['-'], rest)
  | text => ([], text)

/-- Read the exponent of a number, if it has one. -/
def exponent? : Text → Option (Text × Text)
  | [] => some ([], [])
  | c :: rest =>
      if c = 'e' || c = 'E' then
        let (sign, rest) := exponentSign rest
        (digits? rest).map fun (digits, rest) => (c :: sign ++ digits, rest)
      else some ([], c :: rest)

/-- Read a number without its sign. -/
def magnitude? (text : Text) : Option (Text × Text) :=
  (whole? text).bind fun (whole, rest) =>
    (fraction? rest).bind fun (fraction, rest) =>
      (exponent? rest).map fun (exponent, rest) => (whole ++ fraction ++ exponent, rest)

/-- Read a number. -/
def number? : Text → Option (Text × Text)
  | '-' :: rest => (magnitude? rest).map fun (digits, rest) => ('-' :: digits, rest)
  | text => magnitude? text

mutual

/-- Read a value, with the blanks before it. -/
def value? : (fuel : Nat) → Text → Option (Json × Text)
  | 0, _ => none
  | fuel + 1, text =>
      match skipSpace text with
      | 'n' :: 'u' :: 'l' :: 'l' :: rest => some (.null, rest)
      | 't' :: 'r' :: 'u' :: 'e' :: rest => some (.bool true, rest)
      | 'f' :: 'a' :: 'l' :: 's' :: 'e' :: rest => some (.bool false, rest)
      | '"' :: rest => (string? rest).map fun (literal, rest) => (.string literal, rest)
      | '[' :: rest =>
          match skipSpace rest with
          | ']' :: rest => some (.array [], rest)
          | rest => (elements? fuel rest).map fun (elements, rest) => (.array elements, rest)
      | '{' :: rest =>
          match skipSpace rest with
          | '}' :: rest => some (.object [], rest)
          | rest => (members? fuel rest).map fun (members, rest) => (.object members, rest)
      | rest => (number? rest).map fun (digits, rest) => (.number digits, rest)

/-- Read one element of an array or more, with the closing bracket. -/
def elements? : (fuel : Nat) → Text → Option (List Json × Text)
  | 0, _ => none
  | fuel + 1, text =>
      (value? fuel text).bind fun (first, rest) =>
        match skipSpace rest with
        | ']' :: rest => some ([first], rest)
        | ',' :: rest => (elements? fuel rest).map fun (others, rest) => (first :: others, rest)
        | _ => none

/-- Read one member of an object or more, with the closing brace. -/
def members? : (fuel : Nat) → Text → Option (List (Literal × Json) × Text)
  | 0, _ => none
  | fuel + 1, text =>
      match skipSpace text with
      | '"' :: rest =>
          (string? rest).bind fun (key, rest) =>
            match skipSpace rest with
            | ':' :: rest =>
                (value? fuel rest).bind fun (value, rest) =>
                  match skipSpace rest with
                  | '}' :: rest => some ([(key, value)], rest)
                  | ',' :: rest =>
                      (members? fuel rest).map fun (others, rest) => ((key, value) :: others, rest)
                  | _ => none
            | _ => none
      | _ => none

end

end Desugar.Json.Parser

namespace Desugar.Json

/-- The value that a text writes. Each bracket and each comma of the text costs the
reader at most two units of fuel, so twice the length is enough. -/
def parse? (text : Text) : Option Json :=
  (Parser.value? (2 * text.length + 2) text).bind fun (value, rest) =>
    if (Parser.skipSpace rest).isEmpty then some value else none

end Desugar.Json
