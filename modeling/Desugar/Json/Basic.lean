import Desugar.Text.Basic

/-!
# JSON values

A JSON value as it is written: members of an object keep their order and their
repeats, and a number keeps its digits. A string is a list of letters, since an
escape may name half of a surrogate pair; `Literal.text?` is the text it spells, if
every half has its partner.
-/

namespace Desugar

/-- A letter of a JSON string. -/
inductive Letter where
  | scalar (c : Char)
  /-- Half of a surrogate pair, from 0xD800 to 0xDFFF. -/
  | surrogate (unit : Nat)
  deriving DecidableEq, Repr

/-- A JSON string as the list of its letters. -/
abbrev Literal := List Letter

namespace Literal

/-- The literal that spells a text without surrogates. -/
def ofText (text : Text) : Literal :=
  text.map .scalar

/-- The character of a surrogate pair, if the halves come in the right order. -/
def pair? (high low : Nat) : Option Char :=
  if high < 0xDC00 && 0xDC00 ≤ low then
    some (Char.ofNat (0x10000 + (high - 0xD800) * 0x400 + (low - 0xDC00)))
  else none

/-- The text that a literal spells. A surrogate without its partner spells none. -/
def text? : Literal → Option Text
  | [] => some []
  | .scalar c :: rest => (text? rest).map (c :: ·)
  | .surrogate high :: .surrogate low :: rest =>
      (pair? high low).bind fun c => (text? rest).map (c :: ·)
  | .surrogate _ :: _ => none

@[simp]
theorem text?_ofText (text : Text) : text? (ofText text) = some text := by
  induction text with
  | nil => rfl
  | cons c rest inductionHypothesis =>
      simp only [ofText, List.map_cons, text?] at inductionHypothesis ⊢
      simp [inductionHypothesis]

end Literal

/-- A JSON value. -/
inductive Json where
  | null
  | bool (value : Bool)
  | number (digits : Text)
  | string (literal : Literal)
  | array (elements : List Json)
  | object (members : List (Literal × Json))

namespace Json

/-- The JSON string that spells a text. -/
def ofText (text : Text) : Json :=
  .string (.ofText text)

/-- The truth value, if the value is one. -/
def bool? : Json → Option Bool
  | .bool value => some value
  | _ => none

/-- The text that the value spells, if it is a string. -/
def text? : Json → Option Text
  | .string literal => literal.text?
  | _ => none

/-- The elements, if the value is an array. -/
def elements? : Json → Option (List Json)
  | .array elements => some elements
  | _ => none

/-- A member with its key spelled out. -/
def named? (member : Literal × Json) : Option (Text × Json) :=
  member.1.text?.map (·, member.2)

/-- The members of an object whose keys are known, in order. Unknown members are left
out, however often they occur. There is no answer if a key spells no text or a known
key comes twice. -/
def knownMembers? {Key : Type} [DecidableEq Key] (known : Text → Option Key)
    (members : List (Literal × Json)) : Option (List (Key × Json)) :=
  (members.mapM named?).bind fun named =>
    let found := named.filterMap fun member => (known member.1).map (·, member.2)
    if (found.map Prod.fst).Nodup then some found else none

@[simp]
theorem text?_ofText (text : Text) : (ofText text).text? = some text :=
  Literal.text?_ofText text

end Json

end Desugar
