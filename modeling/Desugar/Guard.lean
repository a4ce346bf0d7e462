import Desugar.Lexer.Scan

/-!
# The name guard

A program may not assign to the name of a built-in function, since that would hide
the function from the rest of the program. The guard finds the first such assignment
and reports where it stands.
-/

namespace Desugar

/-- An assignment to the name of a built-in function: the name, the line it stands on
and its byte offset. -/
structure Collision where
  name : Text
  line : Nat
  offset : Nat
  deriving DecidableEq, Repr

namespace Collision

/-- The complaint shown to the author of the program. -/
def message (collision : Collision) : Text :=
  "You may not use the built-in fn names as variable names.\n You attempted to use: ".toList ++
    collision.name

end Collision

namespace Assignment

/-- Whether an equals sign at the head of a text assigns: a blank or a word follows it,
so that comparisons, matches and hash arrows do not count. -/
def assigns : Text → Bool
  | '=' :: c :: _ => isBlank c || isWord c
  | _ => false

/-- Whether an assignment to `name` stands at the head of `rest`, where `previous` is
the character before it. The name is not the end of a longer word, and only blanks
stand between it and the equals sign. -/
def standsAt (name : Text) (previous : Option Char) (rest : Text) : Bool :=
  name.isPrefixOf rest && !previous.any isWord &&
    assigns ((rest.drop name.length).dropWhile isBlank)

/-- The rule that claims assignments to a name. -/
def rule (name : Text) : Rule Unit := fun previous rest =>
  if standsAt name previous rest then some ((), 1) else none

/-- Position of the first assignment to a name in the code of a source. -/
def first? (source name : Text) : Option Nat :=
  (source.scan (rule name)).head?.map Prod.fst

/-- Report on the first assignment to a name in the code of a source. -/
def collision? (source name : Text) : Option Collision :=
  (first? source name).map fun position =>
    ⟨name, source.lineAt position, Text.byteLength (source.take position)⟩

/-- Report on the first of several names, in the given order, that a source assigns
to. -/
def firstCollision? (source : Text) (names : List Text) : Option Collision :=
  names.findSome? (collision? source)

end Assignment

end Desugar
