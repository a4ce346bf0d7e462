import Desugar.Edit
import Desugar.Lexer.Scan

/-!
# Symbol paths

A symbol path is a chain of two or more symbols, `:drums:kick:hard`. Folding turns it
into one call of a constructor with the joined segments as its argument,
`Path.new('drums : kick : hard')`. A symbol alone is no path and stays.
-/

namespace Desugar

/-- A chain of at least two segments. -/
structure SymbolPath where
  segments : List Text
  two_le_length : 2 ≤ segments.length
  deriving DecidableEq, Repr

namespace SymbolPath

/-- The path with the given segments, if they are at least two. -/
def ofSegments? (segments : List Text) : Option SymbolPath :=
  if enough : 2 ≤ segments.length then some ⟨segments, enough⟩ else none

/-- What stands between two segments of a folded path. -/
def separator : Text := [' ', ':', ' ']

/-- The segments joined into the constructor's argument. -/
def joined (path : SymbolPath) : Text :=
  separator.intercalate path.segments

/-- The call that a path folds into. -/
def call (constructor : Text) (path : SymbolPath) : Text :=
  constructor ++ '(' :: '\'' :: path.joined ++ ['\'', ')']

/-- The path as it is written in a source, a colon before each segment. -/
def written (path : SymbolPath) : Text :=
  path.segments.flatMap fun segment => ':' :: segment

/-- Whether a character can stand in a chain of symbols. -/
def isChain (c : Char) : Bool :=
  c == ':' || isSegment c

/-- The segments of a chain of symbols whose first colon has been read. The chain ends
where a colon has no segment after it. -/
def readSegments (rest : Text) : List Text :=
  ((rest.takeWhile isChain).splitOn ':').takeWhile fun segment => !segment.isEmpty

/-- The path that stands at the head of a text, where `previous` is the character
before it. After a colon or a word a colon starts no symbol. -/
def read? (previous : Option Char) : Text → Option SymbolPath
  | ':' :: rest =>
      if previous.any fun c => c == ':' || isWord c then none
      else ofSegments? (readSegments rest)
  | _ => none

/-- The rule that claims symbol paths. -/
def rule : Rule SymbolPath := fun previous rest =>
  (read? previous rest).map fun path => (path, path.written.length)

/-- The edits that fold the symbol paths of a source. -/
def edits (constructor source : Text) : List Edit :=
  (source.scan rule).map fun (position, path) =>
    ⟨position, position + path.written.length, path.call constructor⟩

/-- Fold every symbol path of a source. -/
def foldAll (constructor source : Text) : Text :=
  Edit.applyAll (edits constructor source) source

/-- The segments of a path are those it is made from. -/
theorem segments_of_ofSegments? {segments : List Text} {path : SymbolPath}
    (made : ofSegments? segments = some path) : path.segments = segments := by
  unfold ofSegments? at made
  split at made
  · cases made
    rfl
  · cases made

/-- Pieces of a text between colons, each written with a colon before it. -/
theorem flatMap_splitOn (text : Text) :
    (text.splitOn ':').flatMap (fun segment => ':' :: segment) = ':' :: text := by
  induction text with
  | nil => rfl
  | cons c text inductionHypothesis =>
      rw [List.splitOn_cons_eq_if_modifyHead]
      split
      · next colon =>
        rw [List.flatMap_cons, inductionHypothesis, eq_of_beq colon]
        rfl
      · cases pieces : text.splitOn ':' with
        | nil => exact absurd pieces (List.splitOn_ne_nil _ _)
        | cons first others =>
            rw [pieces] at inductionHypothesis
            simpa using inductionHypothesis

/-- A path is read where it is written: its text stands at the head. -/
theorem written_isPrefix_of_read? {previous : Option Char} {text : Text} {path : SymbolPath}
    (found : read? previous text = some path) : path.written <+: text := by
  unfold read? at found
  split at found
  · next rest =>
    split at found
    · cases found
    · rw [written, segments_of_ofSegments? found, readSegments]
      obtain ⟨others, pieces⟩ := List.takeWhile_prefix
        (l := (rest.takeWhile isChain).splitOn ':') fun segment : Text => !segment.isEmpty
      have chain := flatMap_splitOn (rest.takeWhile isChain)
      rw [← pieces, List.flatMap_append] at chain
      exact List.IsPrefix.trans ⟨_, chain⟩
        (List.cons_prefix_cons.mpr ⟨rfl, List.takeWhile_prefix _⟩)
  · cases found

end SymbolPath

end Desugar
