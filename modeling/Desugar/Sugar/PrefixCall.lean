import Desugar.Edit
import Desugar.Lexer.Scan

/-!
# Prefix calls

A prefix call opens its parenthesis before the name of the function: `( ring  1, 2)`.
Respacing moves the parenthesis behind the name, `  ring( 1, 2)`, and keeps the width
of what it touches. Commas and blanks directly after the name give way to the
parenthesis and to spaces.
-/

namespace Desugar

/-- What a prefix call to a known name has besides the name: the blanks before it, and
the commas and blanks after it. -/
structure PrefixCall where
  lead : Text
  gap : Text
  deriving DecidableEq, Repr

namespace PrefixCall

/-- Whether a character may separate the name of a prefix call from its arguments. -/
def isSeparator (c : Char) : Bool :=
  c == ',' || isBlank c

/-- The prefix call to `name` that stands at the head of a text, if a separator follows
the name. -/
def read? (name : Text) : Text → Option PrefixCall
  | '(' :: rest =>
      let callee := rest.dropWhile isBlank
      let gap := (callee.drop name.length).takeWhile isSeparator
      if name.isPrefixOf callee && !gap.isEmpty then some ⟨rest.takeWhile isBlank, gap⟩ else none
  | _ => none

/-- The call as it is written in a source, up to its arguments. -/
def written (name : Text) (call : PrefixCall) : Text :=
  '(' :: call.lead ++ name ++ call.gap

/-- The call with its parenthesis behind the name, as wide as before. -/
def respaced (name : Text) (call : PrefixCall) : Text :=
  ' ' :: call.lead ++ name ++ '(' :: List.replicate (call.gap.length - 1) ' '

/-- The rule that claims prefix calls to a name. -/
def rule (name : Text) : Rule PrefixCall := fun _ rest =>
  (read? name rest).map fun call => (call, (call.written name).length)

/-- The edits that respace the prefix calls to a name. -/
def edits (name source : Text) : List Edit :=
  (source.scan (rule name)).map fun (position, call) =>
    ⟨position, position + (call.written name).length, call.respaced name⟩

/-- Respace every prefix call to a name. -/
def respaceAll (name source : Text) : Text :=
  Edit.applyAll (edits name source) source

/-- A call has a separator after its name. -/
theorem gap_ne_nil_of_read? {name text : Text} {call : PrefixCall}
    (found : read? name text = some call) : call.gap ≠ [] := by
  unfold read? at found
  split at found
  · dsimp only at found
    split at found
    · next shape =>
      cases found
      simp only [Bool.and_eq_true, Bool.not_eq_true', List.isEmpty_eq_false_iff] at shape
      exact shape.2
    · cases found
  · cases found

/-- A call is read where it is written: its text stands at the head. -/
theorem written_isPrefix_of_read? {name text : Text} {call : PrefixCall}
    (found : read? name text = some call) : call.written name <+: text := by
  unfold read? at found
  split at found
  · next rest =>
    dsimp only at found
    split at found
    · next shape =>
      cases found
      simp only [Bool.and_eq_true] at shape
      obtain ⟨tail, callee⟩ := List.isPrefixOf_iff_prefix.mp shape.1
      refine ⟨tail.dropWhile isSeparator, ?_⟩
      have whole := List.takeWhile_append_dropWhile (p := isBlank) (l := rest)
      rw [← callee] at whole
      rw [← callee, List.drop_left]
      simp [written, List.takeWhile_append_dropWhile, whole]
    · cases found
  · cases found

/-- The respaced call is as wide as the one it replaces. -/
theorem length_respaced {name : Text} {call : PrefixCall} (separated : call.gap ≠ []) :
    (call.respaced name).length = (call.written name).length := by
  have positive := List.length_pos_iff.mpr separated
  simp [respaced, written]
  omega

end PrefixCall

end Desugar
