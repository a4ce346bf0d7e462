import Desugar.Lexer.Nesting
import Desugar.Lexer.Region

/-!
# The code cursor

A cursor walks the positions of a source that hold code. `Cursor.next` goes to the
next of them; `Cursor.jumpTo` resumes further on without reading what lies between,
so the strings recorded as open stay what they were.
-/

namespace Desugar

/-- Verdict on the character `c` before `rest`: string text and delimiters are
skipped, and so is a region that starts in code. -/
def Nesting.read (nesting : Nesting) (previous : Option Char) (c : Char) (rest : Text) :
    Verdict × Nesting :=
  match nesting.visit c rest.head? with
  | (.skip width, after) => (.skip width, after)
  | (.code, after) =>
      match regionWidth? previous (c :: rest) with
      | some width => (.skip width, after)
      | none => (.code, after)

/-- Where a walk over the code of a source stands: the next position to read, and the
strings open there. -/
structure Cursor where
  position : Nat
  nesting : Nesting
  deriving DecidableEq, Repr

namespace Cursor

/-- The cursor at the start of a source. -/
def start : Cursor := ⟨0, []⟩

/-- Pass over `pending` characters, then walk to the first code position of `rest`. The
cursor afterwards stands just behind it, or at the end. -/
def seek : (pending : Nat) → (previous : Option Char) → Cursor → (rest : Text) →
    Option Nat × Cursor
  | pending, _, cursor, [] => (none, { cursor with position := cursor.position + pending })
  | pending + 1, _, cursor, c :: rest =>
      seek pending (some c) { cursor with position := cursor.position + 1 } rest
  | 0, previous, cursor, c :: rest =>
      match cursor.nesting.read previous c rest with
      | (.skip width, after) => seek (width - 1) (some c) ⟨cursor.position + 1, after⟩ rest
      | (.code, after) => (some cursor.position, ⟨cursor.position + 1, after⟩)

/-- The next code position of `source`, if any, and the cursor behind it. -/
def next (source : Text) (cursor : Cursor) : Option Nat × Cursor :=
  seek 0 (source.before? cursor.position) cursor (source.drop cursor.position)

/-- Resume at `position`, unless the cursor is already past it. -/
def jumpTo (cursor : Cursor) (position : Nat) : Cursor :=
  { cursor with position := max cursor.position position }

/-- One use of a cursor. -/
inductive Step where
  | next
  | jump (position : Nat)
  deriving DecidableEq, Repr

/-- What one use of a cursor answers, a code position only for `next`, and the cursor
after it. -/
def step (source : Text) (cursor : Cursor) : Step → Option Nat × Cursor
  | .next => cursor.next source
  | .jump position => (none, cursor.jumpTo position)

/-- Answers of a series of uses, each with the cursor after it. -/
def run (source : Text) : Cursor → List Step → List (Option Nat × Cursor)
  | _, [] => []
  | cursor, first :: steps =>
      let answer := cursor.step source first
      answer :: run source answer.2 steps

/-- Passing over characters one by one is the same as seeking from further on. -/
theorem seek_eq_next {source rest : Text} {pending : Nat} {previous : Option Char}
    {cursor : Cursor} (here : source.drop cursor.position = rest)
    (before : pending = 0 → previous = source.before? cursor.position) :
    seek pending previous cursor rest =
      next source { cursor with position := cursor.position + pending } := by
  induction rest generalizing pending previous cursor with
  | nil =>
      have beyond : source.drop (cursor.position + pending) = [] := by
        rw [← List.drop_drop, here, List.drop_nil]
      simp [next, seek, beyond]
  | cons c rest inductionHypothesis =>
      have there : source.drop (cursor.position + 1) = rest := by
        rw [← List.drop_drop, here, List.drop_one, List.tail_cons]
      cases pending with
      | zero => simp [next, here, before rfl]
      | succ pending =>
          have character : source[cursor.position]? = some c := by
            rw [← List.head?_drop, here, List.head?_cons]
          rw [seek, inductionHypothesis there (fun _ => by simp [character])]
          simp only [Nat.add_assoc, Nat.add_comm 1]

/-- A code position found in `rest` lies in it, and the cursor then stands behind it. -/
theorem seek_eq_some {pending position : Nat} {previous : Option Char} {cursor after : Cursor}
    {rest : Text} (found : seek pending previous cursor rest = (some position, after)) :
    cursor.position ≤ position ∧ position < cursor.position + rest.length ∧
      after.position = position + 1 := by
  induction rest generalizing pending previous cursor with
  | nil => simp [seek] at found
  | cons c rest inductionHypothesis =>
      cases pending with
      | succ pending =>
          have bounds := inductionHypothesis found
          simp only [List.length_cons] at bounds ⊢
          omega
      | zero =>
          rw [seek] at found
          split at found
          · have bounds := inductionHypothesis found
            simp only [List.length_cons] at bounds ⊢
            omega
          · cases found
            simp

/-- A code position lies in the source, at or behind the cursor, and the cursor then
stands behind it. -/
theorem next_eq_some {source : Text} {position : Nat} {cursor after : Cursor}
    (found : cursor.next source = (some position, after)) :
    cursor.position ≤ position ∧ position < source.length ∧ after.position = position + 1 := by
  have bounds := seek_eq_some found
  rw [List.length_drop] at bounds
  omega

end Cursor

end Desugar
