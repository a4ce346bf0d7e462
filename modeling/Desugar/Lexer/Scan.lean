import Desugar.Lexer.Cursor

/-!
# Scanning code by a rule

A scan walks the code positions of a source under a rule that is asked at each of
them and may claim a match there. A claimed match is jumped over. `Cursor.scan_eq`
says that this walk is made of `next` and `jumpTo`, and `Cursor.codePositions_eq` that
the code positions are what `next` answers until it answers nothing.
-/

namespace Desugar

/-- A rule asked at a code position: given the character before it and the text from
it on, it may claim a match, with what it found and the width of the match. -/
abbrev Rule (Item : Type) := Option Char → Text → Option (Item × Nat)

namespace Cursor

/-- Pass over `pending` characters, then walk the code positions of `rest` and collect
what the rule claims, each item with its position. A match is passed over. -/
def collect {Item : Type} (rule : Rule Item) :
    (pending : Nat) → (previous : Option Char) → Cursor → (rest : Text) → List (Nat × Item)
  | _, _, _, [] => []
  | pending + 1, _, cursor, c :: rest =>
      collect rule pending (some c) { cursor with position := cursor.position + 1 } rest
  | 0, previous, cursor, c :: rest =>
      match cursor.nesting.read previous c rest with
      | (.skip width, after) =>
          collect rule (width - 1) (some c) ⟨cursor.position + 1, after⟩ rest
      | (.code, after) =>
          match rule previous (c :: rest) with
          | none => collect rule 0 (some c) ⟨cursor.position + 1, after⟩ rest
          | some (item, width) =>
              (cursor.position, item) ::
                collect rule (width - 1) (some c) ⟨cursor.position + 1, after⟩ rest

/-- What a rule claims at the code positions of `source` from the cursor on, in order. -/
def scan {Item : Type} (rule : Rule Item) (source : Text) (cursor : Cursor) :
    List (Nat × Item) :=
  collect rule 0 (source.before? cursor.position) cursor (source.drop cursor.position)

/-- The rule that claims every code position by itself. -/
def everyCode : Rule Char := fun _ rest => rest.head?.map (·, 1)

/-- The positions of `source` that hold code, from the cursor on. -/
def codePositions (source : Text) (cursor : Cursor) : List Nat :=
  (cursor.scan everyCode source).map Prod.fst

/-- Passing over characters one by one is the same as scanning from further on. -/
theorem collect_eq_scan {Item : Type} {rule : Rule Item} {source rest : Text} {pending : Nat}
    {previous : Option Char} {cursor : Cursor} (here : source.drop cursor.position = rest)
    (before : pending = 0 → previous = source.before? cursor.position) :
    collect rule pending previous cursor rest =
      scan rule source { cursor with position := cursor.position + pending } := by
  induction rest generalizing pending previous cursor with
  | nil =>
      have beyond : source.drop (cursor.position + pending) = [] := by
        rw [← List.drop_drop, here, List.drop_nil]
      simp [scan, collect, beyond]
  | cons c rest inductionHypothesis =>
      have there : source.drop (cursor.position + 1) = rest := by
        rw [← List.drop_drop, here, List.drop_one, List.tail_cons]
      cases pending with
      | zero => simp [scan, here, before rfl]
      | succ pending =>
          have character : source[cursor.position]? = some c := by
            rw [← List.head?_drop, here, List.head?_cons]
          rw [collect, inductionHypothesis there (fun _ => by simp [character])]
          simp only [Nat.add_assoc, Nat.add_comm 1]

/-- A scan asks its rule at the next code position, jumps over a match that the rule
claims there, and goes on. -/
theorem scan_eq {Item : Type} (rule : Rule Item) (source : Text) (cursor : Cursor) :
    cursor.scan rule source =
      match cursor.next source with
      | (none, _) => []
      | (some position, after) =>
          match rule (source.before? position) (source.drop position) with
          | none => after.scan rule source
          | some (item, width) =>
              (position, item) :: (after.jumpTo (position + width)).scan rule source := by
  generalize remaining : source.length - cursor.position = bound
  induction bound using Nat.strongRecOn generalizing cursor with
  | ind bound inductionHypothesis =>
      cases here : source.drop cursor.position with
      | nil => simp [scan, next, here, collect, seek]
      | cons c rest =>
          have there : source.drop (cursor.position + 1) = rest := by
            rw [← List.drop_drop, here, List.drop_one, List.tail_cons]
          have character : source[cursor.position]? = some c := by
            rw [← List.head?_drop, here, List.head?_cons]
          have inside : cursor.position < source.length :=
            (List.getElem?_eq_some_iff.mp character).1
          have passOver : ∀ pending nesting,
              collect rule pending (some c) ⟨cursor.position + 1, nesting⟩ rest =
                scan rule source ⟨cursor.position + 1 + pending, nesting⟩ := fun _ _ =>
            collect_eq_scan there fun _ => by simp [character]
          cases verdict : cursor.nesting.read (source.before? cursor.position) c rest with
          | mk reading after =>
              cases reading with
              | skip width =>
                  have seeking : cursor.next source =
                      next source ⟨cursor.position + 1 + (width - 1), after⟩ := by
                    rw [next, here, seek, verdict]
                    exact seek_eq_next there fun _ => by simp [character]
                  rw [scan, here, collect, verdict, seeking]
                  simp only [passOver]
                  exact inductionHypothesis _ (by simp only; omega) _ rfl
              | code =>
                  have found : cursor.next source =
                      (some cursor.position, ⟨cursor.position + 1, after⟩) := by
                    rw [next, here, seek, verdict]
                  rw [scan, here, collect, verdict, found]
                  simp only [passOver, here]
                  split
                  · rfl
                  · next item width claimed =>
                    have resumed : cursor.position + 1 + (width - 1) =
                        max (cursor.position + 1) (cursor.position + width) := by omega
                    rw [jumpTo, resumed]

/-- The code positions are what `next` answers until it answers nothing. -/
theorem codePositions_eq (source : Text) (cursor : Cursor) :
    cursor.codePositions source =
      match cursor.next source with
      | (none, _) => []
      | (some position, after) => position :: after.codePositions source := by
  rw [codePositions, scan_eq]
  split
  · rfl
  · next position after found =>
    have ⟨_, inside, behind⟩ := next_eq_some found
    have claimed : everyCode (source.before? position) (source.drop position) =
        some (source[position], 1) := by
      simp [everyCode, List.head?_drop, List.getElem?_eq_getElem inside]
    have stays : after.jumpTo (position + 1) = after := by
      rw [jumpTo, ← behind, Nat.max_self]
    simp only [claimed, stays, List.map_cons]
    rfl

end Cursor

namespace Text

/-- What a rule claims at the code positions of a source, in order. -/
def scan {Item : Type} (source : Text) (rule : Rule Item) : List (Nat × Item) :=
  Cursor.start.scan rule source

/-- The positions of a source that hold code. -/
def codePositions (source : Text) : List Nat :=
  Cursor.start.codePositions source

/-- The characters of a source that are code. -/
def codeText (source : Text) : Text :=
  (source.scan Cursor.everyCode).map Prod.snd

end Text

end Desugar
