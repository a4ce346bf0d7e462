import Desugar.Proofs.Lexer.InStep

/-!
# Checked access to a text

A text can be worked on by positions: characters are looked up, stretches are cut out, and
distances are subtracted. Each of these has a form here that fails where there is nothing to
look up, cut out or subtract. `Edit.copy?` applies edits in this way, and
`Edit.copy?_eq_some_iff` says that it fails unless the edits are in order. `Cursor.answer` is
what a pass is to do at a code position, by the rule it follows.
-/

namespace Desugar

/-- How far the larger of two numbers lies behind the smaller, if it does. -/
def difference? (larger smaller : Nat) : Option Nat :=
  if smaller ≤ larger then some (larger - smaller) else none

theorem difference?_of_le {larger smaller : Nat} (bounded : smaller ≤ larger) :
    difference? larger smaller = some (larger - smaller) :=
  if_pos bounded

namespace Text

/-- The characters from `start` up to `stop`, if the text has such a stretch. -/
def slice? (text : Text) (start stop : Nat) : Option Text :=
  if start ≤ stop ∧ stop ≤ text.length then some ((text.drop start).take (stop - start)) else none

theorem slice?_of_le {text : Text} {start stop : Nat} (forward : start ≤ stop)
    (inside : stop ≤ text.length) :
    text.slice? start stop = some ((text.drop start).take (stop - start)) :=
  if_pos ⟨forward, inside⟩

/-- A stretch of the text is cut out where it stands. -/
theorem slice?_of_drop {text piece rest : Text} {start : Nat}
    (here : text.drop start = piece ++ rest) (inside : start ≤ text.length) :
    text.slice? start (start + piece.length) = some piece := by
  have lengths := congrArg List.length here
  rw [List.length_drop, List.length_append] at lengths
  rw [slice?_of_le (Nat.le_add_right _ _) (by omega), Nat.add_sub_cancel_left, here,
    List.take_left]

/-- The characters from `start` on, if the text reaches that far. -/
theorem slice?_to_end {text : Text} {start : Nat} (inside : start ≤ text.length) :
    text.slice? start text.length = some (text.drop start) := by
  rw [slice?_of_le inside (Nat.le_refl _), ← List.length_drop, List.take_length]

/-- The character before a position, looked up where there is one. -/
def previousAt? (text : Text) (position : Nat) : Option (Option Char) :=
  if position = 0 then some none else text[position - 1]?.map some

theorem previousAt?_eq_some {text : Text} {position : Nat} (inside : position ≤ text.length) :
    text.previousAt? position = some (text.before? position) := by
  unfold previousAt? before?
  split
  · rfl
  · rw [List.getElem?_eq_getElem (by omega)]
    rfl

end Text

namespace Edit

/-- Apply edits to what is not yet copied of a text, stretch by stretch. It fails if an edit
begins before what is already copied, or ends before it begins. -/
def copyFrom? (source : Text) : (copied : Nat) → List Edit → Option Text
  | copied, [] => source.slice? copied source.length
  | copied, edit :: edits =>
      if copied ≤ edit.start ∧ edit.start ≤ edit.stop then
        (source.slice? copied edit.start).bind fun kept =>
          (copyFrom? source edit.stop edits).map fun others => kept ++ edit.text ++ others
      else none

/-- Apply edits to a text stretch by stretch. -/
def copy? (source : Text) (edits : List Edit) : Option Text :=
  copyFrom? source 0 edits

theorem copyFrom?_eq_some {source : Text} {copied : Nat} {edits : List Edit}
    (ordered : OrderedFrom source.length copied edits) :
    copyFrom? source copied edits = some (applyFrom copied edits (source.drop copied)) := by
  induction edits generalizing copied with
  | nil => exact Text.slice?_to_end ordered
  | cons edit edits inductionHypothesis =>
      obtain ⟨starts, stops, others⟩ := ordered
      have inside := others.position_le
      have behind : (source.drop copied).drop (edit.stop - copied) = source.drop edit.stop := by
        rw [List.drop_drop, Nat.add_sub_cancel' (Nat.le_trans starts stops)]
      rw [copyFrom?, if_pos ⟨starts, stops⟩, Text.slice?_of_le starts (by omega),
        inductionHypothesis others, applyFrom, behind]
      rfl

theorem orderedFrom_of_copyFrom? {source output : Text} {copied : Nat} {edits : List Edit}
    (done : copyFrom? source copied edits = some output) :
    OrderedFrom source.length copied edits := by
  induction edits generalizing copied output with
  | nil =>
      unfold copyFrom? Text.slice? at done
      split at done
      · next bounds => exact bounds.1
      · cases done
  | cons edit edits inductionHypothesis =>
      rw [copyFrom?] at done
      split at done
      · next forward =>
        obtain ⟨kept, _, done⟩ := Option.bind_eq_some_iff.mp done
        obtain ⟨others, copied, _⟩ := Option.map_eq_some_iff.mp done
        exact ⟨forward.1, forward.2, inductionHypothesis copied⟩
      · cases done

/-- Copying stretch by stretch goes through exactly if the edits are in order, and then
applies them. -/
theorem copy?_eq_some_iff {source output : Text} {edits : List Edit} :
    copy? source edits = some output ↔
      Ordered source edits ∧ output = applyAll edits source := by
  constructor
  · intro done
    have ordered : Ordered source edits := orderedFrom_of_copyFrom? done
    refine ⟨ordered, ?_⟩
    rw [copy?, copyFrom?_eq_some ordered] at done
    exact (Option.some.inj done).symm
  · rintro ⟨ordered, rfl⟩
    exact copyFrom?_eq_some ordered

end Edit

namespace Cursor

variable {Item Found : Type} {rule : Rule Item} {source : Text}

/-- What is made of the claim of a rule at a position, if there is one, and where to go on:
behind the claim, or nowhere else. -/
def answer (source : Text) (rule : Rule Item) (make : Nat → Item → Option Found)
    (position : Nat) : Option Found × Nat :=
  match rule (source.before? position) (source.drop position) with
  | none => (none, position)
  | some (item, width) => (make position item, position + width)

theorem answer_of_none {make : Nat → Item → Option Found} {position : Nat}
    (unclaimed : rule (source.before? position) (source.drop position) = none) :
    answer source rule make position = (none, position) := by
  rw [answer, unclaimed]

theorem answer_of_some {make : Nat → Item → Option Found} {position width : Nat} {item : Item}
    (claimed : rule (source.before? position) (source.drop position) = some (item, width)) :
    answer source rule make position = (make position item, position + width) := by
  rw [answer, claimed]

end Cursor

end Desugar
