import Desugar.Text.Basic

/-!
# Edits of a text

Sugar is replaced by a list of edits of the text: each puts a new text in the place of
one stretch of positions. `Edit.Ordered` says when such a list makes sense, namely when
its stretches lie in the text, one behind the other. `Edit.Splices` says what it means
to replace exactly these stretches, and `Edit.splices_applyAll` that ordered edits do.
-/

namespace Desugar

/-- Replace the characters from position `start` up to `stop` by `text`. -/
structure Edit where
  start : Nat
  stop : Nat
  text : Text
  deriving DecidableEq, Repr

namespace Edit

/-- Insert a text at a position and replace nothing. -/
def insertion (position : Nat) (text : Text) : Edit :=
  ⟨position, position, text⟩

/-- Apply edits to the rest of a text, whose first character stands at `position`. -/
def applyFrom (position : Nat) : List Edit → Text → Text
  | [], rest => rest
  | edit :: edits, rest =>
      rest.take (edit.start - position) ++ edit.text ++
        applyFrom edit.stop edits (rest.drop (edit.stop - position))

/-- Apply edits, given from left to right, to a text. -/
def applyAll (edits : List Edit) (source : Text) : Text :=
  applyFrom 0 edits source

/-- The stretches of the edits lie between `position` and `length`, one behind the
other. -/
def OrderedFrom (length : Nat) : (position : Nat) → List Edit → Prop
  | position, [] => position ≤ length
  | position, edit :: edits =>
      position ≤ edit.start ∧ edit.start ≤ edit.stop ∧ OrderedFrom length edit.stop edits

/-- The stretches of the edits lie in the text, one behind the other. -/
def Ordered (source : Text) (edits : List Edit) : Prop :=
  OrderedFrom source.length 0 edits

/-- Between two texts that begin at `position`, the second has the new texts of the edits
in the place of their stretches, and all else is the same and in the same order. -/
inductive SplicesFrom : (position : Nat) → List Edit → (before after : Text) → Prop where
  | rest {position : Nat} (kept : Text) : SplicesFrom position [] kept kept
  | edit {position : Nat} {edit : Edit} {edits : List Edit} {before after : Text}
      (kept removed : Text) (starts : edit.start = position + kept.length)
      (stops : edit.stop = edit.start + removed.length)
      (others : SplicesFrom edit.stop edits before after) :
      SplicesFrom position (edit :: edits) (kept ++ removed ++ before)
        (kept ++ edit.text ++ after)

/-- The second text has the new texts of the edits in the place of their stretches, and
all else is the same and in the same order. -/
def Splices (edits : List Edit) (before after : Text) : Prop :=
  SplicesFrom 0 edits before after

@[simp]
theorem applyFrom_nil (position : Nat) (rest : Text) : applyFrom position [] rest = rest := rfl

@[simp]
theorem applyAll_nil (source : Text) : applyAll [] source = source := rfl

/-- Ordered edits leave off inside the text. -/
theorem OrderedFrom.position_le {length position : Nat} {edits : List Edit}
    (ordered : OrderedFrom length position edits) : position ≤ length := by
  induction edits generalizing position with
  | nil => exact ordered
  | cons edit edits inductionHypothesis =>
      obtain ⟨starts, stops, others⟩ := ordered
      exact Nat.le_trans starts (Nat.le_trans stops (inductionHypothesis others))

/-- Applying ordered edits to the rest of a text replaces exactly their stretches. -/
theorem splicesFrom_applyFrom {position : Nat} {edits : List Edit} {rest : Text}
    (ordered : OrderedFrom (position + rest.length) position edits) :
    SplicesFrom position edits rest (applyFrom position edits rest) := by
  induction edits generalizing position rest with
  | nil => exact .rest rest
  | cons edit edits inductionHypothesis =>
      obtain ⟨starts, stops, others⟩ := ordered
      have inside := others.position_le
      have here : position + rest.length =
          edit.stop + (rest.drop (edit.stop - position)).length := by
        rw [List.length_drop]
        omega
      have removed : ((rest.drop (edit.start - position)).take (edit.stop - edit.start)).length =
          edit.stop - edit.start := by
        rw [List.length_take, List.length_drop]
        omega
      have divided : rest.take (edit.start - position) ++
          (rest.drop (edit.start - position)).take (edit.stop - edit.start) ++
            rest.drop (edit.stop - position) = rest := by
        have distance : edit.stop - position =
            edit.start - position + (edit.stop - edit.start) := by omega
        rw [distance, ← List.drop_drop, List.append_assoc, List.take_append_drop,
          List.take_append_drop]
      have spliced : SplicesFrom position (edit :: edits) _ _ := .edit
        (rest.take (edit.start - position))
        ((rest.drop (edit.start - position)).take (edit.stop - edit.start))
        (by rw [List.length_take]; omega) (by rw [removed]; omega)
        (inductionHypothesis (here ▸ others))
      rw [divided] at spliced
      exact spliced

/-- Applying ordered edits replaces exactly their stretches. -/
theorem splices_applyAll {edits : List Edit} {source : Text} (ordered : Ordered source edits) :
    Splices edits source (applyAll edits source) :=
  splicesFrom_applyFrom (by rwa [Nat.zero_add])

end Edit

end Desugar
