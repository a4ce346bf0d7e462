import Desugar.Proofs.Pass.Order

/-!
# What edits keep

Edits divide the text that they leave into what they have written and what they have kept.
`Edit.written` lists the first, and `Edit.landing` tells where a kept position comes to lie.
`Edit.exists_landing` says that a stretch of the new text which is clear of everything written
has stood in the old text as it stands there now, with the same character before it.
-/

namespace Desugar

namespace Edit

/-- The stretches of the new text that edits write, where `position` is the end of what is
already edited and `place` the end of what that has become. -/
def writtenFrom : (position place : Nat) → List Edit → List (Nat × Nat)
  | _, _, [] => []
  | position, place, edit :: edits =>
      let start := place + (edit.start - position)
      let stop := start + edit.text.length
      (start, stop) :: writtenFrom edit.stop stop edits

/-- The stretches of the new text that edits write, each from its start up to its stop. -/
def written (edits : List Edit) : List (Nat × Nat) :=
  writtenFrom 0 0 edits

/-- Where a kept position comes to lie, where `position` is the end of what is already edited
and `place` the end of what that has become. -/
def landingFrom : (position place : Nat) → List Edit → (kept : Nat) → Nat
  | position, place, [], kept => place + (kept - position)
  | position, place, edit :: edits, kept =>
      if edit.stop ≤ kept then
        landingFrom edit.stop (place + (edit.start - position) + edit.text.length) edits kept
      else place + (kept - position)

/-- Where a position that edits keep comes to lie in the new text. -/
def landing (edits : List Edit) (kept : Nat) : Nat :=
  landingFrom 0 0 edits kept

/-- As many characters as `reach` from a place of the new text on, and the one before them, are
none that the edits have written. -/
def Clear (edits : List Edit) (place reach : Nat) : Prop :=
  ∀ stretch ∈ written edits, place + reach ≤ stretch.1 ∨ stretch.2 < place

instance (edits : List Edit) (place reach : Nat) : Decidable (Clear edits place reach) :=
  inferInstanceAs (Decidable (∀ stretch ∈ written edits, _))

/-- The edits keep the character at a position. -/
def Keeps (edits : List Edit) (position : Nat) : Prop :=
  ∀ edit ∈ edits, edit.stop ≤ position ∨ position < edit.start

instance (edits : List Edit) (position : Nat) : Decidable (Keeps edits position) :=
  inferInstanceAs (Decidable (∀ edit ∈ edits, _))

variable {edits : List Edit} {rest : Text} {low start index reach : Nat}

/-- The first edit leaves what stands before it. -/
theorem take_drop_applyFrom {edit : Edit} (inside : edit.start - low ≤ rest.length)
    (before : index + reach ≤ edit.start - low) :
    ((applyFrom low (edit :: edits) rest).drop index).take reach =
      (rest.drop index).take reach := by
  have kept : (rest.take (edit.start - low)).drop index =
      (rest.drop index).take (edit.start - low - index) := List.drop_take ..
  rw [applyFrom, List.append_assoc, List.drop_append_of_le_length (by rw [List.length_take]; omega),
    kept, List.take_append_of_le_length (by rw [List.length_take, List.length_drop]; omega),
    List.take_take, Nat.min_eq_left (by omega)]

theorem getElem?_applyFrom {edit : Edit} (inside : edit.start - low ≤ rest.length)
    (before : index < edit.start - low) :
    (applyFrom low (edit :: edits) rest)[index]? = rest[index]? := by
  have here : index < (rest.take (edit.start - low)).length := by
    rw [List.length_take]
    omega
  rw [applyFrom, List.append_assoc, List.getElem?_append_left here, List.getElem?_take_of_lt before]

/-- Behind the new text of the first edit, the others make what they do of the rest. -/
theorem drop_applyFrom {edit : Edit} (inside : edit.start - low ≤ rest.length) :
    (applyFrom low (edit :: edits) rest).drop (edit.start - low + edit.text.length) =
      applyFrom edit.stop edits (rest.drop (edit.stop - low)) := by
  have width : (rest.take (edit.start - low) ++ edit.text).length =
      edit.start - low + edit.text.length := by
    rw [List.length_append, List.length_take]
    omega
  rw [applyFrom, ← width, List.drop_left]

/-- Edits that keep the width of what they replace keep everything in its place. -/
theorem landingFrom_eq_self {length position : Nat} (ordered : OrderedFrom length low edits)
    (widths : ∀ edit ∈ edits, edit.start + edit.text.length = edit.stop)
    (reached : low ≤ position) : landingFrom low low edits position = position := by
  induction edits generalizing low with
  | nil =>
      rw [landingFrom]
      omega
  | cons edit edits inductionHypothesis =>
      obtain ⟨starts, _, others⟩ := ordered
      have width := widths edit (List.mem_cons_self ..)
      have place : low + (edit.start - low) + edit.text.length = edit.stop := by omega
      rw [landingFrom]
      split
      · next behind =>
        rw [place]
        exact inductionHypothesis others
          (fun other member => widths other (List.mem_cons_of_mem _ member)) behind
      · omega

/-- A clear stretch of what edits make of the rest of a text has stood there before. -/
theorem exists_landingFrom (ordered : OrderedFrom (low + rest.length) low edits)
    (positive : 1 ≤ reach)
    (clear : ∀ stretch ∈ writtenFrom low start edits,
      start + index + reach ≤ stretch.1 ∨ stretch.2 < start + index) :
    ∃ kept, (∀ edit ∈ edits, edit.stop < low + kept ∨ low + kept + reach ≤ edit.start) ∧
      landingFrom low start edits (low + kept) = start + index ∧
      (rest.drop kept).take reach = ((applyFrom low edits rest).drop index).take reach ∧
      (index = 0 ∧ kept = 0 ∨ ∃ before earlier, index = before + 1 ∧ kept = earlier + 1 ∧
        rest[earlier]? = (applyFrom low edits rest)[before]?) := by
  induction edits generalizing low start rest index with
  | nil =>
      refine ⟨index, nofun, ?_, rfl, ?_⟩
      · rw [landingFrom, Nat.add_sub_cancel_left]
      · cases index with
        | zero => exact .inl ⟨rfl, rfl⟩
        | succ before => exact .inr ⟨before, before, rfl, rfl, rfl⟩
  | cons edit edits inductionHypothesis =>
      obtain ⟨starts, stops, others⟩ := ordered
      have bounded := others.position_le
      have head := clear _ (List.mem_cons_self ..)
      simp only at head
      rcases head with before | behind
      · -- The stretch lies before the first edit.
        refine ⟨index, ?_, ?_, (take_drop_applyFrom (by omega) (by omega)).symm, ?_⟩
        · intro other member
          rcases List.mem_cons.mp member with rfl | member
          · omega
          · have bounds := others.bounds member
            omega
        · rw [landingFrom, if_neg (by omega), Nat.add_sub_cancel_left]
        · cases index with
          | zero => exact .inl ⟨rfl, rfl⟩
          | succ previous =>
              refine .inr ⟨previous, previous, rfl, rfl, ?_⟩
              exact (getElem?_applyFrom (by omega) (by omega)).symm
      · -- The stretch lies behind the new text of the first edit.
        have width : low + rest.length = edit.stop + (rest.drop (edit.stop - low)).length := by
          rw [List.length_drop]
          omega
        have divided : (applyFrom low (edit :: edits) rest).drop _ = _ :=
          drop_applyFrom (by omega)
        obtain ⟨further, rfl⟩ : ∃ further, index =
            edit.start - low + edit.text.length + (further + 1) :=
          ⟨index - (edit.start - low + edit.text.length) - 1, by omega⟩
        have place : start + (edit.start - low + edit.text.length + (further + 1)) =
            start + (edit.start - low) + edit.text.length + (further + 1) := by omega
        have clearBehind : ∀ stretch ∈
            writtenFrom edit.stop (start + (edit.start - low) + edit.text.length) edits,
            start + (edit.start - low) + edit.text.length + (further + 1) + reach ≤ stretch.1 ∨
              stretch.2 < start + (edit.start - low) + edit.text.length + (further + 1) := by
          intro stretch member
          rw [← place]
          exact clear stretch (List.mem_cons_of_mem _ member)
        obtain ⟨kept, apart, lands, same,
            ⟨impossible, _⟩ | ⟨before, earlier, step, rfl, character⟩⟩ :=
          inductionHypothesis (width ▸ others) clearBehind
        · cases impossible
        · cases step
          have position : low + (edit.stop - low + earlier + 1) = edit.stop + (earlier + 1) := by
            omega
          refine ⟨edit.stop - low + earlier + 1, ?_, ?_, ?_,
            .inr ⟨edit.start - low + edit.text.length + further, edit.stop - low + earlier,
              rfl, rfl, ?_⟩⟩
          · rw [position]
            intro other member
            rcases List.mem_cons.mp member with rfl | member
            · omega
            · exact apart other member
          · rw [position, landingFrom, if_pos (by omega), lands, place]
          · rw [Nat.add_assoc, ← List.drop_drop, same, ← divided, List.drop_drop]
          · rw [← List.getElem?_drop, character, ← divided, List.getElem?_drop]

/-- A clear stretch of the text that ordered edits leave has stood in the text before, with the
same character before it. -/
theorem exists_landing {source : Text} {place : Nat} (ordered : Ordered source edits)
    (positive : 1 ≤ reach) (clear : Clear edits place reach) :
    ∃ position, (∀ edit ∈ edits, edit.stop < position ∨ position + reach ≤ edit.start) ∧
      landing edits position = place ∧
      source.before? position = (applyAll edits source).before? place ∧
      (source.drop position).take reach = ((applyAll edits source).drop place).take reach := by
  have clearFrom : ∀ stretch ∈ writtenFrom 0 0 edits,
      0 + place + reach ≤ stretch.1 ∨ stretch.2 < 0 + place := by
    rwa [Nat.zero_add]
  obtain ⟨position, apart, lands, same, start | ⟨before, earlier, rfl, rfl, character⟩⟩ :=
    exists_landingFrom (by rwa [Nat.zero_add]) positive clearFrom
  · simp only [Nat.zero_add] at apart lands
    obtain ⟨rfl, rfl⟩ := start
    exact ⟨0, apart, lands, rfl, same⟩
  · simp only [Nat.zero_add] at apart lands
    exact ⟨earlier + 1, apart, lands, by rw [Text.before?_succ, Text.before?_succ]; exact character,
      same⟩

end Edit

end Desugar
