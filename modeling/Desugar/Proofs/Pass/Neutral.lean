import Desugar.Proofs.Lexer.Lookahead
import Desugar.Proofs.Pass.Seam

/-!
# Edits that leave the reading as it was

An edit changes the reading of what stands behind it only if its new text leaves something
else open than the replaced one. `Edit.Neutral` says that it does not, and that nothing read
before it sees the difference. `Edit.agree_rewritten` concludes that behind the last of
several neutral edits the reading goes on as it did, although the text before is another.
-/

namespace Desugar

open Reading

/-- What stands between two positions. -/
theorem Text.exists_drop_eq_append {text : Text} {low position : Nat} (bounded : low ≤ position)
    (inside : position ≤ text.length) :
    ∃ between, text.drop low = between ++ text.drop position ∧
      low + between.length = position := by
  refine ⟨(text.drop low).take (position - low), ?_, ?_⟩
  · have distance : position = low + (position - low) := by omega
    rw [distance, ← List.drop_drop, Nat.add_sub_cancel_left, List.take_append_drop]
  · rw [List.length_take, List.length_drop]
    omega

/-- The last character before a position is the last one of a text that ends there. -/
theorem Text.getLast?_eq_before? {text kept : Text} {low position : Nat}
    (here : text.drop low = kept ++ text.drop position) (place : low + kept.length = position)
    (inside : position ≤ text.length) (nonempty : kept ≠ []) :
    kept.getLast? = text.before? position := by
  rw [← readingAt_previous inside, ← place, readingAt_add here, after_previous,
    List.getLast?_eq_some_getLast nonempty]
  rfl

namespace Edit

/-- An edit replaces code by a text that leaves the same open, whatever follows, and no
text read before it is read otherwise for it. -/
structure Neutral (source : Text) (edit : Edit) : Prop where
  fresh : (source.readingAt edit.start).mode = .fresh
  inCode : InCode (source.readingAt edit.start).nesting
  unseen : ∀ (reading : Reading) (kept behind : Text), kept ≠ [] →
    kept.getLast? = source.before? edit.start →
      reading.after kept (source.drop edit.start) = reading.after kept (edit.text ++ behind)
  settled : ∀ (reading : Reading) (behind : Text), reading.mode = .fresh →
    reading.nesting = (source.readingAt edit.start).nesting →
      Agree (source.drop edit.stop) (source.readingAt edit.stop) (reading.after edit.text behind)

/-- Whether the stretch of an edit begins in code and ends with nothing half read. -/
def standsInCode (source : Text) (edit : Edit) : Bool :=
  (source.readingAt edit.start).mode = .fresh &&
    (source.readingAt edit.start).nesting.head? != some 0 &&
      (source.readingAt edit.stop).mode = .fresh

theorem standsInCode_iff {source : Text} {edit : Edit} :
    edit.standsInCode source = true ↔
      (source.readingAt edit.start).mode = .fresh ∧
        InCode (source.readingAt edit.start).nesting ∧
          (source.readingAt edit.stop).mode = .fresh := by
  simp [standsInCode, InCode, and_assoc]

variable {source : Text} {edits : List Edit} {low position : Nat}

/-- A reading that agrees with that of the source at some place before a neutral edit
agrees with it behind the edit. -/
theorem Neutral.agree {edit : Edit} (neutral : edit.Neutral source) {kept : Text}
    (here : source.drop low = kept ++ source.drop edit.start)
    (place : low + kept.length = edit.start) (inside : edit.start ≤ source.length)
    {reading : Reading} (agree : Agree (source.drop low) (source.readingAt low) reading)
    (behind : Text) :
    Agree (source.drop edit.stop) (source.readingAt edit.stop)
      ((reading.after kept (edit.text ++ behind)).after edit.text behind) := by
  have arrived : (reading.after kept (edit.text ++ behind)).mode =
        (source.readingAt edit.start).mode ∧
      (reading.after kept (edit.text ++ behind)).nesting =
        (source.readingAt edit.start).nesting := by
    by_cases nothing : kept = []
    · subst nothing
      rw [← place]
      exact ⟨agree.mode.symm, agree.nesting.symm⟩
    · have last := Text.getLast?_eq_before? here place inside nothing
      rw [← neutral.unseen reading kept behind nothing last, ← place, Text.readingAt_add here,
        place]
      rw [here] at agree
      rw [agree.after_eq nothing]
      exact ⟨rfl, rfl⟩
  exact neutral.settled _ behind (arrived.1.trans neutral.fresh) arrived.2

/-- The reading goes on behind the last of several neutral edits as it did. -/
theorem agree_applyFrom (ordered : OrderedFrom source.length low edits)
    (neutral : ∀ edit ∈ edits, edit.Neutral source) {reading : Reading}
    (agree : Agree (source.drop low) (source.readingAt low) reading) (behind : Text) :
    Agree (source.drop (furthest low edits)) (source.readingAt (furthest low edits))
      (reading.after
        (applyFrom low edits ((source.drop low).take (furthest low edits - low))) behind) := by
  induction edits generalizing low reading with
  | nil => simpa [furthest] using agree
  | cons edit edits inductionHypothesis =>
      obtain ⟨starts, stops, others⟩ := ordered
      have inside := others.position_le
      have reached : edit.stop ≤ furthest edit.stop edits := by
        rw [← furthest_cons_of_le (Nat.le_refl _) edits]
        exact le_furthest (List.mem_cons_self ..)
      obtain ⟨kept, here, place⟩ :=
        Text.exists_drop_eq_append starts (Nat.le_trans stops inside)
      rw [furthest_cons_of_le (Nat.le_trans starts stops)]
      have keptTake : ((source.drop low).take (furthest edit.stop edits - low)).take
          (edit.start - low) = kept := by
        rw [List.take_take, here, Nat.min_eq_left (by omega), ← place, Nat.add_sub_cancel_left,
          List.take_left]
      have keptDrop : ((source.drop low).take (furthest edit.stop edits - low)).drop
          (edit.stop - low) =
            (source.drop edit.stop).take (furthest edit.stop edits - edit.stop) := by
        rw [List.drop_take, List.drop_drop]
        congr 1
        · omega
        · congr 1
          omega
      rw [applyFrom, keptTake, keptDrop, List.append_assoc, after_append, after_append]
      refine inductionHypothesis others
        (fun other member => neutral other (List.mem_cons_of_mem _ member)) ?_
      rw [List.append_assoc]
      exact (neutral edit (List.mem_cons_self ..)).agree here place (Nat.le_trans stops inside)
        agree _

/-- The reading goes on behind the seam of a position as it did, if the edits before the
position are neutral. -/
theorem agree_rewritten (ordered : Ordered source edits)
    (neutral : ∀ edit ∈ edits, edit.stop ≤ position → edit.Neutral source)
    (inside : position ≤ source.length) (behind : Text) :
    Agree (source.drop (seam edits position)) (source.readingAt (seam edits position))
      (Reading.start.after (rewritten edits source position) behind) := by
  have before : OrderedFrom source.length 0 (edits.filter (endsBy position)) :=
    (ordered.filter_endsBy (Nat.zero_le _)).extend inside
  have sameStart : Agree (source.drop 0) (source.readingAt 0) Reading.start :=
    ⟨rfl, rfl, fun _ => rfl⟩
  refine agree_applyFrom before ?_ sameStart behind
  intro edit kept
  obtain ⟨member, ends⟩ := of_mem_filter_endsBy kept
  exact neutral edit member ends

end Edit

end Desugar
