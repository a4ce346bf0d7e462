import Desugar.Proofs.Sugar.Neutrality

/-!
# Edits that show

Several edits of a text could in principle cancel out, one putting back what another has
taken away. The edits of a pass never do: list blocks and prefix calls are replaced by what is
different and no wider, the other kinds of sugar by what is wider. So `Pass.run_eq_self_iff`
can tell from the text whether a pass has made an edit, and `Pass.length_run` can tell how
many decimals it has completed.
-/

namespace Desugar

namespace Edit

variable {position : Nat} {edits : List Edit} {before after source : Text}

/-- Edits that each add at most `surplus` characters to the text. -/
theorem SplicesFrom.length_le (splices : SplicesFrom position edits before after) (surplus : Nat)
    (bounded : ∀ edit ∈ edits, edit.start + edit.text.length ≤ edit.stop + surplus) :
    after.length ≤ before.length + surplus * edits.length := by
  induction splices with
  | rest kept => exact Nat.le_refl _
  | edit kept removed starts stops others inductionHypothesis =>
      obtain ⟨first, later⟩ := List.forall_mem_cons.mp bounded
      have further := inductionHypothesis later
      simp only [List.length_append, List.length_cons, Nat.mul_succ]
      omega

/-- Edits that each add at least `surplus` characters to the text. -/
theorem SplicesFrom.le_length (splices : SplicesFrom position edits before after) (surplus : Nat)
    (bounded : ∀ edit ∈ edits, edit.stop + surplus ≤ edit.start + edit.text.length) :
    before.length + surplus * edits.length ≤ after.length := by
  induction splices with
  | rest kept => exact Nat.le_refl _
  | edit kept removed starts stops others inductionHypothesis =>
      obtain ⟨first, later⟩ := List.forall_mem_cons.mp bounded
      have further := inductionHypothesis later
      simp only [List.length_append, List.length_cons, Nat.mul_succ]
      omega

/-- Edits that are no wider than what they replace, and different from it, do not cancel out.
If they did, none could be narrower, and the first one would put back what it replaces. -/
theorem Splices.eq_nil_of_narrow (splices : Splices edits source after) (same : after = source)
    (narrow : ∀ edit ∈ edits, edit.start + edit.text.length ≤ edit.stop)
    (differs : ∀ edit ∈ edits,
      edit.text ≠ (source.drop edit.start).take (edit.stop - edit.start)) : edits = [] := by
  cases splices with
  | rest kept => rfl
  | @edit _ first edits before after kept removed starts stops others =>
      obtain ⟨firstNarrow, othersNarrow⟩ := List.forall_mem_cons.mp narrow
      have shorter := others.length_le 0 othersNarrow
      simp only [List.append_assoc, List.append_cancel_left_eq] at same
      have lengths := congrArg List.length same
      rw [List.length_append, List.length_append] at lengths
      obtain ⟨putBack, _⟩ := List.append_inj same (by omega)
      have stretch : ((kept ++ removed ++ before).drop first.start).take
          (first.stop - first.start) = removed := by
        rw [starts, Nat.zero_add, List.append_assoc, List.drop_left, stops, starts, Nat.zero_add,
          Nat.add_sub_cancel_left, List.take_left]
      exact absurd (putBack.trans stretch.symm) (differs first (List.mem_cons_self ..))

/-- Edits that are wider than what they replace make the text longer. -/
theorem Splices.eq_nil_of_wide (splices : Splices edits source after) (same : after = source)
    (wide : ∀ edit ∈ edits, edit.stop + 1 ≤ edit.start + edit.text.length) : edits = [] := by
  have longer := SplicesFrom.le_length splices 1 wide
  rw [same] at longer
  exact List.eq_nil_of_length_eq_zero (by omega)

end Edit

namespace Text

/-- Number of characters of several pieces of text, each with one separator. -/
def extent : List Text → Nat
  | [] => 0
  | piece :: pieces => piece.length + 1 + extent pieces

/-- The pieces of a text make it up with the separators between them. -/
theorem extent_splitOnP (separates : Char → Bool) (text : Text) :
    extent (text.splitOnP separates) = text.length + 1 := by
  induction text with
  | nil => rfl
  | cons c text inductionHypothesis =>
      rw [List.splitOnP_cons_eq_if_modifyHead]
      split
      · rw [extent, inductionHypothesis, List.length_nil, List.length_cons]
        omega
      · cases pieces : text.splitOnP separates with
        | nil => exact absurd pieces (List.splitOnP_ne_nil _ _)
        | cons first others =>
            rw [pieces] at inductionHypothesis
            simp only [extent, List.modifyHead_cons, List.length_cons] at inductionHypothesis ⊢
            omega

theorem extent_filter_le (accept : Text → Bool) (pieces : List Text) :
    extent (pieces.filter accept) ≤ extent pieces := by
  induction pieces with
  | nil => exact Nat.le_refl _
  | cons piece pieces inductionHypothesis =>
      rw [List.filter_cons]
      split <;> simp only [extent] <;> omega

/-- Pieces joined with a character between them need one separator less than pieces. -/
theorem length_intercalate (separator : Char) (pieces : List Text) :
    ([separator].intercalate pieces).length = extent pieces - 1 := by
  induction pieces with
  | nil => rfl
  | cons piece pieces inductionHypothesis =>
      cases pieces with
      | nil => simp [extent]
      | cons next pieces =>
          rw [List.intercalate_cons_cons, List.length_append, List.length_append,
            inductionHypothesis]
          simp only [extent, List.length_singleton]
          omega

end Text

theorem length_uncomment_le (inComment : Bool) (text : Text) :
    (uncomment inComment text).length ≤ text.length := by
  fun_induction uncomment inComment text <;> simp only [List.length_cons, List.length_nil] <;> omega

/-- Flattening makes no body longer, since words are at least one blank apart. -/
theorem length_flattenBody_le (body : Text) : (flattenBody body).length ≤ body.length := by
  have kept := Text.extent_filter_le (fun word => !word.isEmpty)
    ((uncomment false body).splitOnP isBlank)
  have whole := Text.extent_splitOnP isBlank (uncomment false body)
  have shorter := length_uncomment_le false body
  rw [flattenBody, Text.length_intercalate, Text.words]
  omega

namespace ListBlock

/-- A body that is edited is replaced by what is different and no wider. -/
theorem of_mem_edits {keywords : List Keyword} {source : Text} {edit : Edit}
    (member : edit ∈ edits keywords source) :
    edit.start + edit.text.length ≤ edit.stop ∧
      edit.text ≠ (source.drop edit.start).take (edit.stop - edit.start) := by
  obtain ⟨⟨position, block⟩, found, made⟩ := List.mem_filterMap.mp member
  obtain ⟨behind, here⟩ := exists_eq_append_of_read? (read?_of_mem_all found)
  have body : source.drop (position + block.headWidth) = block.body ++ ')' :: behind := by
    rw [← List.drop_drop, here, ← length_head, List.drop_left]
  rw [edit?] at made
  split at made
  · cases made
  · next uneven =>
    cases made
    refine ⟨Nat.add_le_add_left (length_flattenBody_le block.body) _, ?_⟩
    rw [body, Nat.add_sub_cancel_left, List.take_left]
    exact uneven

end ListBlock

namespace PrefixCall

/-- A prefix call is replaced by what begins with a space in place of its parenthesis. -/
theorem text_ne_of_mem_edits {name source : Text} {edit : Edit}
    (member : edit ∈ edits name source) :
    edit.text ≠ (source.drop edit.start).take (edit.stop - edit.start) := by
  obtain ⟨⟨position, call⟩, found, rfl⟩ := List.mem_map.mp member
  obtain ⟨behind, written⟩ := written_isPrefix_of_read? (read?_of_mem_scan found)
  rw [Nat.add_sub_cancel_left, ← written, List.take_left]
  simp [respaced, PrefixCall.written]

end PrefixCall

namespace SymbolPath

/-- Segments are joined with more than the colon that is written before each of them. -/
theorem length_flatMap_le {segments : List Text} (some : segments ≠ []) :
    (segments.flatMap fun segment => ':' :: segment).length ≤
      (separator.intercalate segments).length + 1 := by
  induction segments with
  | nil => exact absurd rfl some
  | cons segment segments inductionHypothesis =>
      cases segments with
      | nil => simp
      | cons next segments =>
          have others := inductionHypothesis (List.cons_ne_nil _ _)
          rw [List.intercalate_cons_cons, List.flatMap_cons]
          simp only [List.length_append, List.length_cons, separator, List.length_nil] at others ⊢
          omega

/-- A symbol path is replaced by a wider call. -/
theorem lt_of_mem_edits {constructor source : Text} {edit : Edit}
    (member : edit ∈ edits constructor source) :
    edit.stop + 1 ≤ edit.start + edit.text.length := by
  obtain ⟨⟨position, path⟩, _, rfl⟩ := List.mem_map.mp member
  have some : path.segments ≠ [] := List.ne_nil_of_length_pos (Nat.lt_of_lt_of_le
    Nat.zero_lt_two path.two_le_length)
  have wide := length_flatMap_le some
  rw [← written, ← joined] at wide
  simp only [call, List.length_append, List.length_cons, List.length_nil]
  omega

end SymbolPath

namespace Pass

/-- Whether a pass completes decimals. -/
def completesDecimals : Pass → Bool
  | .trailingDots | .leadingDots => true
  | _ => false

/-- Completing decimals is inserting zeros. -/
theorem exists_gaps {pass : Pass} (decimals : pass.completesDecimals = true) (source : Text) :
    ∃ gaps : List Nat, pass.edits source = gaps.map (Edit.insertion · ['0']) := by
  cases pass with
  | trailingDots => exact ⟨_, Decimal.trailingEdits_eq_map source⟩
  | leadingDots => exact ⟨_, Decimal.leadingEdits_eq_map source⟩
  | listBlocks | callSpacing | symbolPaths => cases decimals

/-- Every decimal that is completed makes the text one character longer. -/
theorem length_run {pass : Pass} (decimals : pass.completesDecimals = true) (source : Text) :
    (pass.run source).length = source.length + (pass.edits source).length := by
  have splices := Edit.splices_applyAll (pass.ordered_edits source)
  have single : ∀ edit ∈ pass.edits source, edit.stop + 1 = edit.start + edit.text.length := by
    obtain ⟨gaps, made⟩ := exists_gaps decimals source
    intro edit member
    rw [made] at member
    obtain ⟨gap, _, rfl⟩ := List.mem_map.mp member
    rfl
  have atMost := splices.length_le 1 fun edit member =>
    Nat.le_of_eq (single edit member).symm
  have atLeast := splices.le_length 1 fun edit member =>
    Nat.le_of_eq (single edit member)
  rw [run]
  omega

/-- A pass leaves a text as it is only if it makes no edit. -/
theorem run_eq_self_iff {pass : Pass} {source : Text} :
    pass.run source = source ↔ pass.edits source = [] := by
  refine ⟨fun same => ?_, fun nothing => by rw [run, nothing, Edit.applyAll_nil]⟩
  have splices := Edit.splices_applyAll (pass.ordered_edits source)
  have decimals (completes : pass.completesDecimals = true) : pass.edits source = [] := by
    have longer := length_run completes source
    rw [same] at longer
    exact List.eq_nil_of_length_eq_zero (by omega)
  cases pass with
  | listBlocks keywords =>
      exact splices.eq_nil_of_narrow same (fun _ member => (ListBlock.of_mem_edits member).1)
        fun _ member => (ListBlock.of_mem_edits member).2
  | callSpacing name =>
      exact splices.eq_nil_of_narrow same
        (fun _ member => Nat.le_of_eq (PrefixCall.stop_of_mem_edits member))
        fun _ member => PrefixCall.text_ne_of_mem_edits member
  | symbolPaths constructor =>
      exact splices.eq_nil_of_wide same fun _ member => SymbolPath.lt_of_mem_edits member
  | trailingDots | leadingDots => exact decimals rfl

end Pass

end Desugar
