import Desugar.Proofs.Indexed.Passes

/-!
# Which zeros are written

`Decimal.EndsAt` and `Decimal.StartsAt` say, of a dot in a source, that it ends a decimal `2.`
or starts a decimal `.3`, by the characters around it and the code positions of the source.
`Decimal.completed_eq_flatMap` says that completing decimals writes a zero behind each dot of
the first kind and before each dot of the second, and copies every other character.
-/

namespace Desugar

namespace Text

/-- The character at a position divides a text there. -/
theorem drop_of_getElem? {text : Text} {position : Nat} {c : Char}
    (here : text[position]? = some c) : text.drop position = c :: text.drop (position + 1) := by
  obtain ⟨inside, rfl⟩ := List.getElem?_eq_some_iff.mp here
  exact List.drop_eq_getElem_cons inside

variable {gaps : List Nat} {position : Nat} {text : Text}

/-- Without a gap at its end, a padded text has each zero before a character. -/
theorem padded_eq_flatMap_before (noGap : position + text.length ∉ gaps) :
    padded gaps position text =
      (text.zipIdx position).flatMap fun (c, place) => zeroAt gaps place ++ [c] := by
  induction text generalizing position with
  | nil => exact zeroAt_of_not_mem noGap
  | cons c text inductionHypothesis =>
      have behind : position + (c :: text).length = position + 1 + text.length := by
        rw [List.length_cons]
        omega
      rw [behind] at noGap
      rw [padded_cons, inductionHypothesis noGap, List.zipIdx_cons, List.flatMap_cons,
        List.append_assoc]
      rfl

/-- Behind a zero at its start, a padded text has each zero behind a character. -/
theorem padded_eq_flatMap_behind (gaps : List Nat) (position : Nat) (text : Text) :
    padded gaps position text =
      zeroAt gaps position ++
        (text.zipIdx position).flatMap fun (c, place) => c :: zeroAt gaps (place + 1) := by
  induction text generalizing position with
  | nil => exact (List.append_nil _).symm
  | cons c text inductionHypothesis =>
      rw [padded_cons, inductionHypothesis, List.zipIdx_cons, List.flatMap_cons]
      rfl

end Text

namespace Decimal

/-- The dot at a position ends a decimal `2.`: digits stand before it that begin in code, behind
a blank or nothing, and a blank or nothing stands behind it. -/
structure EndsAt (source : Text) (dot : Nat) : Prop where
  written : source[dot]? = some '.'
  digits : ∃ first ∈ source.codePositions, first < dot ∧
    (source.before? first).all isBlank = true ∧
    ((source.drop first).take (dot - first)).all Char.isDigit = true
  behind : source[dot + 1]?.all isBlank = true

/-- The dot at a position starts a decimal `.3`: it is code, stands behind no dot and no word,
and before digits that are as many as there are and end at a blank, a closing parenthesis or
the end of the source. -/
structure StartsAt (source : Text) (dot : Nat) : Prop where
  written : source[dot]? = some '.'
  inCode : dot ∈ source.codePositions
  alone : ((source.before? dot).any fun c => c == '.' || isWord c) = false
  digits : dot + 1 < source.runEnd (dot + 1) Char.isDigit
  behind : (source[source.runEnd (dot + 1) Char.isDigit]?.all fun c => isBlank c || c == ')') =
    true

variable {source : Text} {dot : Nat}

instance : Decidable (EndsAt source dot) :=
  decidable_of_iff
    (source[dot]? = some '.' ∧
      (∃ first ∈ source.codePositions, first < dot ∧
        (source.before? first).all isBlank = true ∧
        ((source.drop first).take (dot - first)).all Char.isDigit = true) ∧
      source[dot + 1]?.all isBlank = true)
    ⟨fun ⟨written, digits, behind⟩ => ⟨written, digits, behind⟩,
      fun ⟨written, digits, behind⟩ => ⟨written, digits, behind⟩⟩

instance : Decidable (StartsAt source dot) :=
  decidable_of_iff
    (source[dot]? = some '.' ∧ dot ∈ source.codePositions ∧
      ((source.before? dot).any fun c => c == '.' || isWord c) = false ∧
      dot + 1 < source.runEnd (dot + 1) Char.isDigit ∧
      (source[source.runEnd (dot + 1) Char.isDigit]?.all fun c => isBlank c || c == ')') = true)
    ⟨fun ⟨written, inCode, alone, digits, behind⟩ => ⟨written, inCode, alone, digits, behind⟩,
      fun ⟨written, inCode, alone, digits, behind⟩ => ⟨written, inCode, alone, digits, behind⟩⟩

/-- The gaps of decimals `2.` lie behind the dots that end one. -/
theorem succ_mem_trailingGaps : dot + 1 ∈ trailingGaps source ↔ EndsAt source dot := by
  rw [mem_trailingGaps]
  constructor
  · rintro ⟨first, digits, tail, isCode, here, nonempty, all, before, blank, place⟩
    obtain rfl : dot = first + digits.length := by omega
    have atDot : source.drop (first + digits.length) = '.' :: tail := by
      rw [← List.drop_drop, here, List.drop_left]
    refine ⟨Text.getElem?_of_drop atDot, ⟨first, ?_, ?_, before, ?_⟩, ?_⟩
    · exact Text.mem_codePositions.mpr isCode
    · exact Nat.lt_add_of_pos_right (List.length_pos_iff.mpr nonempty)
    · rwa [Nat.add_sub_cancel_left, here, List.take_left, List.all_eq_true]
    · rwa [← List.head?_drop, Text.drop_succ_of_drop atDot]
  · rintro ⟨written, ⟨first, inCode, earlier, before, all⟩, blank⟩
    rw [List.all_eq_true] at all
    have inside : dot < source.length := (List.getElem?_eq_some_iff.mp written).1
    have width : ((source.drop first).take (dot - first)).length = dot - first := by
      rw [List.length_take, List.length_drop]
      omega
    have divided := (List.take_append_drop (dot - first) (source.drop first)).symm
    rw [List.drop_drop, Nat.add_sub_cancel' (Nat.le_of_lt earlier), Text.drop_of_getElem? written]
      at divided
    refine ⟨first, _, _, Text.mem_codePositions.mp inCode, divided, ?_, all, before, ?_, ?_⟩
    · apply List.ne_nil_of_length_pos
      omega
    · rwa [List.head?_drop]
    · omega

/-- The gaps of decimals `.3` lie before the dots that start one. -/
theorem mem_leadingGaps_iff : dot ∈ leadingGaps source ↔ StartsAt source dot := by
  rw [mem_leadingGaps]
  have behind (start : Nat) : source[source.runEnd start Char.isDigit]? =
      ((source.drop start).dropWhile Char.isDigit).head? := by
    rw [← List.head?_drop, Text.drop_runEnd]
  have longer (start : Nat) : start < source.runEnd start Char.isDigit ↔
      (source.drop start).head?.any Char.isDigit = true := by
    rw [Text.runEnd]
    cases source.drop start with
    | nil => simp
    | cons c rest => cases digit : c.isDigit <;> simp [digit]
  constructor
  · rintro ⟨isCode, leads⟩
    obtain ⟨_, tail, here⟩ := leadsWithDot_cases leads
    have there := Text.drop_succ_of_drop here
    rw [here, leadsWithDot] at leads
    simp only [Bool.and_eq_true, Bool.not_eq_true'] at leads
    refine ⟨Text.getElem?_of_drop here, Text.mem_codePositions.mpr isCode, leads.1.2, ?_, ?_⟩
    · rw [longer, there]
      exact leads.1.1
    · rw [behind, there]
      exact leads.2
  · rintro ⟨written, inCode, alone, digits, ends⟩
    rw [longer] at digits
    rw [behind] at ends
    refine ⟨Text.mem_codePositions.mp inCode, ?_⟩
    rw [Text.drop_of_getElem? written, leadsWithDot, digits, alone, ends]
    rfl

/-- Completing decimals `2.` writes a zero behind each dot that ends one, completing decimals `.3`
writes a zero before each dot that starts one, and both copy every other character. -/
theorem completed_eq_flatMap (source : Text) :
    completeTrailing source =
        (source.zipIdx.flatMap fun (c, place) =>
          if EndsAt source place then [c, '0'] else [c]) ∧
      completeLeading source =
        source.zipIdx.flatMap fun (c, place) =>
          if StartsAt source place then ['0', c] else [c] := by
  constructor
  · have noGap : 0 ∉ trailingGaps source := by
      intro member
      cases before?_of_mem_trailingGaps member
    rw [completeTrailing_eq_padded, Text.padded_eq_flatMap_behind, Text.zeroAt_of_not_mem noGap,
      List.nil_append]
    apply congrArg (List.flatMap · source.zipIdx)
    funext ⟨c, place⟩
    simp only [Text.zeroAt, succ_mem_trailingGaps]
    split <;> rfl
  · have noGap : 0 + source.length ∉ leadingGaps source := by
      rw [Nat.zero_add, mem_leadingGaps_iff]
      rintro ⟨written, -⟩
      simp at written
    rw [completeLeading_eq_padded, Text.padded_eq_flatMap_before noGap]
    apply congrArg (List.flatMap · source.zipIdx)
    funext ⟨c, place⟩
    simp only [Text.zeroAt, mem_leadingGaps_iff]
    split <;> rfl

/-- Of the dots here, one ends a decimal and one starts one. -/
example :
    (List.range 22).filter (fun dot => EndsAt "2. 1..5 v1. '3. ' .5 )".toList dot) = [1] ∧
      (List.range 22).filter (fun dot => StartsAt "2. 1..5 v1. '3. ' .5 )".toList dot) = [18] := by
  decide +kernel

end Decimal

end Desugar
