import Desugar.Proofs.Decimal.Zeros
import Desugar.Proofs.Guard.Output
import Desugar.Proofs.Indexed.Decimals
import Desugar.Proofs.Pass.Neutral

/-!
# Completing decimals twice

A completed decimal has digits on both sides of its dot, so completing the decimals of a text
again should change nothing. A zero can only make a difference through the reading of the text:
behind a quote written as a character literal, as in `?'.5`, it makes the quote open a string,
and what was string text behind it may then be code. `Decimal.complete_complete` says that
completing decimals is idempotent if no decimal stands there, and
`Decimal.complete_not_idempotent` that otherwise it need not be.

The proof follows a shorthand from the completed text back to the text: wherever zeros are
written that leave the reading as it is, a shorthand that is found was there before, with no
zero beside its dot.
-/

namespace Desugar

/-- Digits that continue a word have their zeros for their own. -/
theorem Assignment.ownZeros_of_digits {previous : Option Char} {digits : Text}
    (word : previous.any isWord = true) (all : ∀ c ∈ digits, c.isDigit = true) :
    ownZeros previous digits = true := by
  induction digits generalizing previous with
  | nil => rfl
  | cons c digits inductionHypothesis =>
      obtain ⟨digit, others⟩ := List.forall_mem_cons.mp all
      have further : ownZeros (some c) digits = true :=
        inductionHypothesis (Decimal.isWord_of_isDigit digit) others
      simp [ownZeros, word, further]

namespace Text

variable {gaps : List Nat} {text : Text} {position : Nat}

/-- Behind a gap of the text, the padded text has a zero. -/
theorem before?_place_succ (gap : position ∈ gaps) (inside : position ≤ text.length) :
    (padded gaps 0 text).before? (place gaps text position + 1) = some '0' := by
  obtain ⟨rest, zero, _⟩ := padded_eq_cons gap (text.drop position)
  rw [before?_succ, ← List.head?_drop, drop_place inside, zero, List.head?_cons]

/-- Digits of a padded text that do not begin with the zero of a gap are digits of the text,
and no gap lies between them or directly behind them. -/
theorem digits_of_padded (quiet : ∀ gap ∈ gaps, QuietGap text gap) (noGap : position ∉ gaps)
    {digits tail : Text} (nonempty : digits ≠ []) (all : ∀ c ∈ digits, c.isDigit = true)
    (written : padded gaps position (text.drop position) = digits ++ tail) :
    text.drop position = digits ++ text.drop (position + digits.length) ∧
      tail = padded gaps (position + digits.length) (text.drop (position + digits.length)) ∧
      position + digits.length ∉ gaps := by
  obtain ⟨first, others, rfl⟩ := List.exists_cons_of_ne_nil nonempty
  obtain ⟨firstDigit, otherDigits⟩ := List.forall_mem_cons.mp all
  cases here : text.drop position with
  | nil =>
      rw [here, padded_nil, zeroAt_of_not_mem noGap] at written
      cases written
  | cons c rest =>
      rw [here, padded_cons, zeroAt_of_not_mem noGap] at written
      obtain ⟨rfl, remaining⟩ := List.cons.inj written
      have firstWord : (some c).any isWord = true := Decimal.isWord_of_isDigit firstDigit
      have context : (some c).any isWord = true →
          (text.before? (position + 1)).any isWord = true := by
        rw [before?_succ, getElem?_of_drop here]
        exact id
      rw [← drop_succ_of_drop here] at remaining
      -- Behind the first digit every zero continues a word, so none of them belongs to a gap.
      obtain ⟨division, padding, -⟩ := drop_eq_append_of_padded quiet context
        (Assignment.ownZeros_of_digits firstWord otherDigits) remaining
      have behind : position + (c :: others).length = position + 1 + others.length := by
        rw [List.length_cons]
        omega
      rw [drop_succ_of_drop here] at division
      have divided : text.drop position =
          (c :: others) ++ text.drop (position + (c :: others).length) := by
        rw [here, behind, List.cons_append, ← division]
      refine ⟨here ▸ divided, behind ▸ padding, fun gap => ?_⟩
      have lengths := congrArg List.length divided
      rw [List.length_append, List.length_drop, List.length_drop] at lengths
      have inside : position + (c :: others).length ≤ text.length := by
        have started := lt_length_of_drop here
        rw [List.length_cons] at lengths ⊢
        omega
      have noWord := (quiet _ gap).noWord
      rw [← getLast?_eq_before? divided rfl inside nonempty,
        List.getLast?_eq_some_getLast nonempty, Option.any_some,
        Decimal.isWord_of_isDigit (all _ (List.getLast_mem nonempty))] at noWord
      cases noWord

/-- Zeros in quiet gaps leave a character literal before another position as it was. -/
theorem endsLiteral_padded (quiet : ∀ gap ∈ gaps, QuietGap text gap)
    (inside : position ≤ text.length) :
    (padded gaps 0 text).endsLiteral (place gaps text position) = text.endsLiteral position := by
  rw [endsLiteral, endsLiteral, before?_padded quiet inside]
  cases position with
  | zero => rfl
  | succ position =>
      have here : text.drop position = text[position] :: text.drop (position + 1) :=
        List.drop_eq_getElem_cons inside
      rw [place_succ here, Nat.add_sub_cancel, Nat.add_sub_cancel, before?_succ,
        getElem?_of_drop here]
      by_cases gap : position ∈ gaps
      · have plainNext := (quiet _ gap).plainNext
        rw [here, List.head?_cons, Option.all_some] at plainNext
        rw [Option.any_some, isQuote_of_isPlain plainNext, Bool.and_false, Bool.and_false]
      · rw [zeroAt_of_not_mem gap, List.length_nil, Nat.add_zero,
          readingAt_padded quiet (Nat.le_of_succ_le inside)]

end Text

namespace Decimal

variable {gaps : List Nat} {text : Text}

/-- Behind a dot that follows no word, no zero is written. -/
theorem succ_not_mem_gaps {rest : Text} {dot : Nat} (here : text.drop dot = '.' :: rest)
    (noWord : (text.before? dot).any isWord = false) :
    dot + 1 ∉ trailingGaps text ∧ dot + 1 ∉ leadingGaps text := by
  constructor
  · intro gap
    obtain ⟨start, digits, tail, _, written, nonempty, all, _, _, place⟩ :=
      mem_trailingGaps.mp gap
    obtain rfl : dot = start + digits.length := by omega
    have divided : text.drop start = digits ++ text.drop (start + digits.length) := by
      rw [← List.drop_drop, written, List.drop_left]
    rw [← Text.getLast?_eq_before? divided rfl (Nat.le_of_lt (Text.lt_length_of_drop here))
      nonempty, List.getLast?_eq_some_getLast nonempty, Option.any_some,
      isWord_of_isDigit (all _ (List.getLast_mem nonempty))] at noWord
    cases noWord
  · intro gap
    have leads := (mem_leadingGaps.mp gap).2
    rw [Text.before?_succ, Text.getElem?_of_drop here] at leads
    cases (leadsWithDot_iff.mp leads).1

section Padded

variable (kinds : ∀ gap ∈ gaps, gap ∈ trailingGaps text ∨ gap ∈ leadingGaps text)

include kinds

/-- Of the zeros that are written, none is all the digits of a decimal `2.`. -/
theorem not_mem_of_padded_trailingDot {position : Nat} {digits tail : Text}
    (nonempty : digits ≠ []) (all : ∀ c ∈ digits, c.isDigit = true)
    (before : (text.before? position).all isBlank = true)
    (behind : tail.head?.all isBlank = true)
    (written : Text.padded gaps position (text.drop position) = digits ++ '.' :: tail) :
    position ∉ gaps := by
  intro gap
  rcases kinds position gap with trailing | leading
  · rw [before?_of_mem_trailingGaps trailing] at before
    exact absurd before (by decide)
  · -- The zero of a decimal `.3` is followed by a dot and a digit, and not by a dot and a blank.
    have leads := (mem_leadingGaps.mp leading).2
    obtain ⟨noWord, rest, here⟩ := leadsWithDot_cases leads
    obtain ⟨noTrailing, noLeading⟩ := succ_not_mem_gaps here noWord
    have noGap : position + 1 ∉ gaps := fun next => (kinds _ next).elim noTrailing noLeading
    rw [here, Text.padded_cons, Text.zeroAt_of_mem gap, List.singleton_append] at written
    obtain ⟨first, others, rfl⟩ := List.exists_cons_of_ne_nil nonempty
    obtain ⟨-, written⟩ := List.cons.inj written
    cases others with
    | cons second others =>
        have dot : '.' = second := (List.cons.inj written).1
        exact absurd (all second (by simp)) (by rw [← dot]; decide)
    | nil =>
        obtain rfl : Text.padded gaps (position + 1) rest = tail := (List.cons.inj written).2
        rw [here, leadsWithDot, Bool.and_eq_true, Bool.and_eq_true] at leads
        rw [Text.head?_padded noGap] at behind
        cases rest with
        | nil => cases leads.1.1
        | cons c rest =>
            have digit : c.isDigit = true := leads.1.1
            rw [isDigit_eq_false_of_isBlank behind] at digit
            cases digit

variable (quiet : ∀ gap ∈ gaps, text.QuietGap gap)

include quiet

/-- A decimal `2.` of a padded text was there before, and no zero has been written behind its
dot. -/
theorem exists_trailingGap_of_padded {index : Nat}
    (member : index ∈ trailingGaps (text.padded gaps 0)) :
    ∃ gap ∈ trailingGaps text, gap ∉ gaps := by
  obtain ⟨start, digits, tail, isCode, written, nonempty, all, before, behind, -⟩ :=
    mem_trailingGaps.mp member
  obtain ⟨position, inside, rfl | ⟨gap, rfl⟩⟩ :=
    Text.exists_place (Text.lt_length_of_isCodeAt isCode)
  · rw [Text.before?_padded quiet inside] at before
    rw [Text.drop_place inside] at written
    have noGap := not_mem_of_padded_trailingDot kinds nonempty all before behind written
    obtain ⟨here, padding, noGapBefore⟩ := Text.digits_of_padded quiet noGap nonempty all written
    cases there : text.drop (position + digits.length) with
    | nil =>
        rw [there, Text.padded_nil, Text.zeroAt_of_not_mem noGapBefore] at padding
        cases padding
    | cons c rest =>
        rw [there, Text.padded_cons, Text.zeroAt_of_not_mem noGapBefore] at padding
        obtain ⟨rfl, rfl⟩ := List.cons.inj padding
        have noGapBehind : position + digits.length + 1 ∉ gaps := by
          intro gap
          obtain ⟨_, zero, _⟩ := Text.padded_eq_cons gap rest
          rw [zero] at behind
          have blankZero : isBlank '0' = true := behind
          exact absurd blankZero (by decide)
        rw [Text.head?_padded noGapBehind] at behind
        rw [there] at here
        have notEnd : position < text.length := by
          have reached := Text.lt_length_of_drop there
          omega
        rw [Text.isCodeAt_padded quiet notEnd noGap] at isCode
        refine ⟨position + (digits.length + 1), mem_trailingGaps.mpr ?_, noGapBehind⟩
        exact ⟨position, digits, rest, isCode, here, nonempty, all, before, behind, rfl⟩
  · -- The decimal would begin directly behind a zero, which is no blank.
    rw [Text.before?_place_succ gap inside] at before
    exact absurd before (by decide)

/-- A decimal `.3` of a padded text was there before, and no zero has been written before its
dot. -/
theorem exists_leadingGap_of_padded {index : Nat}
    (member : index ∈ leadingGaps (text.padded gaps 0)) :
    ∃ gap ∈ leadingGaps text, gap ∉ gaps ∧ index = Text.place gaps text gap := by
  obtain ⟨isCode, leads⟩ := mem_leadingGaps.mp member
  obtain ⟨position, inside, rfl | ⟨gap, rfl⟩⟩ :=
    Text.exists_place (Text.lt_length_of_isCodeAt isCode)
  · rw [Text.before?_padded quiet inside, Text.drop_place inside] at leads
    have noWord := (leadsWithDot_cases leads).1
    obtain ⟨alone, digits, behind, written, nonempty, all, ends, follows⟩ :=
      leadsWithDot_iff.mp leads
    have noGap : position ∉ gaps := by
      intro gap
      obtain ⟨_, zero, _⟩ := Text.padded_eq_cons gap (text.drop position)
      rw [zero] at written
      cases written
    cases here : text.drop position with
    | nil =>
        rw [here, Text.padded_nil, Text.zeroAt_of_not_mem noGap] at written
        cases written
    | cons c rest =>
        rw [here, Text.padded_cons, Text.zeroAt_of_not_mem noGap] at written
        obtain ⟨rfl, remaining⟩ := List.cons.inj written
        obtain ⟨noTrailing, noLeading⟩ := succ_not_mem_gaps here noWord
        have noGapBehind : position + 1 ∉ gaps := fun gap =>
          (kinds _ gap).elim noTrailing noLeading
        have there := Text.drop_succ_of_drop here
        rw [← there] at remaining
        obtain ⟨divided, padding, noGapAtEnd⟩ :=
          Text.digits_of_padded quiet noGapBehind nonempty all remaining
        rw [padding, Text.head?_padded noGapAtEnd] at ends follows
        rw [Text.isCodeAt_padded quiet (Text.lt_length_of_drop here) noGap] at isCode
        refine ⟨position, mem_leadingGaps.mpr ⟨isCode, leadsWithDot_iff.mpr ?_⟩, noGap, rfl⟩
        refine ⟨alone, digits, _, ?_, nonempty, all, ends, follows⟩
        rw [here, ← there, divided, List.cons_append]
  · -- The dot would stand directly behind a zero, which belongs to a word.
    rw [Text.before?_place_succ gap inside] at leads
    exact absurd (leadsWithDot_cases leads).1 (by decide)

end Padded

/-- A text without decimals `2.` stays as it is when they are completed. -/
theorem completeTrailing_of_no_gap (nothing : ∀ gap, gap ∉ trailingGaps text) :
    completeTrailing text = text := by
  rw [completeTrailing, trailingEdits_eq_map, List.eq_nil_iff_forall_not_mem.mpr nothing]
  rfl

/-- A text without decimals `.3` stays as it is when they are completed. -/
theorem completeLeading_of_no_gap (nothing : ∀ gap, gap ∉ leadingGaps text) :
    completeLeading text = text := by
  rw [completeLeading, leadingEdits_eq_map, List.eq_nil_iff_forall_not_mem.mpr nothing]
  rfl

/-- Completing decimals `2.` leaves none. -/
theorem not_mem_trailingGaps_completeTrailing (text : Text) (index : Nat) :
    index ∉ trailingGaps (completeTrailing text) := by
  rw [completeTrailing_eq_padded]
  intro member
  obtain ⟨gap, listed, missing⟩ := exists_trailingGap_of_padded (fun _ => .inl)
    (fun _ => quietGap_of_mem_trailingGaps) member
  exact missing listed

/-- No decimal `.3` of a source stands directly behind a quote written as a character literal. -/
def SparesLiterals (source : Text) : Prop :=
  ∀ dot ∈ source.codePositions, StartsAt source dot → source.endsLiteral dot = false

instance (source : Text) : Decidable (SparesLiterals source) :=
  inferInstanceAs (Decidable (∀ dot ∈ source.codePositions, _))

/-- Where no decimal `.3` stands behind a character literal, none does so after decimals `2.` are
completed, and its zero makes no difference to the reading. -/
theorem SparesLiterals.quietGap {source : Text} (spares : SparesLiterals source) {index : Nat}
    (member : index ∈ leadingGaps (completeTrailing source)) :
    (completeTrailing source).QuietGap index := by
  refine quietGap_of_mem_leadingGaps member ?_
  rw [completeTrailing_eq_padded] at member ⊢
  obtain ⟨dot, listed, -, rfl⟩ := exists_leadingGap_of_padded (fun _ => .inl)
    (fun _ => quietGap_of_mem_trailingGaps) member
  have starts := mem_leadingGaps_iff.mp listed
  rw [Text.endsLiteral_padded (fun _ => quietGap_of_mem_trailingGaps)
    (le_length_of_mem_leadingGaps listed)]
  exact spares dot starts.inCode starts

/-- Completing decimals is idempotent on a source without a decimal `.3` directly behind a quote
written as a character literal. -/
theorem complete_complete {source : Text} (spares : SparesLiterals source) :
    complete (complete source) = complete source := by
  have quiet (gap : Nat) : gap ∈ leadingGaps (completeTrailing source) →
      (completeTrailing source).QuietGap gap := spares.quietGap
  have noTrailing (gap : Nat) : gap ∉ trailingGaps (complete source) := by
    rw [complete, completeLeading_eq_padded]
    intro member
    obtain ⟨other, listed, -⟩ := exists_trailingGap_of_padded (fun _ => .inr) quiet member
    exact not_mem_trailingGaps_completeTrailing source other listed
  have noLeading (gap : Nat) : gap ∉ leadingGaps (complete source) := by
    rw [complete, completeLeading_eq_padded]
    intro member
    obtain ⟨other, listed, missing, -⟩ :=
      exists_leadingGap_of_padded (fun _ => .inr) quiet member
    exact missing listed
  calc
    complete (complete source)
        = completeLeading (completeTrailing (complete source)) := rfl
    _ = completeLeading (complete source) := by rw [completeTrailing_of_no_gap noTrailing]
    _ = complete source := completeLeading_of_no_gap noLeading

/-- Decimals behind a string, before a closing parenthesis, at the end of the text and in an
interpolation, with a character literal that none of them touches. -/
theorem complete_complete_spared :
    SparesLiterals "'a'.5 ?' (.25) \"#\x7b 2. \x7d .5 \" 7.".toList ∧
      complete "'a'.5 ?' (.25) \"#\x7b 2. \x7d .5 \" 7.".toList =
        "'a'0.5 ?' (0.25) \"#\x7b 2.0 \x7d .5 \" 7.0".toList ∧
      complete "'a'0.5 ?' (0.25) \"#\x7b 2.0 \x7d .5 \" 7.0".toList =
        "'a'0.5 ?' (0.25) \"#\x7b 2.0 \x7d .5 \" 7.0".toList := by
  have spares : SparesLiterals "'a'.5 ?' (.25) \"#\x7b 2. \x7d .5 \" 7.".toList := by
    decide +kernel
  have completed : complete "'a'.5 ?' (.25) \"#\x7b 2. \x7d .5 \" 7.".toList =
      "'a'0.5 ?' (0.25) \"#\x7b 2.0 \x7d .5 \" 7.0".toList := by
    decide +kernel
  have again := complete_complete spares
  rw [completed] at again
  exact ⟨spares, completed, again⟩

/-- A zero behind a character literal makes its quote open a string. The string ends where the
next one began, and a decimal in the text of that one is completed the second time. -/
theorem complete_not_idempotent :
    complete "?'.5 ' .5 '".toList = "?'0.5 ' .5 '".toList ∧
      complete (complete "?'.5 ' .5 '".toList) = "?'0.5 ' 0.5 '".toList ∧
      complete (complete "?'.5 ' .5 '".toList) ≠ complete "?'.5 ' .5 '".toList := by
  decide +kernel

end Decimal

end Desugar
