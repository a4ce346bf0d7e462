import Desugar.Proofs.Decimal.Padding
import Desugar.Proofs.Lexer.Lookahead

/-!
# Reading a padded text

A zero that completes a decimal is code and opens nothing, so the text around it should be
read as before. There is one exception: a zero directly behind a quote written as a
character literal, as in `?'.5`, makes the quote open a string. `Text.QuietGap` says what a
gap must be like, and `Text.readingAt_padded` that zeros in such gaps leave the reading at
every position of the text as it was. `Decimal.quietGap_of_mem_trailingGaps` and
`Decimal.quietGap_of_mem_leadingGaps` say that decimals have such gaps, that exception
apart.
-/

namespace Desugar

/-- Only a lone quote makes a `?` take the next character with it. -/
theorem Reading.loneQuoteNext_of_paired {reading : Reading} {rest : Text}
    (paired : (reading.step '?' rest).2.mode = .paired) : loneQuoteNext rest = true := by
  obtain ⟨mode, nesting, previous⟩ := reading
  cases mode with
  | fresh =>
      cases lone : loneQuoteNext rest with
      | true => rfl
      | false =>
          cases nesting with
          | nil => simp [step, look, Nesting.visit, lone] at paired
          | cons depth outer =>
              cases depth <;> simp [step, look, Nesting.visit, lone] at paired
  | paired => cases paired
  | comment => cases paired
  | quoted => cases paired
  | escaped => cases paired

theorem loneQuoteNext_of_no_quote {rest : Text} (noQuote : rest.head?.any isQuote = false) :
    loneQuoteNext rest = false := by
  cases rest with
  | nil => rfl
  | cons c rest =>
      rw [List.head?_cons, Option.any_some] at noQuote
      rw [loneQuoteNext, noQuote, Bool.false_and]

/-- A backslash at the end of a text leaves its string open. -/
theorem Reading.step_backslash_nil {reading : Reading}
    (inLiteral : reading.nesting.head? = some 0) :
    (reading.step '\\' []).2.nesting.head? = some 0 := by
  obtain ⟨mode, nesting, previous⟩ := reading
  cases nesting with
  | nil => cases inLiteral
  | cons depth outer =>
      cases inLiteral
      cases mode <;> rfl

namespace Text

/-- Whether a quote written as a character literal ends at a position in code. -/
def endsLiteral (text : Text) (position : Nat) : Bool :=
  (text.readingAt (position - 1)).mode == .paired && (text.before? position).any isQuote

/-- A gap where a zero makes no difference to the reading of the text around it: it lies
in code, behind no word and no character literal, and before a dot, a blank or nothing. -/
structure QuietGap (text : Text) (gap : Nat) : Prop where
  fresh : (text.readingAt gap).mode = .fresh
  inCode : Reading.InCode (text.readingAt gap).nesting
  noWord : (text.before? gap).any isWord = false
  next : (text.drop gap).head?.all (fun c => c == '.' || isBlank c) = true
  noLiteral : text.endsLiteral gap = false

/-- What comes behind a quiet gap means nothing to the reader. -/
theorem QuietGap.plainNext {text : Text} {gap : Nat} (quiet : QuietGap text gap) :
    (text.drop gap).head?.all isPlain = true := by
  have next := quiet.next
  cases here : text.drop gap with
  | nil => rfl
  | cons c rest =>
      rw [here, List.head?_cons, Option.all_some, Bool.or_eq_true, beq_iff_eq] at next
      rw [List.head?_cons, Option.all_some]
      rcases next with rfl | blank
      · rfl
      · exact isPlain_of_isBlank blank

/-- Place of a position in the padded text, where a zero comes first if it is a gap. -/
def place (gaps : List Nat) (text : Text) (position : Nat) : Nat :=
  (spaced gaps 0 (text.take position)).length

variable {gaps : List Nat} {text rest : Text} {position : Nat} {c : Char}

/-- A padded text starts as the text does, unless with a gap. -/
theorem head?_padded (noGap : position ∉ gaps) (text : Text) :
    (padded gaps position text).head? = text.head? := by
  cases text with
  | nil => rw [padded_nil, zeroAt_of_not_mem noGap]
  | cons c text =>
      rw [padded_cons, zeroAt_of_not_mem noGap]
      rfl

/-- A padded text starts with a zero in a gap, and then as the text does. -/
theorem padded_eq_cons (gap : position ∈ gaps) (text : Text) :
    ∃ rest, padded gaps position text = '0' :: rest ∧ rest.head? = text.head? := by
  cases text with
  | nil => exact ⟨[], by rw [padded_nil, zeroAt_of_mem gap], rfl⟩
  | cons c text =>
      refine ⟨c :: padded gaps (position + 1) text, ?_, rfl⟩
      rw [padded_cons, zeroAt_of_mem gap, List.singleton_append]

/-- A position divides the padded text at its place. -/
theorem padded_eq_append (inside : position ≤ text.length) :
    padded gaps 0 text =
      spaced gaps 0 (text.take position) ++ padded gaps position (text.drop position) := by
  have taken : 0 + (text.take position).length = position := by
    rw [List.length_take]
    omega
  have pieces := padded_append gaps 0 (text.take position) (text.drop position)
  rwa [List.take_append_drop, taken] at pieces

/-- From the place of a position on, a padded text is the rest of the text, padded. -/
theorem drop_place (inside : position ≤ text.length) :
    (padded gaps 0 text).drop (place gaps text position) =
      padded gaps position (text.drop position) := by
  rw [padded_eq_append inside, place, List.drop_left]

theorem place_le_length (inside : position ≤ text.length) :
    place gaps text position ≤ (padded gaps 0 text).length := by
  rw [padded_eq_append inside, List.length_append]
  exact Nat.le_add_right _ _

theorem length_padded (gaps : List Nat) (text : Text) :
    (padded gaps 0 text).length =
      place gaps text text.length + (zeroAt gaps text.length).length := by
  rw [padded, List.length_append, Nat.zero_add, place, List.take_length]

/-- The zero of a gap and the character at a position lie between its place and the
next. -/
theorem place_succ (here : text.drop position = c :: rest) :
    place gaps text (position + 1) =
      place gaps text position + (zeroAt gaps position).length + 1 := by
  have inside := lt_length_of_drop here
  have taken : 0 + (text.take position).length = position := by
    rw [List.length_take]
    omega
  rw [place, List.take_add_one, getElem?_of_drop here, Option.toList_some, spaced_append, taken,
    List.length_append, ← place, spaced, List.length_append, List.length_cons]
  rfl

/-- A character is read alike before the rest of its text and before the padded rest. -/
theorem step_padded (quiet : ∀ gap ∈ gaps, QuietGap text gap)
    (here : text.drop position = c :: rest) :
    (text.readingAt position).step c (padded gaps (position + 1) rest) =
      (text.readingAt position).step c rest := by
  have there := drop_succ_of_drop here
  by_cases gap : position + 1 ∈ gaps
  · -- A zero is read ahead in the place of a plain character or of nothing.
    have plainNext := (quiet _ gap).plainNext
    obtain ⟨behind, zero, _⟩ := padded_eq_cons gap rest
    rw [there] at plainNext
    rw [zero]
    refine Reading.step_congr (fun _ => ⟨nofun, fun brace => ?_⟩) ?_ fun _ _ => ?_
    · rw [brace] at plainNext
      cases plainNext
    · intro backslash inLiteral
      refine ⟨nofun, fun nothing => ?_⟩
      subst backslash nothing
      have stillOpen := Reading.step_backslash_nil inLiteral
      rw [← readingAt_succ here] at stillOpen
      exact absurd stillOpen (quiet _ gap).inCode
    · have noQuote : rest.head?.any isQuote = false := by
        cases rest with
        | nil => rfl
        | cons d rest => exact isQuote_of_isPlain plainNext
      rw [loneQuoteNext_of_no_quote noQuote]
      rfl
  · cases rest with
    | nil => rw [padded_nil, zeroAt_of_not_mem gap]
    | cons d rest =>
        rw [padded_cons, zeroAt_of_not_mem gap, List.nil_append]
        refine Reading.step_congr (fun _ => Iff.rfl) (fun _ _ => ⟨nofun, nofun⟩)
          fun question paired => ?_
        subst question
        by_cases gapBehind : position + 1 + 1 ∈ gaps
        · -- The zero would spoil a character literal, which a quiet gap rules out.
          obtain ⟨behind, zero, _⟩ := padded_eq_cons gapBehind rest
          have spoilt : loneQuoteNext (d :: padded gaps (position + 1 + 1) rest) = false := by
            rw [loneQuoteNext, zero]
            exact Bool.and_false _
          rcases paired with paired | paired
          · rw [Reading.loneQuoteNext_of_paired paired] at spoilt
            cases spoilt
          · have noLiteral := (quiet _ gapBehind).noLiteral
            rw [endsLiteral, Nat.add_sub_cancel, readingAt_succ here, paired, before?_succ,
              getElem?_of_drop there] at noLiteral
            have noQuote : isQuote d = false := noLiteral
            rw [spoilt, loneQuoteNext, noQuote, Bool.false_and]
        · rw [loneQuoteNext, loneQuoteNext, head?_padded gapBehind]

/-- Zeros in quiet gaps leave the reading at every position as it was. -/
theorem readingAt_padded (quiet : ∀ gap ∈ gaps, QuietGap text gap)
    (inside : position ≤ text.length) :
    (padded gaps 0 text).readingAt (place gaps text position) = text.readingAt position := by
  induction position with
  | zero => rfl
  | succ position inductionHypothesis =>
      have same := inductionHypothesis (Nat.le_of_succ_le inside)
      have here : text.drop position = text[position] :: text.drop (position + 1) :=
        List.drop_eq_getElem_cons inside
      have padding : (padded gaps 0 text).drop (place gaps text position) =
          zeroAt gaps position ++
            text[position] :: padded gaps (position + 1) (text.drop (position + 1)) := by
        rw [drop_place (Nat.le_of_succ_le inside), here, padded_cons]
      rw [place_succ here, readingAt_succ here]
      by_cases gap : position ∈ gaps
      · have fresh := (quiet _ gap).fresh
        have inCode := (quiet _ gap).inCode
        have plainNext := (quiet _ gap).plainNext
        rw [here, List.head?_cons, Option.all_some] at plainNext
        rw [zeroAt_of_mem gap, List.singleton_append] at padding
        have behindZero := drop_succ_of_drop padding
        rw [zeroAt_of_mem gap, List.length_singleton, readingAt_succ behindZero,
          readingAt_succ padding, same, Reading.step_of_plain rfl fresh inCode,
          Reading.step_of_plain plainNext fresh inCode, Reading.step_plain plainNext inCode]
      · rw [zeroAt_of_not_mem gap, List.nil_append] at padding
        rw [zeroAt_of_not_mem gap, List.length_nil, Nat.add_zero, readingAt_succ padding, same,
          step_padded quiet here]

/-- Zeros in quiet gaps leave the character before every position as it was. -/
theorem before?_padded (quiet : ∀ gap ∈ gaps, QuietGap text gap)
    (inside : position ≤ text.length) :
    (padded gaps 0 text).before? (place gaps text position) = text.before? position := by
  rw [← readingAt_previous (place_le_length inside), readingAt_padded quiet inside,
    readingAt_previous inside]

/-- A character that stands at no gap is code in the padded text if it was before. -/
theorem isCodeAt_padded (quiet : ∀ gap ∈ gaps, QuietGap text gap)
    (inside : position < text.length) (noGap : position ∉ gaps) :
    (padded gaps 0 text).isCodeAt (place gaps text position) = text.isCodeAt position := by
  have here : text.drop position = text[position] :: text.drop (position + 1) :=
    List.drop_eq_getElem_cons inside
  have padding : (padded gaps 0 text).drop (place gaps text position) =
      text[position] :: padded gaps (position + 1) (text.drop (position + 1)) := by
    rw [drop_place (Nat.le_of_lt inside), here, padded_cons, zeroAt_of_not_mem noGap,
      List.nil_append]
  rw [isCodeAt_eq padding, isCodeAt_eq here, readingAt_padded quiet (Nat.le_of_lt inside),
    step_padded quiet here]

/-- Every position of a padded text lies between the places of two positions that follow
each other in the text. -/
theorem exists_place_le {index : Nat} (inside : index < (padded gaps 0 text).length) :
    ∃ position ≤ text.length, place gaps text position ≤ index ∧
      index ≤ place gaps text position + (zeroAt gaps position).length := by
  induction index with
  | zero => exact ⟨0, Nat.zero_le _, Nat.le_refl _, Nat.zero_le _⟩
  | succ index inductionHypothesis =>
      obtain ⟨position, bounded, behind, before⟩ :=
        inductionHypothesis (Nat.lt_of_succ_lt inside)
      rcases Nat.lt_or_ge index (place gaps text position + (zeroAt gaps position).length) with
        below | reached
      · exact ⟨position, bounded, Nat.le_succ_of_le behind, below⟩
      · have notLast : position < text.length := by
          refine Nat.lt_of_le_of_ne bounded fun last => ?_
          rw [length_padded, ← last] at inside
          omega
        have next : place gaps text (position + 1) = _ :=
          place_succ (List.drop_eq_getElem_cons notLast)
        refine ⟨position + 1, notLast, ?_, ?_⟩ <;> omega

/-- Every position of a padded text is the place of a position of the text, or directly
behind the zero there. -/
theorem exists_place {index : Nat} (inside : index < (padded gaps 0 text).length) :
    ∃ position ≤ text.length, index = place gaps text position ∨
      position ∈ gaps ∧ index = place gaps text position + 1 := by
  obtain ⟨position, bounded, behind, before⟩ := exists_place_le inside
  refine ⟨position, bounded, ?_⟩
  by_cases gap : position ∈ gaps
  · rw [zeroAt_of_mem gap, List.length_singleton] at before
    rcases Nat.eq_or_lt_of_le behind with same | later
    · exact .inl same.symm
    · exact .inr ⟨gap, Nat.le_antisymm before later⟩
  · rw [zeroAt_of_not_mem gap, List.length_nil] at before
    exact .inl (Nat.le_antisymm before behind)

end Text

namespace Decimal

theorem isPlain_of_isDigit {c : Char} (digit : c.isDigit = true) : isPlain c = true := by
  refine isPlain_iff.mpr ⟨?_, ?_, ?_, ?_, ?_, ?_⟩ <;>
    · rintro rfl
      exact absurd digit (by decide)

/-- The zero of a decimal `2.0` makes no difference to the reading around it. -/
theorem quietGap_of_mem_trailingGaps {text : Text} {gap : Nat}
    (member : gap ∈ trailingGaps text) : text.QuietGap gap := by
  have before := before?_of_mem_trailingGaps member
  obtain ⟨start, digits, tail, isCode, written, nonempty, allDigits, _, blankBehind, rfl⟩ :=
    mem_trailingGaps.mp member
  have divided : text.drop start = (digits ++ ['.']) ++ tail := by
    rw [written, List.append_assoc]
    rfl
  have plainPiece : ∀ c ∈ digits ++ ['.'], isPlain c = true := by
    intro c inPiece
    rcases List.mem_append.mp inPiece with digit | dot
    · exact isPlain_of_isDigit (allDigits c digit)
    · rw [List.mem_singleton.mp dot]
      rfl
  have atStart : (text.readingAt start).mode = .fresh ∧
      Reading.InCode (text.readingAt start).nesting := by
    obtain ⟨first, others, rfl⟩ := List.exists_cons_of_ne_nil nonempty
    rw [Text.isCodeAt_eq written] at isCode
    refine Reading.of_step_code isCode ?_
    rintro rfl
    exact absurd (allDigits _ (List.mem_cons_self ..)) (by decide)
  have length : (digits ++ ['.']).length = digits.length + 1 := by
    rw [List.length_append, List.length_singleton]
  have read : (text.readingAt (start + (digits.length + 1))).mode = .fresh ∧
      (text.readingAt (start + (digits.length + 1))).nesting =
        (text.readingAt start).nesting := by
    rw [← length]
    exact Text.readingAt_plain divided plainPiece atStart.1 atStart.2
  have dropped : text.drop (start + (digits.length + 1)) = tail := by
    rw [← List.drop_drop, divided, ← length, List.drop_left]
  refine ⟨read.1, read.2 ▸ atStart.2, by rw [before]; rfl, ?_, ?_⟩
  · rw [dropped]
    cases tail with
    | nil => rfl
    | cons c tail =>
        have blank : isBlank c = true := blankBehind
        simp [blank]
  · rw [Text.endsLiteral, before]
    exact Bool.and_false _

/-- The zero of a decimal `0.3` makes no difference to the reading around it, unless it
spoils a character literal. -/
theorem quietGap_of_mem_leadingGaps {text : Text} {gap : Nat}
    (member : gap ∈ leadingGaps text) (noLiteral : text.endsLiteral gap = false) :
    text.QuietGap gap := by
  obtain ⟨isCode, leads⟩ := mem_leadingGaps.mp member
  obtain ⟨noWord, tail, written⟩ := leadsWithDot_cases leads
  rw [Text.isCodeAt_eq written] at isCode
  obtain ⟨fresh, inCode⟩ := Reading.of_step_code isCode (by decide)
  refine ⟨fresh, inCode, noWord, ?_, noLiteral⟩
  rw [written]
  rfl

end Decimal

end Desugar
