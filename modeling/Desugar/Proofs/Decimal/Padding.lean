import Desugar.Sugar.Decimal
import Desugar.Proofs.Lexer.Reading

/-!
# Zeros written into a text

Completing decimals writes zeros into a text and changes nothing else. The places where
they are written are its gaps: `Text.padded` is the text with a zero in each of them, and
`Decimal.completeTrailing_eq_padded` and `Decimal.completeLeading_eq_padded` say that the
two ways to complete decimals write zeros into the gaps that `Decimal.mem_trailingGaps`
and `Decimal.mem_leadingGaps` describe.
-/

namespace Desugar

theorem isPlain_of_isBlank {c : Char} (blank : isBlank c = true) : isPlain c = true := by
  refine isPlain_iff.mpr ⟨?_, ?_, ?_, ?_, ?_, ?_⟩ <;>
    · rintro rfl
      exact absurd blank (by decide)

theorem isDigit_eq_false_of_isBlank {c : Char} (blank : isBlank c = true) :
    c.isDigit = false := by
  rw [isBlank, CodeRange.anyContains_iff] at blank
  obtain ⟨range, member, first, last⟩ := blank
  have code : c.val.toNat = c.toNat := rfl
  simp only [CodeRange.whiteSpace, List.mem_cons, List.not_mem_nil, or_false] at member
  rw [← Bool.not_eq_true, Char.isDigit, Bool.and_eq_true, decide_eq_true_iff,
    decide_eq_true_iff, ge_iff_le, UInt32.le_iff_toNat_le, UInt32.le_iff_toNat_le, code]
  rcases member with rfl | rfl | rfl | rfl | rfl | rfl | rfl | rfl | rfl | rfl <;>
    simp at first last ⊢ <;> omega

namespace Text

/-- The zero that is written at a position, if it is a gap. -/
def zeroAt (gaps : List Nat) (position : Nat) : Text :=
  if position ∈ gaps then ['0'] else []

/-- A text whose first character stands at `position`, with a zero before each character
that stands at a gap. -/
def spaced (gaps : List Nat) : (position : Nat) → Text → Text
  | _, [] => []
  | position, c :: text => zeroAt gaps position ++ c :: spaced gaps (position + 1) text

/-- A text whose first character stands at `position`, with a zero in each of its gaps,
the one at its end included. -/
def padded (gaps : List Nat) (position : Nat) (text : Text) : Text :=
  spaced gaps position text ++ zeroAt gaps (position + text.length)

variable {gaps : List Nat} {position : Nat}

theorem zeroAt_of_mem (gap : position ∈ gaps) : zeroAt gaps position = ['0'] :=
  if_pos gap

theorem zeroAt_of_not_mem (noGap : position ∉ gaps) : zeroAt gaps position = [] :=
  if_neg noGap

@[simp]
theorem padded_nil (gaps : List Nat) (position : Nat) :
    padded gaps position [] = zeroAt gaps position := rfl

@[simp]
theorem padded_cons (gaps : List Nat) (position : Nat) (c : Char) (text : Text) :
    padded gaps position (c :: text) =
      zeroAt gaps position ++ c :: padded gaps (position + 1) text := by
  have behind : position + (c :: text).length = position + 1 + text.length := by
    rw [List.length_cons]
    omega
  rw [padded, spaced, behind, List.append_assoc, List.cons_append, padded]

theorem spaced_append (gaps : List Nat) (position : Nat) (left right : Text) :
    spaced gaps position (left ++ right) =
      spaced gaps position left ++ spaced gaps (position + left.length) right := by
  induction left generalizing position with
  | nil => rfl
  | cons c left inductionHypothesis =>
      have behind : position + (c :: left).length = position + 1 + left.length := by
        rw [List.length_cons]
        omega
      rw [List.cons_append, spaced, spaced, inductionHypothesis, behind, List.append_assoc,
        List.cons_append]

/-- A padded text is padded piece by piece, and a gap between the pieces belongs to the
second. -/
theorem padded_append (gaps : List Nat) (position : Nat) (left right : Text) :
    padded gaps position (left ++ right) =
      spaced gaps position left ++ padded gaps (position + left.length) right := by
  rw [padded, spaced_append, List.length_append, ← Nat.add_assoc, List.append_assoc, padded]

/-- Characters before the first gap stay as they are. -/
theorem padded_append_of_lt {text rest : Text}
    (later : ∀ gap ∈ gaps, position + text.length ≤ gap) :
    padded gaps position (text ++ rest) = text ++ padded gaps (position + text.length) rest := by
  induction text generalizing position with
  | nil => rfl
  | cons c text inductionHypothesis =>
      have behind : position + (c :: text).length = position + 1 + text.length := by
        rw [List.length_cons]
        omega
      have noGap : position ∉ gaps := by
        intro gap
        have reached := later position gap
        omega
      rw [behind] at later
      rw [List.cons_append, padded_cons, zeroAt_of_not_mem noGap, inductionHypothesis later,
        behind]
      rfl

/-- A gap before a text does not matter to it. -/
theorem padded_cons_of_lt {gap : Nat} {text : Text} (earlier : gap < position) :
    padded (gap :: gaps) position text = padded gaps position text := by
  have same (other : Nat) (later : gap < other) :
      zeroAt (gap :: gaps) other = zeroAt gaps other := by
    have different : other ≠ gap := by omega
    simp only [zeroAt, List.mem_cons, different, false_or]
  induction text generalizing position with
  | nil => exact same position earlier
  | cons c text inductionHypothesis =>
      rw [padded_cons, padded_cons, same position earlier,
        inductionHypothesis (Nat.lt_succ_of_lt earlier)]

/-- A gap at the start of a text gets its zero before the others. -/
theorem padded_cons_self {text : Text} (noGap : position ∉ gaps) :
    padded (position :: gaps) position text = '0' :: padded gaps position text := by
  have written : zeroAt (position :: gaps) position = ['0'] :=
    zeroAt_of_mem (List.mem_cons_self ..)
  cases text with
  | nil => rw [padded_nil, padded_nil, written, zeroAt_of_not_mem noGap]
  | cons c text =>
      rw [padded_cons, padded_cons, written, zeroAt_of_not_mem noGap,
        padded_cons_of_lt (Nat.lt_succ_self position)]
      rfl

end Text

namespace Edit

/-- Insertions of a zero, given from left to right, pad the text. -/
theorem applyFrom_insertions {gaps : List Nat} {position : Nat} {rest : Text}
    (ascending : gaps.Pairwise (· < ·))
    (inside : ∀ gap ∈ gaps, position ≤ gap ∧ gap ≤ position + rest.length) :
    applyFrom position (gaps.map (insertion · ['0'])) rest = Text.padded gaps position rest := by
  induction gaps generalizing position rest with
  | nil =>
      have same : Text.padded [] position (rest ++ []) = rest ++ Text.padded [] _ [] :=
        Text.padded_append_of_lt nofun
      simpa [Text.zeroAt] using same.symm
  | cons gap gaps inductionHypothesis =>
      obtain ⟨later, ascending⟩ := List.pairwise_cons.mp ascending
      obtain ⟨starts, stops⟩ := inside gap (List.mem_cons_self ..)
      have noGap : gap ∉ gaps := fun member => Nat.lt_irrefl gap (later gap member)
      have here : position + (rest.take (gap - position)).length = gap := by
        rw [List.length_take]
        omega
      have notBefore : ∀ other ∈ gap :: gaps,
          position + (rest.take (gap - position)).length ≤ other := by
        intro other member
        rw [here]
        rcases List.mem_cons.mp member with rfl | member
        · exact Nat.le_refl _
        · exact Nat.le_of_lt (later other member)
      have behind : ∀ other ∈ gaps,
          gap ≤ other ∧ other ≤ gap + (rest.drop (gap - position)).length := by
        intro other member
        have bounds := inside other (List.mem_cons_of_mem _ member)
        have ordered := later other member
        rw [List.length_drop]
        omega
      calc
        applyFrom position ((gap :: gaps).map (insertion · ['0'])) rest
            = rest.take (gap - position) ++ ['0'] ++
                applyFrom gap (gaps.map (insertion · ['0'])) (rest.drop (gap - position)) := rfl
        _ = rest.take (gap - position) ++
              Text.padded (gap :: gaps) gap (rest.drop (gap - position)) := by
            rw [inductionHypothesis ascending behind, Text.padded_cons_self noGap,
              List.append_assoc]
            rfl
        _ = Text.padded (gap :: gaps) position
              (rest.take (gap - position) ++ rest.drop (gap - position)) := by
            rw [Text.padded_append_of_lt notBefore, here]
        _ = Text.padded (gap :: gaps) position rest := by rw [List.take_append_drop]

end Edit

namespace Decimal

/-- What a decimal `2.` at the head of a text looks like. -/
theorem trailingDot?_eq_some_iff {previous : Option Char} {rest : Text} {width : Nat} :
    trailingDot? previous rest = some width ↔
      ∃ digits tail, rest = digits ++ '.' :: tail ∧ digits ≠ [] ∧
        (∀ c ∈ digits, c.isDigit = true) ∧ previous.all isBlank = true ∧
        tail.head?.all isBlank = true ∧ width = digits.length + 1 := by
  constructor
  · intro found
    unfold trailingDot? at found
    dsimp only at found
    split at found
    · next tail behind =>
      split at found
      · next shape =>
        cases found
        simp only [Bool.and_eq_true, Bool.not_eq_true', List.isEmpty_eq_false_iff] at shape
        refine ⟨rest.takeWhile Char.isDigit, tail, ?_, shape.1.1, ?_, shape.1.2, shape.2, rfl⟩
        · rw [← behind, List.takeWhile_append_dropWhile]
        · exact List.all_eq_true.mp List.all_takeWhile
      · cases found
    · cases found
  · rintro ⟨digits, tail, rfl, nonempty, allDigits, blankBefore, blankBehind, rfl⟩
    have taken : (digits ++ '.' :: tail).takeWhile Char.isDigit = digits := by
      rw [List.takeWhile_append_of_pos allDigits]
      simp
    have dropped : (digits ++ '.' :: tail).dropWhile Char.isDigit = '.' :: tail := by
      rw [List.dropWhile_append_of_pos allDigits]
      rfl
    simp [trailingDot?, taken, dropped, nonempty, blankBefore, blankBehind]

/-- A decimal `.3` begins with its dot and stands behind no word. -/
theorem leadsWithDot_cases {previous : Option Char} {rest : Text}
    (leads : leadsWithDot previous rest = true) :
    previous.any isWord = false ∧ ∃ tail, rest = '.' :: tail := by
  unfold leadsWithDot at leads
  split at leads
  · next tail =>
    refine ⟨?_, tail, rfl⟩
    cases previous with
    | none => rfl
    | some c => simp_all
  · cases leads

theorem single_trailingRule : trailingRule.Single := by
  intro previous rest item width claimed
  obtain ⟨_, _, found⟩ := Option.map_eq_some_iff.mp claimed
  cases found
  rfl

theorem single_leadingRule : leadingRule.Single := by
  intro previous rest item width claimed
  unfold leadingRule at claimed
  split at claimed
  · cases claimed
    rfl
  · cases claimed

/-- The gaps behind the dots of decimals `2.` in the code of a text. -/
def trailingGaps (text : Text) : List Nat :=
  (text.scan trailingRule).map fun (position, width) => position + width

/-- The gaps before the dots of decimals `.3` in the code of a text. -/
def leadingGaps (text : Text) : List Nat :=
  (text.scan leadingRule).map Prod.fst

theorem mem_trailingGaps {text : Text} {gap : Nat} :
    gap ∈ trailingGaps text ↔
      ∃ start digits tail, text.isCodeAt start = true ∧ text.drop start = digits ++ '.' :: tail ∧
        digits ≠ [] ∧ (∀ c ∈ digits, c.isDigit = true) ∧
        (text.before? start).all isBlank = true ∧ tail.head?.all isBlank = true ∧
        gap = start + (digits.length + 1) := by
  rw [trailingGaps, List.mem_map]
  constructor
  · rintro ⟨⟨start, width⟩, member, rfl⟩
    obtain ⟨isCode, claimed⟩ := (Text.mem_scan single_trailingRule).mp member
    obtain ⟨_, found, same⟩ := Option.map_eq_some_iff.mp claimed
    cases same
    obtain ⟨digits, tail, written, nonempty, allDigits, blankBefore, blankBehind, rfl⟩ :=
      trailingDot?_eq_some_iff.mp found
    exact ⟨start, digits, tail, isCode, written, nonempty, allDigits, blankBefore, blankBehind,
      rfl⟩
  · rintro ⟨start, digits, tail, isCode, written, nonempty, allDigits, blankBefore, blankBehind,
      rfl⟩
    refine ⟨(start, digits.length + 1), ?_, rfl⟩
    refine (Text.mem_scan single_trailingRule).mpr ⟨isCode, ?_⟩
    refine Option.map_eq_some_iff.mpr ⟨digits.length + 1, ?_, rfl⟩
    exact trailingDot?_eq_some_iff.mpr
      ⟨digits, tail, written, nonempty, allDigits, blankBefore, blankBehind, rfl⟩

/-- The gap of a decimal `2.` lies directly behind its dot. -/
theorem before?_of_mem_trailingGaps {text : Text} {gap : Nat} (member : gap ∈ trailingGaps text) :
    text.before? gap = some '.' := by
  obtain ⟨start, digits, tail, _, written, _, _, _, _, rfl⟩ := mem_trailingGaps.mp member
  rw [← Nat.add_assoc, Text.before?_succ, ← List.getElem?_drop, written,
    List.getElem?_append_right (Nat.le_refl _), Nat.sub_self]
  rfl

theorem mem_leadingGaps {text : Text} {gap : Nat} :
    gap ∈ leadingGaps text ↔
      text.isCodeAt gap = true ∧ leadsWithDot (text.before? gap) (text.drop gap) = true := by
  rw [leadingGaps, List.mem_map]
  constructor
  · rintro ⟨⟨position, item⟩, member, rfl⟩
    obtain ⟨isCode, claimed⟩ := (Text.mem_scan single_leadingRule).mp member
    unfold leadingRule at claimed
    split at claimed
    · next leads => exact ⟨isCode, leads⟩
    · cases claimed
  · rintro ⟨isCode, leads⟩
    refine ⟨(gap, ()), (Text.mem_scan single_leadingRule).mpr ⟨isCode, ?_⟩, rfl⟩
    rw [leadingRule, if_pos leads]

/-- No decimal `2.` starts in the digits or directly behind the dot of another, since a
blank or nothing stands before it. -/
theorem lt_of_trailingDot? {text : Text} {start next width : Nat}
    (found : trailingDot? (text.before? start) (text.drop start) = some width)
    (blankBefore : (text.before? next).all isBlank = true) (later : start < next) :
    start + width < next := by
  obtain ⟨digits, tail, written, _, allDigits, _, _, rfl⟩ := trailingDot?_eq_some_iff.mp found
  refine Nat.lt_of_not_le fun reached => ?_
  obtain ⟨distance, rfl⟩ := Nat.exists_eq_add_of_lt later
  have before : text.before? (start + distance + 1) = (digits ++ '.' :: tail)[distance]? := by
    rw [Text.before?_succ, ← written, List.getElem?_drop]
  rw [before] at blankBefore
  rcases Nat.lt_or_ge distance digits.length with inDigits | atDot
  · rw [List.getElem?_append_left inDigits, List.getElem?_eq_getElem inDigits] at blankBefore
    have digit := allDigits _ (List.getElem_mem inDigits)
    rw [isDigit_eq_false_of_isBlank blankBefore] at digit
    cases digit
  · have dot : distance = digits.length := by omega
    subst dot
    rw [List.getElem?_append_right (Nat.le_refl _), Nat.sub_self, List.getElem?_cons_zero]
      at blankBefore
    exact absurd blankBefore (by decide)

theorem pairwise_trailingGaps (text : Text) : (trailingGaps text).Pairwise (· < ·) := by
  rw [trailingGaps, List.pairwise_map]
  refine (Text.pairwise_scan single_trailingRule text).imp_of_mem ?_
  rintro ⟨start, width⟩ ⟨next, nextWidth⟩ member nextMember later
  obtain ⟨_, claimed⟩ := (Text.mem_scan single_trailingRule).mp member
  obtain ⟨_, found, same⟩ := Option.map_eq_some_iff.mp claimed
  cases same
  obtain ⟨_, nextClaimed⟩ := (Text.mem_scan single_trailingRule).mp nextMember
  obtain ⟨_, nextFound, same⟩ := Option.map_eq_some_iff.mp nextClaimed
  cases same
  obtain ⟨_, _, _, _, _, blankBefore, _⟩ := trailingDot?_eq_some_iff.mp nextFound
  have apart := lt_of_trailingDot? found blankBefore later
  exact Nat.lt_of_lt_of_le apart (Nat.le_add_right _ _)

theorem pairwise_leadingGaps (text : Text) : (leadingGaps text).Pairwise (· < ·) := by
  rw [leadingGaps, List.pairwise_map]
  exact Text.pairwise_scan single_leadingRule text

theorem le_length_of_mem_trailingGaps {text : Text} {gap : Nat}
    (member : gap ∈ trailingGaps text) : gap ≤ text.length := by
  obtain ⟨start, digits, tail, _, written, _, _, _, _, rfl⟩ := mem_trailingGaps.mp member
  have lengths := congrArg List.length written
  rw [List.length_drop, List.length_append, List.length_cons] at lengths
  omega

theorem le_length_of_mem_leadingGaps {text : Text} {gap : Nat}
    (member : gap ∈ leadingGaps text) : gap ≤ text.length :=
  Nat.le_of_lt (Text.lt_length_of_isCodeAt (mem_leadingGaps.mp member).1)

theorem trailingEdits_eq_map (text : Text) :
    trailingEdits text = (trailingGaps text).map (Edit.insertion · ['0']) := by
  rw [trailingEdits, trailingGaps, List.map_map]
  rfl

theorem leadingEdits_eq_map (text : Text) :
    leadingEdits text = (leadingGaps text).map (Edit.insertion · ['0']) := by
  rw [leadingEdits, leadingGaps, List.map_map]
  rfl

/-- Completing decimals `2.` writes a zero into each of their gaps. -/
theorem completeTrailing_eq_padded (text : Text) :
    completeTrailing text = text.padded (trailingGaps text) 0 := by
  rw [completeTrailing, trailingEdits_eq_map]
  refine Edit.applyFrom_insertions (pairwise_trailingGaps text) fun gap member => ?_
  have bounded := le_length_of_mem_trailingGaps member
  omega

/-- Completing decimals `.3` writes a zero into each of their gaps. -/
theorem completeLeading_eq_padded (text : Text) :
    completeLeading text = text.padded (leadingGaps text) 0 := by
  rw [completeLeading, leadingEdits_eq_map]
  refine Edit.applyFrom_insertions (pairwise_leadingGaps text) fun gap member => ?_
  have bounded := le_length_of_mem_leadingGaps member
  omega

end Decimal

end Desugar
