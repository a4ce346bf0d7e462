import Desugar.Proofs.Decimal.Alignment
import Desugar.Proofs.Guard.Report

/-!
# Assignments in the desugared text

The guard reads a text whose decimals are still to be completed. A zero that completes one
can make an assignment where there was none: `ring =.5` assigns to nothing by the guard's
rule, and `ring =0.5` does. `Assignment.DecimalsApart` excludes this, and
`collision?_eq_none_of_desugar` says that otherwise the guard would find nothing in the
desugared text either.
-/

namespace Desugar

namespace Assignment

/-- Whether no zero of a name can be one that completes a decimal: each continues a word,
or is followed in the name by something else than a dot or a blank. -/
def ownZeros : (previous : Option Char) → (name : Text) → Bool
  | _, [] => true
  | previous, c :: rest =>
      (c != '0' || previous.any isWord || rest.head?.any fun d => d != '.' && !isBlank d) &&
        ownZeros (some c) rest

/-- A name stands at a position of a text as if it were assigned to, but with a decimal
`.3` directly behind the equals sign. -/
structure TakesDecimal (text name : Text) (position : Nat) : Prop where
  code : position ∈ text.codePositions
  ownWord : ∀ c, text.before? position = some c → isWord c = false
  written : ∃ blanks rest, text.drop position = name ++ blanks ++ '=' :: rest ∧
    (∀ blank ∈ blanks, isBlank blank = true) ∧
    position + (name ++ blanks).length + 1 ∈ Decimal.leadingGaps text

/-- The zeros that are written before the dots of decimals `.3` have nothing to do with
assignments to a name: none can be in the name, none stands behind its equals sign, and
none spoils a character literal. -/
structure DecimalsApart (text name : Text) : Prop where
  ownZeros : ownZeros none name = true
  noValue : ∀ position, ¬ TakesDecimal text name position
  noLiteral : ∀ gap ∈ Decimal.leadingGaps text, text.endsLiteral gap = false

/-- The character directly behind the equals sign has it before itself. -/
theorem before?_of_drop_eq {text written rest : Text} {position : Nat}
    (here : text.drop position = written ++ '=' :: rest) :
    text.before? (position + written.length + 1) = some '=' := by
  rw [Text.before?_succ, ← List.getElem?_drop, here, List.getElem?_append_right (Nat.le_refl _),
    Nat.sub_self]
  rfl

theorem ownZeros_of_no_zero {previous : Option Char} {text : Text}
    (noZero : ∀ c ∈ text, c ≠ '0') : ownZeros previous text = true := by
  induction text generalizing previous with
  | nil => rfl
  | cons c text inductionHypothesis =>
      have different := noZero c (List.mem_cons_self ..)
      have others : ownZeros (some c) text = true :=
        inductionHypothesis fun d member => noZero d (List.mem_cons_of_mem _ member)
      simp [ownZeros, different, others]

/-- A name keeps its zeros for its own when text without zeros follows it. -/
theorem ownZeros_append {previous : Option Char} {name more : Text}
    (own : ownZeros previous name = true) (noZero : ∀ c ∈ more, c ≠ '0') :
    ownZeros previous (name ++ more) = true := by
  induction name generalizing previous with
  | nil => exact ownZeros_of_no_zero noZero
  | cons c name inductionHypothesis =>
      rw [ownZeros, Bool.and_eq_true] at own
      rw [List.cons_append, ownZeros, Bool.and_eq_true]
      refine ⟨?_, inductionHypothesis own.2⟩
      cases name with
      | nil =>
          have first : (c != '0' || previous.any isWord) = true := by simpa using own.1
          rw [first, Bool.true_or]
      | cons d name => exact own.1

end Assignment

namespace Text

open Assignment

variable {gaps : List Nat} {text : Text}

/-- The zero of a quiet gap is no zero that a word has for its own. -/
theorem QuietGap.not_ownZeros {gap : Nat} (quiet : QuietGap text gap) {previous : Option Char}
    {word tail rest : Text}
    (context : previous.any isWord = true → (text.before? gap).any isWord = true)
    (written : word ++ tail = rest) (next : rest.head? = (text.drop gap).head?) :
    ownZeros previous ('0' :: word) = false := by
  have noWord : previous.any isWord = false := by
    cases wordBefore : previous.any isWord with
    | false => rfl
    | true =>
        have contradiction := context wordBefore
        rw [quiet.noWord] at contradiction
        cases contradiction
  have dotOrBlank := quiet.next
  rw [← next, ← written] at dotOrBlank
  cases word with
  | nil => simp [ownZeros, noWord]
  | cons d word =>
      rw [List.cons_append, List.head?_cons, Option.all_some, Bool.or_eq_true, beq_iff_eq]
        at dotOrBlank
      rcases dotOrBlank with rfl | blank
      · simp [ownZeros, noWord]
      · simp [ownZeros, noWord, blank]

/-- A word whose zeros are its own stands in a padded text only where it stands in the
text, with no gap in it. -/
theorem drop_eq_append_of_padded (quiet : ∀ gap ∈ gaps, QuietGap text gap) {position : Nat}
    {word tail : Text} {previous : Option Char}
    (context : previous.any isWord = true → (text.before? position).any isWord = true)
    (own : ownZeros previous word = true)
    (written : padded gaps position (text.drop position) = word ++ tail) :
    text.drop position = word ++ text.drop (position + word.length) ∧
      tail = padded gaps (position + word.length) (text.drop (position + word.length)) ∧
      ∀ gap ∈ gaps, gap < position ∨ position + word.length ≤ gap := by
  induction word generalizing position previous with
  | nil => exact ⟨rfl, written.symm, fun gap _ => Nat.lt_or_ge gap position⟩
  | cons c word inductionHypothesis =>
      by_cases gap : position ∈ gaps
      · exfalso
        obtain ⟨rest, zero, next⟩ := padded_eq_cons gap (text.drop position)
        rw [zero] at written
        obtain ⟨rfl, rest⟩ := List.cons.inj written
        rw [(quiet _ gap).not_ownZeros context rest.symm next] at own
        cases own
      · cases here : text.drop position with
        | nil =>
            rw [here, padded_nil, zeroAt_of_not_mem gap] at written
            cases written
        | cons d behind =>
            rw [here, padded_cons, zeroAt_of_not_mem gap] at written
            obtain ⟨rfl, others⟩ := List.cons.inj written
            have there := drop_succ_of_drop here
            have length : position + (d :: word).length = position + 1 + word.length := by
              rw [List.length_cons]
              omega
            rw [ownZeros, Bool.and_eq_true] at own
            have wordBefore : (some d).any isWord = true →
                (text.before? (position + 1)).any isWord = true := by
              rw [before?_succ, getElem?_of_drop here]
              exact id
            obtain ⟨rest, padding, apart⟩ :=
              inductionHypothesis wordBefore own.2 (there ▸ others)
            rw [length]
            refine ⟨by rw [← there, rest, List.cons_append], padding, fun other member => ?_⟩
            have different : other ≠ position := fun same => gap (same ▸ member)
            have bounds := apart other member
            omega

end Text

namespace Assignment

variable {gaps : List Nat} {text name : Text}

/-- An assignment in a padded text was there before, or its equals sign had a gap directly
behind it. -/
theorem Occurs.of_padded (quiet : ∀ gap ∈ gaps, text.QuietGap gap)
    (own : Assignment.ownZeros none name = true) {index : Nat}
    (occurs : Occurs (text.padded gaps 0) name index) :
    ∃ position ∈ text.codePositions, (∀ c, text.before? position = some c → isWord c = false) ∧
      ∃ blanks rest, text.drop position = name ++ blanks ++ '=' :: rest ∧
        (∀ blank ∈ blanks, isBlank blank = true) ∧
        (position + (name ++ blanks).length + 1 ∈ gaps ∨
          ∃ c behind, rest = c :: behind ∧ (isBlank c = true ∨ isWord c = true)) := by
  obtain ⟨position, inside, rfl | ⟨gap, rfl⟩⟩ := Text.exists_place occurs.lt_length
  · obtain ⟨code, ownWord, blanks, c, rest, written, allBlank, follows⟩ := occurs
    have noZero : ∀ d ∈ blanks ++ ['='], d ≠ '0' := by
      intro d member
      rcases List.mem_append.mp member with blank | equals
      · rintro rfl
        exact absurd (allBlank _ blank) (by decide)
      · rw [List.mem_singleton.mp equals]
        decide
    have length : (name ++ (blanks ++ ['='])).length = (name ++ blanks).length + 1 := by
      rw [← List.append_assoc, List.length_append, List.length_singleton]
    rw [Text.drop_place inside] at written
    have divided : Text.padded gaps position (text.drop position) =
        name ++ (blanks ++ ['=']) ++ c :: rest := by
      rw [written]
      simp
    have context : (none : Option Char).any isWord = true →
        (text.before? position).any isWord = true := by
      intro wordBefore
      cases wordBefore
    obtain ⟨here, behind, apart⟩ :=
      Text.drop_eq_append_of_padded quiet context (ownZeros_append own noZero) divided
    rw [length, ← Nat.add_assoc] at here behind apart
    have noGap : position ∉ gaps := by
      intro gap
      have bounds := apart position gap
      omega
    have notEnd : position < text.length := by
      refine Nat.lt_of_not_le fun beyond => ?_
      rw [List.drop_eq_nil_of_le beyond] at here
      simp at here
    refine ⟨position, ?_, ?_, blanks, text.drop (position + (name ++ blanks).length + 1), ?_,
      allBlank, ?_⟩
    · rwa [Text.mem_codePositions, ← Text.isCodeAt_padded quiet notEnd noGap,
        ← Text.mem_codePositions]
    · rwa [← Text.before?_padded quiet inside]
    · rw [here]
      simp
    · by_cases gap : position + (name ++ blanks).length + 1 ∈ gaps
      · exact .inl gap
      · refine .inr ⟨c, ?_⟩
        cases tail : text.drop (position + (name ++ blanks).length + 1) with
        | nil =>
            rw [tail, Text.padded_nil, Text.zeroAt_of_not_mem gap] at behind
            cases behind
        | cons d others =>
            rw [tail, Text.padded_cons, Text.zeroAt_of_not_mem gap] at behind
            obtain ⟨rfl, _⟩ := List.cons.inj behind
            exact ⟨others, rfl, follows⟩
  · obtain ⟨rest, zero, _⟩ := Text.padded_eq_cons gap (text.drop position)
    have before : (text.padded gaps 0).before? (Text.place gaps text position + 1) = some '0' := by
      rw [Text.before?_succ, ← List.head?_drop, Text.drop_place inside, zero, List.head?_cons]
    exact absurd (occurs.ownWord _ before) (by decide)

/-- Completing decimals `2.` makes no assignment to a name whose zeros are its own. -/
theorem Occurs.of_completeTrailing (own : Assignment.ownZeros none name = true) {index : Nat}
    (occurs : Occurs (Decimal.completeTrailing text) name index) :
    ∃ position, Occurs text name position := by
  rw [Decimal.completeTrailing_eq_padded] at occurs
  obtain ⟨position, code, ownWord, blanks, rest, written, allBlank,
      gap | ⟨c, behind, rfl, follows⟩⟩ := occurs.of_padded (fun _ => Decimal.quietGap_of_mem_trailingGaps) own
  · have equals := before?_of_drop_eq written
    rw [Decimal.before?_of_mem_trailingGaps gap] at equals
    cases equals
  · exact ⟨position, code, ownWord, blanks, c, behind, written, allBlank, follows⟩

/-- Completing decimals `.3` makes no assignment to a name that they are apart from. -/
theorem Occurs.of_completeLeading (apart : DecimalsApart text name) {index : Nat}
    (occurs : Occurs (Decimal.completeLeading text) name index) :
    ∃ position, Occurs text name position := by
  have quiet : ∀ gap ∈ Decimal.leadingGaps text, text.QuietGap gap := fun gap member =>
    Decimal.quietGap_of_mem_leadingGaps member (apart.noLiteral gap member)
  rw [Decimal.completeLeading_eq_padded] at occurs
  obtain ⟨position, code, ownWord, blanks, rest, written, allBlank,
      gap | ⟨c, behind, rfl, follows⟩⟩ := occurs.of_padded quiet apart.ownZeros
  · exact absurd ⟨code, ownWord, blanks, rest, written, allBlank, gap⟩ (apart.noValue position)
  · exact ⟨position, code, ownWord, blanks, c, behind, written, allBlank, follows⟩

end Assignment

open Assignment

/-- If a program is desugared under the guard, the guard finds no assignment to a
registered name in the result, provided that the decimals completed behind the guard are
apart from assignments to that name. -/
theorem collision?_eq_none_of_desugar {settings : Settings} {registry : List Text}
    {source output name : Text} (guarded : settings.nameGuard = true)
    (desugared : desugar settings registry source = .ok output) (member : name ∈ registry)
    (proper : name ≠ [])
    (apart : settings.decimals = true →
      DecimalsApart (Decimal.completeTrailing (guardedText settings registry source)) name) :
    Assignment.collision? output name = none := by
  rw [desugar_eq_of_nameGuard guarded] at desugared
  split at desugared
  · cases desugared
  · next missed =>
    have nowhere := firstCollision?_eq_none_iff.mp missed name member proper
    cases desugared
    refine collision?_eq_none_iff.mpr fun position occurs => ?_
    split at occurs
    · next completed =>
      obtain ⟨_, trailing⟩ := Occurs.of_completeLeading (apart completed) occurs
      obtain ⟨position, inGuarded⟩ := Occurs.of_completeTrailing (apart completed).ownZeros trailing
      exact nowhere position inGuarded
    · exact nowhere position occurs

/-- Three ways in which completing a decimal makes an assignment that the guard has not
seen: by its value, by a name that is a zero, and by spoiling a character literal. -/
theorem collision?_of_completed_decimal :
    (desugar .standard ["ring".toList] "ring =.5".toList = .ok "ring =0.5".toList ∧
      Assignment.collision? "ring =0.5".toList "ring".toList = some ⟨"ring".toList, 1, 0⟩) ∧
    (desugar .standard ["0".toList] "2. = 1".toList = .ok "2.0 = 1".toList ∧
      Assignment.collision? "2.0 = 1".toList "0".toList = some ⟨"0".toList, 1, 2⟩) ∧
    (desugar .standard ["ring".toList] "?'.5 ' ring = 1".toList =
        .ok "?'0.5 ' ring = 1".toList ∧
      Assignment.collision? "?'0.5 ' ring = 1".toList "ring".toList =
        some ⟨"ring".toList, 1, 8⟩) := by
  refine ⟨⟨desugar_eq_ok ?_ ?_, ?_⟩, ⟨desugar_eq_ok ?_ ?_, ?_⟩, desugar_eq_ok ?_ ?_, ?_⟩ <;>
    decide +kernel

theorem collision?_eq_none_of_desugar_ring :
    desugar .standard ["ring".toList] "x = .5\nring(.5 )\n2. ".toList =
        .ok "x = 0.5\nring(0.5 )\n2.0 ".toList ∧
      Assignment.collision? "x = 0.5\nring(0.5 )\n2.0 ".toList "ring".toList = none := by
  have desugared : desugar .standard ["ring".toList] "x = .5\nring(.5 )\n2. ".toList =
      .ok "x = 0.5\nring(0.5 )\n2.0 ".toList :=
    desugar_eq_ok (by decide +kernel) (by decide +kernel)
  have trailing : Decimal.completeTrailing (guardedText .standard ["ring".toList]
      "x = .5\nring(.5 )\n2. ".toList) = "x = .5\nring(.5 )\n2.0 ".toList := by decide +kernel
  have gaps : Decimal.leadingGaps "x = .5\nring(.5 )\n2.0 ".toList = [4, 12] := by decide +kernel
  refine ⟨desugared, collision?_eq_none_of_desugar rfl desugared (List.mem_singleton.mpr rfl)
    (by decide) fun _ => ?_⟩
  rw [trailing]
  refine ⟨by decide, ?_, ?_⟩
  · rintro position ⟨_, _, blanks, rest, written, _, gap⟩
    have equals := before?_of_drop_eq written
    simp only [gaps, List.mem_cons, List.not_mem_nil, or_false] at gap
    rcases gap with gap | gap
    · rw [gap] at equals
      exact absurd equals (by decide +kernel)
    · rw [gap] at equals
      exact absurd equals (by decide +kernel)
  · rw [gaps]
    decide +kernel

end Desugar
