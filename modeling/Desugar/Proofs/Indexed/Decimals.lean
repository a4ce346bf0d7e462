import Desugar.Proofs.Decimal.Alignment
import Desugar.Proofs.Indexed.Passes

/-!
# Decimals by positions

The two passes that complete decimals measure the digits at a code position and go on behind
them, although the rules they follow claim one character at a time. `Text.filterMap_scan_eq_map`
says when a scan with wider matches finds the same, and `Decimal.trailingAt?_eq_some` and
`Decimal.leadingAt?_eq_some` say that the passes never fail inside the text.
-/

namespace Desugar

namespace Text

variable {Item Other Found : Type} {wide : Rule Item} {narrow : Rule Other} {width : Item → Nat}
  {source : Text}

/-- Behind a match of one character a scan goes on as the reading does. -/
theorem claimsFrom_of_single (single : narrow.Single) {position found : Nat} {c : Char}
    {rest : Text} {item : Other} (here : source.drop position = c :: rest)
    (isCode : source.isCodeAt position = true)
    (claimed : narrow (source.before? position) (c :: rest) = some (item, found)) :
    source.claimsFrom narrow position =
      (position, item) :: source.claimsFrom narrow (position + 1) := by
  rw [claimsFrom_eq here, if_pos isCode]
  simp only [claimed, single _ _ _ _ claimed]
  rw [collect_eq_claimsFrom here (Nat.le_refl _) (mode_of_isCodeAt here isCode)]

/-- The characters of a run are accepted. -/
theorem getElem?_of_lt_takeWhile {text : Text} {accept : Char → Bool} {index : Nat}
    (inRun : index < (text.takeWhile accept).length) :
    ∃ c, text[index]? = some c ∧ accept c = true := by
  obtain ⟨rest, divided⟩ := text.takeWhile_prefix accept
  refine ⟨(text.takeWhile accept)[index], ?_, ?_⟩
  · have inBoth : (text.takeWhile accept ++ rest)[index]? = (text.takeWhile accept)[index]? :=
      List.getElem?_append_left inRun
    rw [← List.getElem?_eq_getElem inRun, ← inBoth, divided]
  · exact List.all_eq_true.mp List.all_takeWhile _ (List.getElem_mem inRun)

/-- A rule with wide matches finds the same as one that claims single characters, if it claims
where that one does, and that one claims nothing inside the wide matches. -/
theorem filterMap_claimsFrom_eq_map (fits : wide.Fits width) (single : narrow.Single)
    (make : Nat → Item → Option Found) (answer : Nat → Other → Found)
    (inStep : ∀ position item found, source.isCodeAt position = true →
      wide (source.before? position) (source.drop position) = some (item, found) →
        source.InStep position found)
    (unclaimed : ∀ position, wide (source.before? position) (source.drop position) = none →
      narrow (source.before? position) (source.drop position) = none)
    (same : ∀ position item found,
      wide (source.before? position) (source.drop position) = some (item, found) →
        make position item =
          (narrow (source.before? position) (source.drop position)).map fun claim =>
            answer position claim.1)
    (inner : ∀ position item found place,
      wide (source.before? position) (source.drop position) = some (item, found) →
        position < place → place < position + found →
          narrow (source.before? place) (source.drop place) = none)
    (position : Nat) :
    (source.claimsFrom wide position).filterMap (fun found => make found.1 found.2) =
      (source.claimsFrom narrow position).map fun found => answer found.1 found.2 := by
  generalize remaining : source.length - position = bound
  induction bound using Nat.strongRecOn generalizing position with
  | ind bound inductionHypothesis =>
      cases here : source.drop position with
      | nil =>
          rw [claimsFrom, claimsFrom, here, Cursor.collect, Cursor.collect]
          rfl
      | cons c rest =>
          have inside := lt_length_of_drop here
          by_cases nothing : source.isCodeAt position = true →
              wide (source.before? position) (c :: rest) = none
          · have narrowNothing : source.isCodeAt position = true →
                narrow (source.before? position) (c :: rest) = none := by
              intro isCode
              have passed := unclaimed position (by rw [here]; exact nothing isCode)
              rwa [here] at passed
            rw [claimsFrom_of_not_claimed here nothing,
              claimsFrom_of_not_claimed here narrowNothing]
            exact inductionHypothesis _ (by omega) (position + 1) rfl
          · obtain ⟨isCode, claims⟩ := Classical.not_imp.mp nothing
            obtain ⟨⟨item, found⟩, claimed⟩ := Option.ne_none_iff_exists'.mp claims
            have located : wide (source.before? position) (source.drop position) =
                some (item, found) := by rwa [here]
            obtain ⟨rfl, positive, _⟩ := fits _ _ _ _ claimed
            have answered := same position item _ located
            have further := inductionHypothesis (source.length - (position + width item))
              (by omega) (position + width item) rfl
            have passed : source.claimsFrom narrow (position + 1) =
                source.claimsFrom narrow (position + width item) := by
              have behind : position + 1 + (width item - 1) = position + width item := by omega
              rw [← behind]
              refine claimsFrom_of_none_claimed fun place reached before _ => ?_
              exact inner position item _ place located (by omega) (by omega)
            rw [claimsFrom_of_claimed fits here isCode claimed (inStep _ _ _ isCode located),
              List.filterMap_cons, answered, further, here]
            cases narrowClaimed : narrow (source.before? position) (c :: rest) with
            | none =>
                rw [claimsFrom_of_not_claimed here fun _ => narrowClaimed, passed]
                rfl
            | some claim =>
                rw [claimsFrom_of_single single here isCode narrowClaimed, passed]
                rfl

end Text

namespace Decimal

variable {source : Text} {position : Nat}

theorem isWord_of_isDigit {c : Char} (digit : c.isDigit = true) : isWord c = true := by
  simp [isWord, Char.isAlphanum, digit]

/-- What the pass for decimals `2.` does at a code position. -/
def trailingAt? (source : Text) (start : Nat) : Option (Option Edit × Nat) :=
  source[start]?.bind fun c =>
    if c.isDigit = false then some (none, start)
    else
      (source.previousAt? start).map fun previous =>
        if previous.all isBlank = false then (none, start)
        else
          let dot := source.runEnd start Char.isDigit
          if source[dot]? = some '.' then
            (if source[dot + 1]?.all isBlank then some (.insertion (dot + 1) ['0']) else none, dot)
          else (none, dot)

/-- What the pass for decimals `.3` does at a code position. -/
def leadingAt? (source : Text) (dot : Nat) : Option (Option Edit × Nat) :=
  source[dot]?.bind fun c =>
    if c ≠ '.' then some (none, dot)
    else
      (source.previousAt? dot).map fun previous =>
        if previous.any fun c => c.isDigit || c == '.' || isWord c then (none, dot)
        else
          let stop := source.runEnd (dot + 1) Char.isDigit
          if stop = dot + 1 then (none, dot)
          else if source[stop]?.all fun c => isBlank c || c == ')' then
            (some (.insertion dot ['0']), stop)
          else (none, dot)

/-- The rule that claims the digits at the start of a word, and tells whether they begin a
decimal `2.`. -/
def digitsRule : Rule (Nat × Bool) := fun previous rest =>
  let digits := rest.takeWhile Char.isDigit
  if !digits.isEmpty && previous.all isBlank then
    some ((digits.length, (trailingDot? previous rest).isSome), digits.length)
  else none

/-- The digits at the start of a word. -/
theorem digitsRule_eq_some_iff {previous : Option Char} {rest : Text} {item : Nat × Bool}
    {found : Nat} :
    digitsRule previous rest = some (item, found) ↔
      rest.takeWhile Char.isDigit ≠ [] ∧ previous.all isBlank = true ∧
        item = ((rest.takeWhile Char.isDigit).length, (trailingDot? previous rest).isSome) ∧
          found = (rest.takeWhile Char.isDigit).length := by
  unfold digitsRule
  constructor
  · intro claimed
    dsimp only at claimed
    split at claimed
    · next shape =>
      cases claimed
      simp only [Bool.and_eq_true, Bool.not_eq_true', List.isEmpty_eq_false_iff] at shape
      exact ⟨shape.1, shape.2, rfl, rfl⟩
    · cases claimed
  · rintro ⟨nonempty, blank, rfl, rfl⟩
    simp [nonempty, blank]

theorem fits_digitsRule : digitsRule.Fits Prod.fst := by
  intro previous rest item found claimed
  obtain ⟨nonempty, _, rfl, rfl⟩ := digitsRule_eq_some_iff.mp claimed
  exact ⟨rfl, List.length_pos_iff.mpr nonempty, (rest.takeWhile_sublist _).length_le⟩

/-- A decimal `2.` is one dot wider than its digits. -/
theorem trailingDot?_eq_some {previous : Option Char} {rest : Text} {width : Nat}
    (found : trailingDot? previous rest = some width) :
    rest.takeWhile Char.isDigit ≠ [] ∧ previous.all isBlank = true ∧
      width = (rest.takeWhile Char.isDigit).length + 1 := by
  unfold trailingDot? at found
  dsimp only at found
  split at found
  · split at found
    · next shape =>
      cases found
      simp only [Bool.and_eq_true, Bool.not_eq_true', List.isEmpty_eq_false_iff] at shape
      exact ⟨shape.1.1, shape.1.2, rfl⟩
    · cases found
  · cases found

/-- Digits at the start of a word begin a decimal `2.` if a dot comes next, and then a blank or
nothing. -/
theorem isSome_trailingDot? {previous : Option Char} {rest : Text}
    (nonempty : rest.takeWhile Char.isDigit ≠ []) (blank : previous.all isBlank = true) :
    (trailingDot? previous rest).isSome =
      ((rest.dropWhile Char.isDigit).head? == some '.' &&
        ((rest.dropWhile Char.isDigit).drop 1).head?.all isBlank) := by
  unfold trailingDot?
  dsimp only
  split
  · next tail behind =>
    rw [behind]
    cases next : tail.head?.all isBlank <;> simp [nonempty, blank, next]
  · next noDot =>
    cases remaining : rest.dropWhile Char.isDigit with
    | nil => rfl
    | cons c tail =>
        have other : c ≠ '.' := fun dot => noDot tail (by rw [remaining, dot])
        simp [other]

/-- The edit for the digits that `digitsRule` claims. -/
def digitsEdit? (position : Nat) (item : Nat × Bool) : Option Edit :=
  if item.2 then some (.insertion (position + item.1 + 1) ['0']) else none

/-- The pass for decimals `2.` never fails inside the text, and answers what `digitsRule`
claims. -/
theorem trailingAt?_eq_some (inside : position < source.length) :
    trailingAt? source position =
      some (Cursor.answer source digitsRule digitsEdit? position) := by
  have here : source.drop position = source[position] :: source.drop (position + 1) :=
    List.drop_eq_getElem_cons inside
  rw [trailingAt?, List.getElem?_eq_getElem inside, Option.bind_some, Cursor.answer]
  by_cases digit : source[position].isDigit = true
  · have nonempty : (source.drop position).takeWhile Char.isDigit ≠ [] := by
      rw [here, List.takeWhile_cons_of_pos digit]
      exact List.cons_ne_nil _ _
    rw [if_neg (by simp [digit]), Text.previousAt?_eq_some (Nat.le_of_lt inside), Option.map_some]
    by_cases blank : (source.before? position).all isBlank = true
    · have claimed := digitsRule_eq_some_iff.mpr ⟨nonempty, blank, rfl, rfl⟩
      have behind := Text.drop_runEnd source position Char.isDigit
      have stop : position + ((source.drop position).takeWhile Char.isDigit).length =
          source.runEnd position Char.isDigit := rfl
      rw [claimed, if_neg (by simp [blank]), isSome_trailingDot? nonempty blank, ← behind,
        List.drop_drop, List.head?_drop, List.head?_drop]
      simp only [digitsEdit?, stop]
      by_cases dot : source[source.runEnd position Char.isDigit]? = some '.'
      · simp [dot]
      · simp [dot]
    · have unclaimed : digitsRule (source.before? position) (source.drop position) = none := by
        simp [digitsRule, blank]
      rw [unclaimed, if_pos (by simpa using blank)]
  · have noDigits : (source.drop position).takeWhile Char.isDigit = [] := by
      rw [here, List.takeWhile_cons_of_neg digit]
    have unclaimed : digitsRule (source.before? position) (source.drop position) = none := by
      simp [digitsRule, noDigits]
    rw [unclaimed, if_pos (by simpa using digit)]

/-- The rule that claims the dot and the digits of each decimal `.3`. -/
def fractionRule : Rule Nat := fun previous rest =>
  if leadsWithDot previous rest then
    let width := ((rest.drop 1).takeWhile Char.isDigit).length + 1
    some (width, width)
  else none

/-- What a decimal `.3` at the head of a text looks like. -/
theorem fractionRule_eq_some_iff {previous : Option Char} {rest : Text} {item found : Nat} :
    fractionRule previous rest = some (item, found) ↔
      leadsWithDot previous rest = true ∧
        item = ((rest.drop 1).takeWhile Char.isDigit).length + 1 ∧ found = item := by
  unfold fractionRule
  constructor
  · intro claimed
    split at claimed
    · next leads =>
      cases claimed
      exact ⟨leads, rfl, rfl⟩
    · cases claimed
  · rintro ⟨leads, rfl, rfl⟩
    rw [if_pos leads]

theorem fits_fractionRule : fractionRule.Fits id := by
  intro previous rest item found claimed
  obtain ⟨leads, rfl, rfl⟩ := fractionRule_eq_some_iff.mp claimed
  obtain ⟨_, tail, rfl⟩ := leadsWithDot_cases leads
  have bounded := (tail.takeWhile_sublist Char.isDigit).length_le
  rw [List.drop_one, List.tail_cons, List.length_cons]
  exact ⟨rfl, Nat.succ_le_succ (Nat.zero_le _), Nat.succ_le_succ bounded⟩

/-- The pass for decimals `.3` never fails inside the text, and answers what `fractionRule`
claims. -/
theorem leadingAt?_eq_some (inside : position < source.length) :
    leadingAt? source position =
      some (Cursor.answer source fractionRule (fun dot _ => some (.insertion dot ['0']))
        position) := by
  have here : source.drop position = source[position] :: source.drop (position + 1) :=
    List.drop_eq_getElem_cons inside
  rw [leadingAt?, List.getElem?_eq_getElem inside, Option.bind_some, Cursor.answer]
  by_cases dot : source[position] = '.'
  · have word : ((source.before? position).any fun c => c.isDigit || c == '.' || isWord c) =
        (source.before? position).any fun c => c == '.' || isWord c := by
      cases source.before? position with
      | none => rfl
      | some c =>
          cases digit : c.isDigit with
          | false => simp [digit]
          | true => simp [isWord_of_isDigit digit]
    have behind := Text.drop_runEnd source (position + 1) Char.isDigit
    have digits : (source.drop (position + 1)).head?.any Char.isDigit =
        !((source.drop (position + 1)).takeWhile Char.isDigit).isEmpty := by
      cases source.drop (position + 1) with
      | nil => rfl
      | cons c rest => cases digit : c.isDigit <;> simp [digit]
    rw [dot] at here
    rw [if_neg (by simp [dot]), Text.previousAt?_eq_some (Nat.le_of_lt inside), Option.map_some,
      word, fractionRule, here, leadsWithDot, digits, ← behind, List.head?_drop]
    simp only [Text.runEnd_eq_self_iff]
    have width : position + (((source.drop (position + 1)).takeWhile Char.isDigit).length + 1) =
        source.runEnd (position + 1) Char.isDigit := by
      rw [Text.runEnd]
      omega
    simp only [List.drop_one, List.tail_cons]
    cases (source.before? position).any fun c => c == '.' || isWord c with
    | true => simp
    | false =>
        cases ((source.drop (position + 1)).takeWhile Char.isDigit).isEmpty with
        | true => simp
        | false =>
            cases source[source.runEnd (position + 1) Char.isDigit]?.all
              fun c => isBlank c || c == ')' <;> simp [width]
  · have unclaimed : fractionRule (source.before? position) (source.drop position) = none := by
      rw [fractionRule, if_neg]
      intro leads
      obtain ⟨_, tail, same⟩ := leadsWithDot_cases leads
      rw [here] at same
      exact dot (List.cons.inj same).1
    rw [unclaimed, if_pos dot]

/-- The digits that begin decimals `2.` are where these are. -/
theorem filterMap_scan_digitsRule (source : Text) :
    (source.scan digitsRule).filterMap (fun found => digitsEdit? found.1 found.2) =
      trailingEdits source := by
  refine Text.filterMap_claimsFrom_eq_map fits_digitsRule single_trailingRule digitsEdit?
    (fun position width => .insertion (position + width) ['0']) ?_ ?_ ?_ ?_ 0
  · intro position item found isCode claimed
    obtain ⟨nonempty, _, rfl, rfl⟩ := digitsRule_eq_some_iff.mp claimed
    have allDigits : ∀ c ∈ (source.drop position).takeWhile Char.isDigit, c.isDigit = true :=
      List.all_eq_true.mp List.all_takeWhile
    refine Text.inStep_of_plain List.takeWhile_append_dropWhile.symm isCode ?_ nonempty
      fun c member => isPlain_of_isDigit (allDigits c member)
    intro newline
    exact absurd (allDigits _ (List.mem_of_head? newline)) (by decide)
  · intro position unclaimed
    cases found : trailingDot? (source.before? position) (source.drop position) with
    | none => simp [trailingRule, found]
    | some width =>
        obtain ⟨nonempty, blank, _⟩ := trailingDot?_eq_some found
        rw [digitsRule_eq_some_iff.mpr ⟨nonempty, blank, rfl, rfl⟩] at unclaimed
        cases unclaimed
  · intro position item found claimed
    obtain ⟨_, _, rfl, rfl⟩ := digitsRule_eq_some_iff.mp claimed
    cases trailing : trailingDot? (source.before? position) (source.drop position) with
    | none => simp [digitsEdit?, trailingRule, trailing]
    | some width =>
        obtain ⟨_, _, rfl⟩ := trailingDot?_eq_some trailing
        simp [digitsEdit?, trailingRule, trailing, Nat.add_assoc]
  · intro position item found place claimed behind before
    obtain ⟨_, _, _, rfl⟩ := digitsRule_eq_some_iff.mp claimed
    have notBlank : (source.before? place).all isBlank = false := by
      obtain ⟨distance, rfl⟩ := Nat.exists_eq_add_of_lt behind
      have inDigits : distance < ((source.drop position).takeWhile Char.isDigit).length := by omega
      obtain ⟨c, character, digit⟩ := Text.getElem?_of_lt_takeWhile inDigits
      rw [Text.before?_succ, ← List.getElem?_drop, character, Option.all_some]
      cases blank : isBlank c with
      | false => rfl
      | true =>
          rw [isDigit_eq_false_of_isBlank blank] at digit
          cases digit
    cases found : trailingDot? (source.before? place) (source.drop place) with
    | none => simp [trailingRule, found]
    | some width =>
        rw [(trailingDot?_eq_some found).2.1] at notBlank
        cases notBlank

/-- The decimals `.3` are where their dots are. -/
theorem filterMap_scan_fractionRule (source : Text) :
    (source.scan fractionRule).filterMap
        (fun found => some (Edit.insertion found.1 ['0'])) = leadingEdits source := by
  refine Text.filterMap_claimsFrom_eq_map fits_fractionRule single_leadingRule
    (fun position _ => some (Edit.insertion position ['0']))
    (fun position _ => Edit.insertion position ['0']) ?_ ?_ ?_ ?_ 0
  · intro position item found isCode claimed
    obtain ⟨leads, rfl, rfl⟩ := fractionRule_eq_some_iff.mp claimed
    obtain ⟨_, tail, here⟩ := leadsWithDot_cases leads
    have divided : source.drop position =
        ('.' :: tail.takeWhile Char.isDigit) ++ tail.dropWhile Char.isDigit := by
      rw [here, List.cons_append, List.takeWhile_append_dropWhile]
    have inStep := Text.inStep_of_plain divided isCode nofun (List.cons_ne_nil _ _) ?_
    · rwa [here]
    · intro c member
      rcases List.mem_cons.mp member with rfl | digit
      · rfl
      · exact isPlain_of_isDigit (List.all_eq_true.mp List.all_takeWhile c digit)
  · intro position unclaimed
    rw [leadingRule]
    split
    · next leads =>
      rw [fractionRule, if_pos leads] at unclaimed
      cases unclaimed
    · rfl
  · intro position item found claimed
    obtain ⟨leads, _⟩ := fractionRule_eq_some_iff.mp claimed
    rw [leadingRule, if_pos leads]
    rfl
  · intro position item found place claimed behind before
    obtain ⟨leads, rfl, rfl⟩ := fractionRule_eq_some_iff.mp claimed
    obtain ⟨_, tail, here⟩ := leadsWithDot_cases leads
    rw [leadingRule, if_neg]
    intro inner
    obtain ⟨_, others, there⟩ := leadsWithDot_cases inner
    obtain ⟨distance, rfl⟩ := Nat.exists_eq_add_of_lt behind
    rw [here, List.drop_one, List.tail_cons] at before
    have inDigits : distance < (tail.takeWhile Char.isDigit).length := by omega
    have dot : tail[distance]? = some '.' := by
      have character := Text.getElem?_of_drop there
      rwa [Nat.add_assoc, ← List.getElem?_drop, here, List.getElem?_cons_succ] at character
    obtain ⟨c, character, digit⟩ := Text.getElem?_of_lt_takeWhile inDigits
    rw [dot] at character
    cases character
    cases digit

end Decimal

end Desugar
