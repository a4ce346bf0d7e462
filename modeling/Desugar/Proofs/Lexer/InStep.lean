import Desugar.Proofs.Lexer.Lookahead
import Desugar.Proofs.Pass.Order

/-!
# Scans that stay in step with the reading

A scan jumps over what it matches without reading it, so that it goes on with the strings
open that were open before. `Text.InStep` says that a reading which does go through the
match is at the same point behind it. As long as this holds of every match,
`Text.isCodeAt_of_mem_scan` says that the scan finds its matches in code,
`Text.exists_mem_scan` that it overlooks nothing there but what lies inside a match, and
`Text.mem_scan_iff_of_inStep` which matches it finds.
-/

namespace Desugar

/-- Behind `width` characters from a position on, the source is read in code, with the same
strings open as behind the first of them. -/
structure Text.InStep (source : Text) (position width : Nat) : Prop where
  fresh : (source.readingAt (position + width)).mode = .fresh
  nesting : (source.readingAt (position + width)).nesting =
    (source.readingAt (position + 1)).nesting

instance (source : Text) (position width : Nat) : Decidable (source.InStep position width) :=
  decidable_of_iff
    ((source.readingAt (position + width)).mode = .fresh ∧
      (source.readingAt (position + width)).nesting = (source.readingAt (position + 1)).nesting)
    ⟨fun ⟨fresh, nesting⟩ => ⟨fresh, nesting⟩, fun ⟨fresh, nesting⟩ => ⟨fresh, nesting⟩⟩

/-- A rule that measures what a reader finds claims it where it is read. -/
theorem Rule.measured_eq_some_iff {Item : Type} {width : Item → Nat} {found? : Option Item}
    {item : Item} :
    found?.map (fun found => (found, width found)) = some (item, width item) ↔
      found? = some item := by
  constructor
  · intro claimed
    obtain ⟨found, read, same⟩ := Option.map_eq_some_iff.mp claimed
    cases same
    exact read
  · intro read
    rw [read, Option.map_some]

namespace Text

variable {Item : Type} {rule : Rule Item} {width : Item → Nat} {source rest : Text}
  {position : Nat} {c : Char}

/-- A stretch that begins with a plain character in code is in step if nothing is half read
behind it and the same strings are open as before it. -/
theorem inStep_of_nesting {width : Nat} (here : source.drop position = c :: rest)
    (isCode : source.isCodeAt position = true) (plain : isPlain c = true) (inLine : c ≠ '\n')
    (fresh : (source.readingAt (position + width)).mode = .fresh)
    (nesting : (source.readingAt (position + width)).nesting =
      (source.readingAt position).nesting) : source.InStep position width := by
  rw [isCodeAt_eq here] at isCode
  obtain ⟨freshBefore, inCode⟩ := Reading.of_step_code isCode inLine
  refine ⟨fresh, ?_⟩
  rw [nesting, readingAt_succ here, Reading.step_of_plain plain freshBefore inCode]

/-- Plain text that begins in code is in step. -/
theorem inStep_of_plain {piece : Text} (here : source.drop position = piece ++ rest)
    (isCode : source.isCodeAt position = true) (inLine : piece.head? ≠ some '\n')
    (nonempty : piece ≠ []) (plain : ∀ c ∈ piece, isPlain c = true) :
    source.InStep position piece.length := by
  obtain ⟨first, others, rfl⟩ := List.exists_cons_of_ne_nil nonempty
  have notNewline : first ≠ '\n' := fun newline => inLine (by simp [newline])
  have firstCode := isCode
  rw [isCodeAt_eq here] at firstCode
  obtain ⟨fresh, inCode⟩ := Reading.of_step_code firstCode notNewline
  have behind := readingAt_plain here plain fresh inCode
  exact inStep_of_nesting here isCode (plain first (List.mem_cons_self ..)) notNewline behind.1
    behind.2

/-- Behind a match that is in step, a scan goes on as the reading does. -/
theorem claimsFrom_of_claimed (fits : rule.Fits width) (here : source.drop position = c :: rest)
    (isCode : source.isCodeAt position = true) {item : Item} {found : Nat}
    (claimed : rule (source.before? position) (c :: rest) = some (item, found))
    (inStep : source.InStep position (width item)) :
    source.claimsFrom rule position =
      (position, item) :: source.claimsFrom rule (position + width item) := by
  obtain ⟨rfl, positive, _⟩ := fits _ _ _ _ claimed
  rw [claimsFrom_eq here, if_pos isCode]
  simp only [claimed]
  rw [← inStep.nesting, collect_eq_claimsFrom here positive inStep.fresh]

/-- A match is found where it is claimed, whatever the scan makes of the rest. -/
theorem mem_claimsFrom_of_claimed (here : source.drop position = c :: rest)
    (isCode : source.isCodeAt position = true) {item : Item} {found : Nat}
    (claimed : rule (source.before? position) (c :: rest) = some (item, found)) :
    (position, item) ∈ source.claimsFrom rule position := by
  rw [claimsFrom_eq here, if_pos isCode]
  simp only [claimed]
  exact List.mem_cons_self ..

/-- A position that is not claimed is passed by. -/
theorem claimsFrom_of_not_claimed (here : source.drop position = c :: rest)
    (unclaimed : source.isCodeAt position = true →
      rule (source.before? position) (c :: rest) = none) :
    source.claimsFrom rule position = source.claimsFrom rule (position + 1) := by
  rw [claimsFrom_eq here]
  cases isCode : source.isCodeAt position with
  | false => rfl
  | true => simp only [unclaimed isCode, ↓reduceIte]

/-- Code that is not claimed is passed by. -/
theorem claimsFrom_of_none_claimed {count : Nat}
    (unclaimed : ∀ place, position ≤ place → place < position + count →
      source.isCodeAt place = true → rule (source.before? place) (source.drop place) = none) :
    source.claimsFrom rule position = source.claimsFrom rule (position + count) := by
  induction count with
  | zero => rfl
  | succ count inductionHypothesis =>
      rw [inductionHypothesis fun place reached before => unclaimed place reached (by omega)]
      cases here : source.drop (position + count) with
      | nil =>
          have beyond : source.drop (position + (count + 1)) = [] := by
            rw [← Nat.add_assoc, ← List.drop_drop, here, List.drop_nil]
          rw [claimsFrom, claimsFrom, here, beyond, Cursor.collect, Cursor.collect]
      | cons c rest =>
          refine claimsFrom_of_not_claimed here fun isCode => ?_
          rw [← here]
          exact unclaimed (position + count) (by omega) (by omega) isCode

/-- Where a rule claims no code, a scan finds nothing. -/
theorem scan_eq_nil (unclaimed : ∀ place, source.isCodeAt place = true →
    rule (source.before? place) (source.drop place) = none) : source.scan rule = [] := by
  have passed : source.claimsFrom rule 0 = source.claimsFrom rule (0 + source.length) :=
    claimsFrom_of_none_claimed fun place _ _ => unclaimed place
  have whole : source.scan rule = source.claimsFrom rule 0 := rfl
  rw [whole, passed, Nat.zero_add, claimsFrom, List.drop_length, Cursor.collect]

/-- A match that a scan finds from a position on stands in code, if the matches before it
are in step. -/
theorem isCodeAt_of_mem_claimsFrom (fits : rule.Fits width) {found : Nat × Item}
    (member : found ∈ source.claimsFrom rule position)
    (inStep : ∀ earlier ∈ source.claimsFrom rule position, earlier.1 < found.1 →
      source.InStep earlier.1 (width earlier.2)) :
    source.isCodeAt found.1 = true := by
  generalize remaining : source.length - position = bound
  induction bound using Nat.strongRecOn generalizing position with
  | ind bound inductionHypothesis =>
      cases here : source.drop position with
      | nil =>
          rw [claimsFrom, here, Cursor.collect] at member
          cases member
      | cons c rest =>
          have inside := lt_length_of_drop here
          by_cases unclaimed : source.isCodeAt position = true →
              rule (source.before? position) (c :: rest) = none
          · rw [claimsFrom_of_not_claimed here unclaimed] at member inStep
            exact inductionHypothesis _ (by omega) member inStep rfl
          · obtain ⟨isCode, notNone⟩ := Classical.not_imp.mp unclaimed
            obtain ⟨⟨item, claimedWidth⟩, claimed⟩ := Option.ne_none_iff_exists'.mp notNone
            obtain ⟨rfl, positive, _⟩ := fits _ _ _ _ claimed
            have head := mem_claimsFrom_of_claimed here isCode claimed
            rcases Nat.eq_or_lt_of_le (le_of_mem_claimsFrom member) with same | later
            · rwa [← same]
            · have sequel := claimsFrom_of_claimed fits here isCode claimed
                (inStep _ head later)
              rw [sequel] at member inStep
              have behind : found ∈ source.claimsFrom rule (position + width item) := by
                rcases List.mem_cons.mp member with rfl | behind
                · exact absurd later (Nat.lt_irrefl _)
                · exact behind
              refine inductionHypothesis _ ?_ behind
                (fun earlier listed => inStep earlier (List.mem_cons_of_mem _ listed)) rfl
              omega

/-- A match that a scan finds stands in code, if the matches before it are in step. -/
theorem isCodeAt_of_mem_scan (fits : rule.Fits width) {found : Nat × Item}
    (member : found ∈ source.scan rule)
    (inStep : ∀ earlier ∈ source.scan rule, earlier.1 < found.1 →
      source.InStep earlier.1 (width earlier.2)) :
    source.isCodeAt found.1 = true := by
  have whole : source.scan rule = source.claimsFrom rule 0 := rfl
  rw [whole] at member inStep
  exact isCodeAt_of_mem_claimsFrom fits member inStep

/-- If every match that stands in code is in step, then every match stands in code. -/
theorem inStep_of_mem_scan (fits : rule.Fits width)
    (each : ∀ found ∈ source.scan rule, source.isCodeAt found.1 = true →
      source.InStep found.1 (width found.2)) {found : Nat × Item}
    (member : found ∈ source.scan rule) :
    source.isCodeAt found.1 = true ∧ source.InStep found.1 (width found.2) := by
  generalize place : found.1 = bound
  induction bound using Nat.strongRecOn generalizing found with
  | ind bound inductionHypothesis =>
      subst place
      have isCode := isCodeAt_of_mem_scan fits member fun earlier listed before =>
        (inductionHypothesis _ before listed rfl).2
      exact ⟨isCode, each found member isCode⟩

/-- If all matches from a position on are in step, whatever the rule claims in code further
on begins inside one of them. -/
theorem exists_mem_claimsFrom (fits : rule.Fits width)
    (inStep : ∀ found ∈ source.claimsFrom rule position,
      source.InStep found.1 (width found.2)) {place : Nat} (reached : position ≤ place)
    (isCode : source.isCodeAt place = true)
    (claims : rule (source.before? place) (source.drop place) ≠ none) :
    ∃ found ∈ source.claimsFrom rule position,
      found.1 ≤ place ∧ place < found.1 + width found.2 := by
  generalize remaining : source.length - position = bound
  induction bound using Nat.strongRecOn generalizing position with
  | ind bound inductionHypothesis =>
      have inside := lt_length_of_isCodeAt isCode
      have here : source.drop position = source[position] :: source.drop (position + 1) :=
        List.drop_eq_getElem_cons (Nat.lt_of_le_of_lt reached inside)
      by_cases unclaimed : source.isCodeAt position = true →
          rule (source.before? position) (source[position] :: source.drop (position + 1)) = none
      · have later : position + 1 ≤ place := by
          refine Nat.lt_of_le_of_ne reached ?_
          rintro rfl
          rw [here] at claims
          exact claims (unclaimed isCode)
        rw [claimsFrom_of_not_claimed here unclaimed] at inStep ⊢
        exact inductionHypothesis _ (by omega) inStep later rfl
      · obtain ⟨isCodeHere, notNone⟩ := Classical.not_imp.mp unclaimed
        obtain ⟨⟨item, claimedWidth⟩, claimed⟩ := Option.ne_none_iff_exists'.mp notNone
        obtain ⟨rfl, positive, _⟩ := fits _ _ _ _ claimed
        have head := mem_claimsFrom_of_claimed here isCodeHere claimed
        have sequel := claimsFrom_of_claimed fits here isCodeHere claimed (inStep _ head)
        rcases Nat.lt_or_ge place (position + width item) with within | beyond
        · exact ⟨_, head, reached, within⟩
        · rw [sequel] at inStep ⊢
          obtain ⟨found, listed, covers⟩ := inductionHypothesis _ (by omega)
            (fun found listed => inStep found (List.mem_cons_of_mem _ listed)) beyond rfl
          exact ⟨found, List.mem_cons_of_mem _ listed, covers⟩

/-- If all matches of a scan are in step, whatever the rule claims in code begins inside one
of them. -/
theorem exists_mem_scan (fits : rule.Fits width)
    (inStep : ∀ found ∈ source.scan rule, source.InStep found.1 (width found.2)) {place : Nat}
    (isCode : source.isCodeAt place = true)
    (claims : rule (source.before? place) (source.drop place) ≠ none) :
    ∃ found ∈ source.scan rule, found.1 ≤ place ∧ place < found.1 + width found.2 := by
  have whole : source.scan rule = source.claimsFrom rule 0 := rfl
  rw [whole] at inStep ⊢
  exact exists_mem_claimsFrom fits inStep (Nat.zero_le _) isCode claims

/-- The matches of a scan do not overlap. -/
theorem apart_of_mem_scan (fits : rule.Fits width) {found other : Nat × Item}
    (member : found ∈ source.scan rule) (listed : other ∈ source.scan rule)
    (before : found.1 < other.1) : found.1 + width found.2 ≤ other.1 := by
  have ordered := Edit.ordered_scan_map fits (fun _ => []) source
  have apart : (source.scan rule).Pairwise fun first second =>
      first.1 + width first.2 ≤ second.1 :=
    List.pairwise_map.mp (Edit.OrderedFrom.forall_and_pairwise ordered).2
  refine List.Pairwise.forall_of_forall_of_flip
    (R := fun first second => first.1 < second.1 → first.1 + width first.2 ≤ second.1)
    (fun _ _ irreflexive => absurd irreflexive (Nat.lt_irrefl _)) ?_ ?_ member listed before
  · refine apart.imp fun behind _ => ?_
    exact behind
  · refine apart.imp fun behind reversed => ?_
    omega

/-- If all matches of a scan are in step, it finds from left to right whatever the rule claims
in code outside the matches before. -/
theorem mem_scan_iff_of_inStep (fits : rule.Fits width)
    (inStep : ∀ found ∈ source.scan rule, source.InStep found.1 (width found.2))
    {found : Nat × Item} :
    found ∈ source.scan rule ↔
      (source.isCodeAt found.1 = true ∧
        rule (source.before? found.1) (source.drop found.1) =
          some (found.2, width found.2)) ∧
      ∀ earlier ∈ source.scan rule, earlier.1 < found.1 →
        earlier.1 + width earlier.2 ≤ found.1 := by
  -- What the scan has found is claimed with its width.
  have claimed {other : Nat × Item} (listed : other ∈ source.scan rule) :
      rule (source.before? other.1) (source.drop other.1) = some (other.2, width other.2) := by
    obtain ⟨claimedWidth, claimed⟩ := claimed_of_mem_scan listed
    obtain ⟨rfl, -⟩ := fits _ _ _ _ claimed
    exact claimed
  constructor
  · intro member
    refine ⟨⟨?_, claimed member⟩, fun earlier listed => apart_of_mem_scan fits listed member⟩
    exact isCodeAt_of_mem_scan fits member fun earlier listed _ => inStep earlier listed
  · rintro ⟨⟨isCode, here⟩, outside⟩
    have claims : rule (source.before? found.1) (source.drop found.1) ≠ none := by
      rw [here]
      nofun
    obtain ⟨first, listed, reached, within⟩ := exists_mem_scan fits inStep isCode claims
    -- The match that covers the position cannot begin before it.
    have same : first.1 = found.1 := by
      rcases Nat.lt_or_eq_of_le reached with before | same
      · have behind := outside first listed before
        omega
      · exact same
    have there := claimed listed
    rw [same, here] at there
    have items : first.2 = found.2 := (congrArg Prod.fst (Option.some.inj there)).symm
    rwa [← Prod.ext same items]

end Text

end Desugar
