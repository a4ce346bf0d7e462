import Desugar.Proofs.Pass.Effect
import Desugar.Proofs.Pass.Rewriting
import Desugar.Proofs.Pass.Stability

/-!
# Expanding list blocks twice

A flattened body has no blanks and no comments left, so that flattening it again changes
nothing: `flattenBody_flattenBody`. A source whose blocks are expanded is read like the source
up to each of its blocks, however strings and braces in the bodies mislead the cursor, and has
the same blocks with flat bodies. `ListBlock.expand_expand` concludes that expanding them
again changes nothing, and that expanding never makes a text longer.
-/

namespace Desugar

/-- A text has no comments to leave out if every `#` in it has an opening brace behind it. -/
theorem uncomment_cons_eq_self_iff {c : Char} {rest : Text} :
    uncomment false (c :: rest) = c :: rest ↔
      (c = '#' → rest.head? = some '{') ∧ uncomment false rest = rest := by
  rw [uncomment]
  split
  · next starts =>
    simp only [Bool.and_eq_true, decide_eq_true_eq, bne_iff_ne] at starts
    constructor
    · intro same
      have shorter := length_uncomment_le true rest
      rw [same, List.length_cons] at shorter
      omega
    · rintro ⟨brace, -⟩
      exact absurd (brace starts.1) starts.2
  · next continues =>
    have brace : c = '#' → rest.head? = some '{' := by
      rintro rfl
      simpa using continues
    simpa using fun _ => brace

/-- What is left without its comments has none. -/
theorem uncomment_uncomment (inComment : Bool) (text : Text) :
    uncomment false (uncomment inComment text) = uncomment inComment text := by
  fun_induction uncomment inComment text with
  | case1 => rfl
  | case2 rest inductionHypothesis =>
      exact uncomment_cons_eq_self_iff.mpr
        ⟨fun hash => absurd hash (by decide), inductionHypothesis⟩
  | case3 c rest newline inductionHypothesis => exact inductionHypothesis
  | case4 c rest starts inductionHypothesis => exact inductionHypothesis
  | case5 c rest continues inductionHypothesis =>
      refine uncomment_cons_eq_self_iff.mpr ⟨?_, inductionHypothesis⟩
      rintro rfl
      have brace : rest.head? = some '{' := by simpa using continues
      obtain ⟨behind, rfl⟩ := List.head?_eq_some_iff.mp brace
      simp [uncomment]

/-- Comments are left out piece by piece, where no piece ends before an opening brace. -/
theorem uncomment_append_eq_self_iff {left right : Text} {c : Char} (noBrace : c ≠ '{') :
    uncomment false (left ++ c :: right) = left ++ c :: right ↔
      uncomment false left = left ∧ uncomment false (c :: right) = c :: right := by
  induction left with
  | nil => simp [uncomment]
  | cons d left inductionHypothesis =>
      have next : (left ++ c :: right).head? = some '{' ↔ left.head? = some '{' := by
        cases left with
        | nil => simp [noBrace]
        | cons e left => rfl
      rw [List.cons_append, uncomment_cons_eq_self_iff, uncomment_cons_eq_self_iff, next,
        inductionHypothesis, and_assoc]

namespace Text

/-- The first piece of a text begins as the text does, unless it begins with a separator. -/
theorem head?_of_splitOnP {separates : Char → Bool} {c : Char} {text first : Text}
    {others : List Text} (pieces : text.splitOnP separates = first :: others)
    (begins : text.head? = some c) (other : separates c = false) : first.head? = some c := by
  obtain ⟨rest, rfl⟩ := List.head?_eq_some_iff.mp begins
  rw [List.splitOnP_cons_eq_if_modifyHead, other] at pieces
  cases further : rest.splitOnP separates with
  | nil => exact absurd further (List.splitOnP_ne_nil _ _)
  | cons next others =>
      rw [further] at pieces
      cases pieces
      rfl

/-- The words of a text without comments have none. -/
theorem uncomment_of_mem_words {text word : Text} (plain : uncomment false text = text)
    (listed : word ∈ text.words) : uncomment false word = word := by
  replace listed : word ∈ text.splitOnP isBlank := (List.mem_filter.mp listed).1
  induction text generalizing word with
  | nil =>
      rw [List.splitOnP_nil, List.mem_singleton] at listed
      rw [listed]
      rfl
  | cons c text inductionHypothesis =>
      obtain ⟨brace, plain⟩ := uncomment_cons_eq_self_iff.mp plain
      rw [List.splitOnP_cons_eq_if_modifyHead] at listed
      split at listed
      · rcases List.mem_cons.mp listed with rfl | listed
        · rfl
        · exact inductionHypothesis plain listed
      · cases pieces : text.splitOnP isBlank with
        | nil => exact absurd pieces (List.splitOnP_ne_nil _ _)
        | cons first others =>
            rw [pieces] at listed inductionHypothesis
            rcases List.mem_cons.mp listed with rfl | listed
            · refine uncomment_cons_eq_self_iff.mpr ⟨fun hash => ?_, ?_⟩
              · exact head?_of_splitOnP pieces (brace hash) rfl
              · exact inductionHypothesis plain (List.mem_cons_self ..)
            · exact inductionHypothesis plain (List.mem_cons_of_mem _ listed)

/-- Pieces without comments have none when they are joined with commas. -/
theorem uncomment_intercalate {pieces : List Text}
    (plain : ∀ piece ∈ pieces, uncomment false piece = piece) :
    uncomment false ([','].intercalate pieces) = [','].intercalate pieces := by
  induction pieces with
  | nil => rfl
  | cons piece pieces inductionHypothesis =>
      obtain ⟨first, others⟩ := List.forall_mem_cons.mp plain
      cases pieces with
      | nil => simpa using first
      | cons next pieces =>
          rw [List.intercalate_cons_cons, List.append_assoc, List.singleton_append]
          refine (uncomment_append_eq_self_iff (by decide)).mpr ⟨first, ?_⟩
          exact uncomment_cons_eq_self_iff.mpr ⟨nofun, inductionHypothesis others⟩

/-- A text without blanks is its only word, unless it is empty. -/
theorem intercalate_words {text : Text} (solid : ∀ c ∈ text, isBlank c = false)
    (separator : Text) : separator.intercalate text.words = text := by
  rw [words, List.splitOnP_eq_singleton solid]
  cases text <;> simp

end Text

/-- A flattened body is flat. -/
theorem flattenBody_flattenBody (body : Text) :
    flattenBody (flattenBody body) = flattenBody body := by
  have plain : uncomment false (flattenBody body) = flattenBody body :=
    Text.uncomment_intercalate fun word listed =>
      Text.uncomment_of_mem_words (uncomment_uncomment false body) listed
  calc
    flattenBody (flattenBody body) = [','].intercalate (Text.words (flattenBody body)) := by
      rw [flattenBody, plain]
    _ = flattenBody body :=
      Text.intercalate_words (fun c => ListBlock.not_isBlank_of_mem_flattenBody) [',']

namespace ListBlock

open Reading

variable {keywords : List Keyword} {reading : Reading} {source result : Text}

/-- The block with its body flattened. -/
def flat (block : ListBlock) : ListBlock :=
  { block with body := flattenBody block.body }

theorem flat_flat (block : ListBlock) : block.flat.flat = block.flat := by
  rw [flat, flat]
  simp only [flattenBody_flattenBody]

/-- Flattening the body of a block leaves a block. -/
theorem Shape.flat {block : ListBlock} (shape : block.Shape keywords) :
    block.flat.Shape keywords where
  keyword := shape.keyword
  gap := shape.gap
  blanks := shape.blanks
  body := (Option.any_eq_false _ _).mpr fun c first =>
    not_isBlank_of_mem_flattenBody (List.mem_of_head? first)
  closed := by
    intro member
    rcases Text.of_mem_intercalate member with comma | ⟨word, listed, inside⟩
    · cases List.mem_singleton.mp comma
    · exact shape.closed (mem_of_mem_uncomment (Text.of_mem_words listed inside).1)

theorem getLast?_written (block : ListBlock) : block.written.getLast? = some ')' := by
  rw [written, List.getLast?_concat]

/-- What the rule claims is a block as it is written. -/
theorem of_claimed {previous : Option Char} {c : Char} {matched behind : Text} {block : ListBlock}
    (claimed : rule keywords previous (c :: (matched ++ behind)) =
      some (block, matched.length + 1)) :
    block.Shape keywords ∧ block.written = c :: matched := by
  obtain ⟨found, read, same⟩ := Option.map_eq_some_iff.mp claimed
  obtain ⟨rfl, width⟩ := Prod.mk.inj same
  obtain ⟨shape, written⟩ := read?_eq_some_iff.mp read
  refine ⟨shape, ?_⟩
  rw [List.prefix_iff_eq_take.mp written, width, List.take_succ_cons, List.take_left]

/-- A block is claimed where it stands with its shape. -/
theorem claimed_of_shape {block : ListBlock} (shape : block.Shape keywords)
    (previous : Option Char) (behind : Text) :
    rule keywords previous (block.written ++ behind) = some (block, block.written.length) := by
  rw [rule, read?_eq_some_iff.mpr ⟨shape, List.prefix_append _ _⟩, Option.map_some]

/-- Expanding replaces each block that is found by the same block with a flat body. -/
theorem replaces_rule (keywords : List Keyword) :
    (rule keywords).Replaces (fun block => block.written.length) edit?
      fun block => block.flat.written where
  fits := fits_rule keywords
  within _ _ _ made := bounds_of_edit? made
  replaced := by
    intro previous rest block found claimed position
    obtain ⟨_, read, same⟩ := Option.map_eq_some_iff.mp claimed
    cases same
    rw [← List.prefix_iff_eq_take.mp (written_isPrefix_of_read? read)]
    exact applyFrom_edit? position block

/-- A block begins with its parenthesis, flat or not. -/
theorem opens_rule (keywords : List Keyword) :
    (rule keywords).Opens (fun block => block.flat.written) '(' where
  claims := by
    intro previous rest found claimed
    obtain ⟨block, read, _⟩ := Option.map_eq_some_iff.mp claimed
    obtain ⟨behind, here⟩ := exists_eq_append_of_read? read
    rw [here]
    rfl
  replaces _ := rfl

/-- Nothing is rewritten in a text without closing parentheses. -/
theorem eq_self_of_unclosed
    (rewrites : Rewrites (rule keywords) (fun block => block.flat.written) reading source result)
    (unclosed : ')' ∉ source) : result = source := by
  induction rewrites with
  | nil reading => rfl
  | keep unclaimed others inductionHypothesis =>
      rw [inductionHypothesis fun member => unclosed (List.mem_cons_of_mem _ member)]
  | @replace _ c source _ matched behind block divided isCode claimed others =>
      subst divided
      have spelled := (of_claimed claimed).2
      have closing : ')' ∈ block.written := by simp [written]
      rw [spelled] at closing
      exact absurd (List.mem_append_left behind closing) unclosed

/-- A block that is found in a rewritten text was there before, perhaps with another body. -/
theorem exists_read?_of_rewrites
    (rewrites : Rewrites (rule keywords) (fun block => block.flat.written) reading source result)
    {c : Char} {block : ListBlock} (read : read? keywords (c :: result) = some block) :
    ∃ earlier, read? keywords (c :: source) = some earlier := by
  have shape := (read?_eq_some_iff.mp read).1
  obtain ⟨behind, here⟩ := exists_eq_append_of_read? read
  obtain ⟨rfl, rfl⟩ := List.cons.inj here
  have noOpening : '(' ∉ block.keyword.word ++ block.gap := fun member =>
    (shape.of_mem_head member).2.1 rfl
  -- Up to the body the two texts are the same, and both bodies begin with the same character.
  obtain ⟨rest, later, rfl, further⟩ := rewrites.exists_of_append (opens_rule keywords) noOpening
  have first : rest.head?.any isBlank = false := by
    rw [← further.head?_eq (opens_rule keywords), List.head?_append]
    cases body : block.body with
    | nil => rfl
    | cons d body => simpa [body] using shape.body
  have closed : ')' ∈ rest := by
    refine Classical.byContradiction fun unclosed => unclosed ?_
    rw [← eq_self_of_unclosed further unclosed]
    simp
  obtain ⟨after, divided⟩ := Text.exists_eq_takeWhile_append closed
  have unclosed : ')' ∉ rest.takeWhile fun d => d != ')' := fun member =>
    absurd (List.all_eq_true.mp List.all_takeWhile _ member) (by decide)
  generalize rest.takeWhile (fun d => d != ')') = body at divided unclosed
  subst divided
  refine ⟨⟨block.keyword, block.gap, body⟩, read?_eq_some_iff.mpr
    ⟨⟨shape.keyword, shape.gap, shape.blanks, ?_, unclosed⟩, after, by simp [written]⟩⟩
  cases body with
  | nil => rfl
  | cons d body => exact first

/-- A text whose blocks have been expanded is rewritten into itself. -/
theorem rewrites_self
    (rewrites : Rewrites (rule keywords) (fun block => block.flat.written) reading source result) :
    Rewrites (rule keywords) (fun block => block.flat.written) reading result result := by
  induction rewrites with
  | nil reading => exact .nil reading
  | @keep reading c source result unclaimed others inductionHypothesis =>
      have same := (others.alike (opens_rule keywords) rfl).step_eq reading c
      rw [same] at unclaimed inductionHypothesis
      refine .keep (fun isCode => Option.map_eq_none_iff.mpr ?_) inductionHypothesis
      refine Option.eq_none_iff_forall_ne_some.mpr fun block read => ?_
      obtain ⟨earlier, found⟩ := exists_read?_of_rewrites others read
      rw [Option.map_eq_none_iff.mp (unclaimed isCode)] at found
      cases found
  | @replace reading c source result matched behind block divided isCode claimed others
      inductionHypothesis =>
      subst divided
      obtain ⟨shape, spelled⟩ := of_claimed claimed
      obtain rfl : c = '(' := Option.some.inj ((opens_rule keywords).claims _ _ _ claimed)
      obtain ⟨fresh, inCode, beyond⟩ := beyond_of_plain rfl (by decide) isCode
      rw [beyond, ← spelled, getLast?_written] at inductionHypothesis
      -- The flat block is found again, and flattening it changes nothing.
      obtain ⟨inner, flat⟩ : ∃ inner, block.flat.written = '(' :: inner := ⟨_, rfl⟩
      have again : (reading.step '(' (inner ++ result)).1 = true := by
        have parenthesis : isPlain '(' = true := rfl
        rw [step_of_plain parenthesis fresh inCode]
      have found := claimed_of_shape shape.flat reading.previous result
      obtain ⟨-, -, same⟩ := beyond_of_plain rfl (by decide) again
      rw [← flat, getLast?_written] at same
      rw [flat, List.cons_append] at found
      have replaced := Rewrites.replace rfl again found (same ▸ inductionHypothesis)
      simp only [flat_flat] at replaced
      rwa [flat] at replaced ⊢

/-- Expanding list blocks is idempotent, and makes no text longer. -/
theorem expand_expand (keywords : List Keyword) (source : Text) :
    expand keywords (expand keywords source) = expand keywords source ∧
      (expand keywords source).length ≤ source.length := by
  have replaces := replaces_rule keywords
  constructor
  · exact replaces.rewrites_iff.mp (rewrites_self (replaces.rewrites_iff.mpr rfl))
  · have splices := Edit.splices_applyAll (ordered_edits keywords source)
    have bounded := splices.length_le 0 fun edit member => (of_mem_edits member).1
    rwa [Nat.zero_mul, Nat.add_zero] at bounded

end ListBlock

end Desugar
