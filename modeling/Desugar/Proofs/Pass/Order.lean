import Desugar.Pass
import Desugar.Proofs.Decimal.Padding

/-!
# The edits of a pass are in order

A scan jumps over what it matches, so its matches lie one behind the other in the text,
and an edit that stays inside its match cannot meet the next one. `Pass.ordered_edits`
concludes that every pass makes a list of edits which replaces exactly its stretches.
-/

namespace Desugar

/-- What a rule claims is as wide as the item it finds, and fits into the text. -/
def Rule.Fits {Item : Type} (rule : Rule Item) (width : Item → Nat) : Prop :=
  ∀ previous rest item found, rule previous rest = some (item, found) →
    found = width item ∧ 1 ≤ found ∧ found ≤ rest.length

namespace Edit

/-- Ordered edits lie behind their start. -/
theorem OrderedFrom.bounds {edits : List Edit} {length low : Nat}
    (ordered : OrderedFrom length low edits) {edit : Edit} (member : edit ∈ edits) :
    low ≤ edit.start ∧ edit.start ≤ edit.stop := by
  induction edits generalizing low with
  | nil => cases member
  | cons first edits inductionHypothesis =>
      obtain ⟨starts, stops, others⟩ := ordered
      rcases List.mem_cons.mp member with rfl | member
      · exact ⟨starts, stops⟩
      · have bounds := inductionHypothesis others member
        omega

/-- Ordered edits lie in the text, each behind the one before it. -/
theorem OrderedFrom.forall_and_pairwise {length position : Nat} {edits : List Edit}
    (ordered : OrderedFrom length position edits) :
    (∀ edit ∈ edits, edit.start ≤ edit.stop ∧ edit.stop ≤ length) ∧
      edits.Pairwise fun earlier later => earlier.stop ≤ later.start := by
  induction edits generalizing position with
  | nil => exact ⟨nofun, .nil⟩
  | cons edit edits inductionHypothesis =>
      obtain ⟨_, stops, others⟩ := ordered
      obtain ⟨bounded, apart⟩ := inductionHypothesis others
      refine ⟨fun other member => ?_, .cons (fun other member => ?_) apart⟩
      · rcases List.mem_cons.mp member with rfl | member
        · exact ⟨stops, others.position_le⟩
        · exact bounded other member
      · exact (others.bounds member).1

/-- Edits that are in order from a position on are so from any earlier one. -/
theorem OrderedFrom.weaken {edits : List Edit} {length low earlier : Nat}
    (ordered : OrderedFrom length low edits) (before : earlier ≤ low) :
    OrderedFrom length earlier edits := by
  cases edits with
  | nil => exact Nat.le_trans before ordered
  | cons edit edits =>
      obtain ⟨starts, stops, others⟩ := ordered
      exact ⟨Nat.le_trans before starts, stops, others⟩

/-- Edits whose stretches are replaced are in order, and the result is what applying them
makes. -/
theorem SplicesFrom.ordered_and_eq {position : Nat} {edits : List Edit}
    {before after : Text} (splices : SplicesFrom position edits before after) :
    OrderedFrom (position + before.length) position edits ∧
      after = applyFrom position edits before := by
  induction splices with
  | rest kept => exact ⟨Nat.le_add_right _ _, rfl⟩
  | @edit position edit edits before after kept removed starts stops others inductionHypothesis =>
      obtain ⟨ordered, applied⟩ := inductionHypothesis
      have width : position + (kept ++ removed ++ before).length = edit.stop + before.length := by
        simp only [List.length_append]
        omega
      have start : edit.start - position = kept.length := by omega
      have stop : edit.stop - position = (kept ++ removed).length := by
        rw [List.length_append]
        omega
      have taken : (kept ++ removed ++ before).take kept.length = kept := by
        rw [List.append_assoc, List.take_left]
      refine ⟨⟨by omega, by omega, width ▸ ordered⟩, ?_⟩
      rw [applyFrom, start, stop, taken, List.drop_left, ← applied]

/-- A stretch before all edits stays. -/
theorem applyFrom_of_le {edits : List Edit} {rest : Text} {position width : Nat}
    (later : ∀ edit ∈ edits, position + width ≤ edit.start)
    (stops : ∀ edit ∈ edits, edit.start ≤ edit.stop) :
    applyFrom position edits rest =
      rest.take width ++ applyFrom (position + width) edits (rest.drop width) := by
  cases edits with
  | nil => rw [applyFrom_nil, applyFrom_nil, List.take_append_drop]
  | cons edit edits =>
      have starts := later edit (List.mem_cons_self ..)
      have ends := stops edit (List.mem_cons_self ..)
      have kept : rest.take (edit.start - position) =
          rest.take width ++ (rest.drop width).take (edit.start - (position + width)) := by
        rw [← List.take_add]
        congr 1
        omega
      have dropped : rest.drop (edit.stop - position) =
          (rest.drop width).drop (edit.stop - (position + width)) := by
        rw [List.drop_drop]
        congr 1
        omega
      rw [applyFrom, applyFrom, kept, dropped]
      simp only [List.append_assoc]

/-- Edits inside the matches of a scan are in order. The next match begins behind the
characters that are still to be passed over. -/
theorem orderedFrom_collect {Item : Type} {rule : Rule Item} {width : Item → Nat}
    (fits : rule.Fits width) {edit? : Nat → Item → Option Edit}
    (within : ∀ position item edit, edit? position item = some edit →
      position ≤ edit.start ∧ edit.start ≤ edit.stop ∧ edit.stop ≤ position + width item)
    {pending : Nat} {previous : Option Char} {cursor : Cursor} {rest : Text} {low length : Nat}
    (ends : cursor.position + rest.length = length) (reached : low ≤ cursor.position + pending)
    (inside : low ≤ length) :
    OrderedFrom length low
      ((cursor.collect rule pending previous rest).filterMap fun found =>
        edit? found.1 found.2) := by
  induction rest generalizing pending previous cursor low with
  | nil => exact inside
  | cons c rest inductionHypothesis =>
      rw [List.length_cons, ← Nat.add_assoc, Nat.add_right_comm] at ends
      cases pending with
      | succ pending =>
          rw [Cursor.collect]
          exact inductionHypothesis ends (by simp only; omega) inside
      | zero =>
          rw [Cursor.collect]
          split
          · exact inductionHypothesis ends (by simp only; omega) inside
          · split
            · exact inductionHypothesis ends (by simp only; omega) inside
            · next item found claimed =>
              obtain ⟨rfl, positive, bounded⟩ := fits _ _ _ _ claimed
              rw [List.length_cons] at bounded
              rw [List.filterMap_cons]
              cases made : edit? cursor.position item with
              | none => exact inductionHypothesis ends (by simp only; omega) inside
              | some edit =>
                  obtain ⟨starts, ordered, stops⟩ := within _ _ _ made
                  refine ⟨by omega, ordered, ?_⟩
                  exact inductionHypothesis ends (by simp only; omega) (by omega)

/-- Edits inside the matches of a scan of a source are in order. -/
theorem ordered_scan {Item : Type} {rule : Rule Item} {width : Item → Nat}
    (fits : rule.Fits width) (edit? : Nat → Item → Option Edit)
    (within : ∀ position item edit, edit? position item = some edit →
      position ≤ edit.start ∧ edit.start ≤ edit.stop ∧ edit.stop ≤ position + width item)
    (source : Text) :
    Ordered source ((source.scan rule).filterMap fun found => edit? found.1 found.2) :=
  orderedFrom_collect fits within (Nat.zero_add _) (Nat.le_refl _) (Nat.zero_le _)

/-- Edits that replace the matches of a scan of a source whole are in order. -/
theorem ordered_scan_map {Item : Type} {rule : Rule Item} {width : Item → Nat}
    (fits : rule.Fits width) (text : Item → Text) (source : Text) :
    Ordered source ((source.scan rule).map fun (position, item) =>
      ⟨position, position + width item, text item⟩) := by
  rw [← List.filterMap_eq_map]
  refine ordered_scan fits (fun position item => some ⟨position, position + width item, text item⟩)
    ?_ source
  intro position item edit made
  cases made
  simp only
  omega

/-- Insertions at ascending positions of a source are in order. -/
theorem orderedFrom_insertions {length position : Nat} {gaps : List Nat} {text : Text}
    (ascending : gaps.Pairwise (· < ·)) (inside : ∀ gap ∈ gaps, position ≤ gap ∧ gap ≤ length)
    (starts : position ≤ length) :
    OrderedFrom length position (gaps.map (insertion · text)) := by
  induction gaps generalizing position with
  | nil => exact starts
  | cons gap gaps inductionHypothesis =>
      obtain ⟨later, ascending⟩ := List.pairwise_cons.mp ascending
      obtain ⟨here, bounded⟩ := inside gap (List.mem_cons_self ..)
      refine ⟨here, Nat.le_refl _, inductionHypothesis ascending ?_ bounded⟩
      intro other member
      exact ⟨Nat.le_of_lt (later other member), (inside other (List.mem_cons_of_mem _ member)).2⟩

end Edit

namespace ListBlock

theorem fits_rule (keywords : List Keyword) :
    (rule keywords).Fits fun block => block.written.length := by
  intro previous rest block found claimed
  obtain ⟨_, read, same⟩ := Option.map_eq_some_iff.mp claimed
  cases same
  have bounded := (written_isPrefix_of_read? read).length_le
  refine ⟨rfl, ?_, bounded⟩
  rw [length_written]
  omega

/-- A block that is found is read where it is found. -/
theorem read?_of_mem_all {keywords : List Keyword} {source : Text} {position : Nat}
    {block : ListBlock} (found : (position, block) ∈ all keywords source) :
    read? keywords (source.drop position) = some block := by
  obtain ⟨width, claimed⟩ := Text.claimed_of_mem_scan found
  obtain ⟨_, read, same⟩ := Option.map_eq_some_iff.mp claimed
  cases same
  exact read

/-- The edit that flattens a body lies inside its block. -/
theorem bounds_of_edit? {position : Nat} {block : ListBlock} {edit : Edit}
    (made : edit? position block = some edit) :
    position ≤ edit.start ∧ edit.start ≤ edit.stop ∧
      edit.stop ≤ position + block.written.length := by
  unfold edit? at made
  dsimp only at made
  split at made
  · cases made
  · cases made
    rw [length_written]
    simp only
    omega

/-- The edit that flattens a body makes the block with the flattened body. -/
theorem applyFrom_edit? (position : Nat) (block : ListBlock) :
    Edit.applyFrom position (edit? position block).toList block.written =
      { block with body := flattenBody block.body }.written := by
  have divided : block.written =
      '(' :: (block.keyword.word ++ block.gap) ++ (block.body ++ [')']) := by
    simp [written]
  rw [edit?]
  by_cases flat : flattenBody block.body = block.body
  · rw [if_pos flat, flat]
    rfl
  · have start : position + block.headWidth - position = block.headWidth := by omega
    have stop : position + block.headWidth + block.body.length - position =
        block.headWidth + block.body.length := by omega
    rw [if_neg flat, Option.toList_some]
    simp only [Edit.applyFrom, start, stop]
    rw [divided, ← List.drop_drop, ← length_head, List.take_left, List.drop_left, List.drop_left]
    simp [written]

theorem ordered_edits (keywords : List Keyword) (source : Text) :
    Edit.Ordered source (edits keywords source) :=
  Edit.ordered_scan (fits_rule keywords) edit? (fun _ _ _ made => bounds_of_edit? made) source

end ListBlock

namespace PrefixCall

theorem fits_rule (name : Text) : (rule name).Fits fun call => (call.written name).length := by
  intro previous rest call found claimed
  obtain ⟨_, read, same⟩ := Option.map_eq_some_iff.mp claimed
  cases same
  have bounded := (written_isPrefix_of_read? read).length_le
  refine ⟨rfl, ?_, bounded⟩
  simp [written]

/-- A prefix call that is found is read where it is found. -/
theorem read?_of_mem_scan {name source : Text} {position : Nat} {call : PrefixCall}
    (found : (position, call) ∈ source.scan (rule name)) :
    read? name (source.drop position) = some call := by
  obtain ⟨width, claimed⟩ := Text.claimed_of_mem_scan found
  obtain ⟨_, read, same⟩ := Option.map_eq_some_iff.mp claimed
  cases same
  exact read

end PrefixCall

namespace SymbolPath

theorem fits_rule : rule.Fits fun path => path.written.length := by
  intro previous rest path found claimed
  obtain ⟨_, read, same⟩ := Option.map_eq_some_iff.mp claimed
  cases same
  have bounded := (written_isPrefix_of_read? read).length_le
  refine ⟨rfl, ?_, bounded⟩
  obtain ⟨segments, enough⟩ := path
  cases segments with
  | nil => cases enough
  | cons segment segments => simp [written]

/-- A path that is found is read where it is found. -/
theorem read?_of_mem_scan {source : Text} {position : Nat} {path : SymbolPath}
    (found : (position, path) ∈ source.scan rule) :
    read? (source.before? position) (source.drop position) = some path := by
  obtain ⟨width, claimed⟩ := Text.claimed_of_mem_scan found
  obtain ⟨_, read, same⟩ := Option.map_eq_some_iff.mp claimed
  cases same
  exact read

end SymbolPath

/-- Every pass makes edits that are in order. -/
theorem Pass.ordered_edits (pass : Pass) (source : Text) :
    Edit.Ordered source (pass.edits source) := by
  cases pass with
  | listBlocks keywords => exact ListBlock.ordered_edits keywords source
  | callSpacing name =>
      exact Edit.ordered_scan_map (PrefixCall.fits_rule name) (fun call => call.respaced name)
        source
  | symbolPaths constructor =>
      exact Edit.ordered_scan_map SymbolPath.fits_rule (fun path => path.call constructor) source
  | trailingDots =>
      rw [edits, Decimal.trailingEdits_eq_map]
      refine Edit.orderedFrom_insertions (Decimal.pairwise_trailingGaps source) ?_ (Nat.zero_le _)
      exact fun gap member => ⟨Nat.zero_le _, Decimal.le_length_of_mem_trailingGaps member⟩
  | leadingDots =>
      rw [edits, Decimal.leadingEdits_eq_map]
      refine Edit.orderedFrom_insertions (Decimal.pairwise_leadingGaps source) ?_ (Nat.zero_le _)
      exact fun gap member => ⟨Nat.zero_le _, Decimal.le_length_of_mem_leadingGaps member⟩

end Desugar
