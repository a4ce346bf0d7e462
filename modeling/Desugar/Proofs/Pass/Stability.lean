import Desugar.Proofs.Pass.Quiet
import Desugar.Proofs.Pass.Target

/-!
# Texts without sugar

A pass that keeps code code and leaves clear what is looked for makes nothing of the kind:
`Target.Absent.run` says so of what was absent before, and `Pass.absent_run` of what the pass
looks for itself, all of which it has rewritten. A text without it is left as it is, by
`Pass.run_eq_self`.
-/

namespace Desugar

/-- Nothing of the kind stands in the code of a text. -/
def Target.Absent (target : Target) (text : Text) : Prop :=
  ∀ position, text.isCodeAt position = true →
    target.reach? (text.before? position) (text.drop position) = none

/-- No assignment is looked for where none occurs. -/
theorem Target.absent_assignment_iff {name text : Text} :
    Target.Absent (.assignment name) text ↔
      ∀ position, ¬ Assignment.Occurs text name position := by
  have stands (previous : Option Char) (rest : Text) :
      Assignment.reach? name previous rest = none ↔
        ¬ Assignment.standsAt name previous rest = true := by
    rw [Assignment.reach?]
    split <;> simp [*]
  refine forall_congr' fun position => ?_
  rw [Assignment.occurs_iff, Bool.and_eq_true, not_and, Target.reach?, stands]

namespace Pass

/-- In the text that a pass leaves, whatever of the kind stands in code is clear of what the
pass has written. -/
def LeavesClear (pass : Pass) (text : Text) (target : Target) : Prop :=
  ∀ place < (pass.run text).length, (pass.run text).isCodeAt place = true →
    ∀ reach ∈ target.reach? ((pass.run text).before? place) ((pass.run text).drop place),
      Edit.Clear (pass.edits text) place reach

instance (pass : Pass) (text : Text) (target : Target) :
    Decidable (pass.LeavesClear text target) :=
  inferInstanceAs (Decidable (∀ place < (pass.run text).length, _))

variable {pass : Pass} {target : Target} {text : Text}

/-- What stands clear in the code that a pass leaves has stood in the code before, apart from
all edits. -/
theorem exists_kept (keeps : pass.KeepsCode text) (clear : pass.LeavesClear text target)
    {place reach : Nat} (isCode : (pass.run text).isCodeAt place = true)
    (found : target.reach? ((pass.run text).before? place) ((pass.run text).drop place) =
      some reach) :
    ∃ position, text.isCodeAt position = true ∧
      target.reach? (text.before? position) (text.drop position) = some reach ∧
      ∀ edit ∈ pass.edits text, edit.stop < position ∨ position + reach ≤ edit.start := by
  have inside := Text.lt_length_of_isCodeAt isCode
  have positive := Target.one_le_reach? found
  obtain ⟨position, apart, lands, before, same⟩ := Edit.exists_landing (pass.ordered_edits text)
    positive (clear place inside isCode reach found)
  have kept : Edit.Keeps (pass.edits text) position := by
    intro edit member
    have away := apart edit member
    omega
  have within : position < text.length := by
    have widths := congrArg List.length same
    have width : (Edit.applyAll (pass.edits text) text).length = (pass.run text).length := rfl
    rw [List.length_take, List.length_take, List.length_drop, List.length_drop] at widths
    omega
  refine ⟨position, ?_, ?_, apart⟩
  · rw [← keeps position within kept, lands]
    exact isCode
  · rw [before]
    exact Target.reach?_congr found same

end Pass

/-- What is absent stays absent behind a pass that leaves it clear. -/
theorem Target.Absent.run {pass : Pass} {target : Target} {text : Text}
    (absent : target.Absent text) (keeps : pass.KeepsCode text)
    (clear : pass.LeavesClear text target) : target.Absent (pass.run text) := by
  intro place isCode
  refine Option.eq_none_iff_forall_ne_some.mpr fun reach found => ?_
  obtain ⟨position, stood, earlier, _⟩ := Pass.exists_kept keeps clear isCode found
  rw [absent position stood] at earlier
  cases earlier

namespace ListBlock

/-- A flattened body has no blanks. -/
theorem not_isBlank_of_mem_flattenBody {body : Text} {c : Char} (member : c ∈ flattenBody body) :
    isBlank c = false := by
  rcases Text.of_mem_intercalate member with comma | ⟨word, listed, inside⟩
  · rw [List.mem_singleton.mp comma]
    rfl
  · exact (Text.of_mem_words listed inside).2

/-- A block that begins inside another one begins in its body, and has a blank there. -/
theorem exists_blank_of_inside {keywords : List Keyword} {outer inner : ListBlock}
    {rest : Text} {distance : Nat} (outside : read? keywords rest = some outer)
    (inside : read? keywords (rest.drop distance) = some inner) (later : 1 ≤ distance)
    (within : distance < outer.written.length) :
    outer.headWidth ≤ distance ∧ ∃ c ∈ outer.body, isBlank c = true := by
  have outerShape := (read?_eq_some_iff.mp outside).1
  have innerShape := (read?_eq_some_iff.mp inside).1
  obtain ⟨behind, divided⟩ := exists_eq_append_of_read? outside
  obtain ⟨further, innerDivided⟩ := exists_eq_append_of_read? inside
  have width := length_head outer
  -- Its parenthesis cannot be a character of the keyword or of the gap.
  have inBody : outer.headWidth ≤ distance := by
    refine Nat.le_of_not_lt fun inHead => ?_
    have character : rest[distance]? = some '(' := by
      rw [← List.head?_drop, innerDivided]
      rfl
    rw [divided, List.getElem?_append_left (by omega)] at character
    obtain ⟨before, rfl⟩ := Nat.exists_eq_add_of_le' later
    rw [List.getElem?_cons_succ] at character
    exact (outerShape.of_mem_head (List.mem_of_getElem? character)).2.1 rfl
  refine ⟨inBody, ?_⟩
  -- The two agree up to the parenthesis that closes the body.
  obtain ⟨skipped, rfl⟩ := Nat.exists_eq_add_of_le inBody
  rw [length_written] at within
  have shared : outer.body.drop skipped ++ ')' :: behind =
      '(' :: (inner.keyword.word ++ inner.gap) ++ (inner.body ++ ')' :: further) := by
    rw [← innerDivided, divided, ← width, ← List.drop_drop, List.drop_left,
      List.drop_append_of_le_length (by omega)]
  have unclosed : ∀ c ∈ outer.body.drop skipped, (c != ')') = true := by
    intro c member
    rw [bne_iff_ne]
    rintro rfl
    exact outerShape.closed (List.mem_of_mem_drop member)
  have head : ∀ c ∈ '(' :: (inner.keyword.word ++ inner.gap), (c != ')') = true := by
    intro c member
    rw [bne_iff_ne]
    rcases List.mem_cons.mp member with rfl | member
    · decide
    · exact (innerShape.of_mem_head member).2.2
  have body := (Text.takeWhile_append unclosed rfl : (_ ++ ')' :: behind).takeWhile _ = _ ∧ _).1
  rw [shared, List.takeWhile_append_of_pos head] at body
  obtain ⟨c, others, gap⟩ := List.exists_cons_of_ne_nil innerShape.gap
  refine ⟨c, List.mem_of_mem_drop (i := skipped) ?_, innerShape.blanks c (by simp [gap])⟩
  rw [← body, gap]
  simp

/-- Where a block stands in code whose body is not flat, a body is edited. -/
theorem exists_edit {keywords : List Keyword} {text : Text} {block : ListBlock}
    {position : Nat} (inStep : ∀ found ∈ all keywords text, InStep text found)
    (isCode : text.isCodeAt position = true)
    (read : read? keywords (text.drop position) = some block)
    (uneven : flattenBody block.body ≠ block.body) :
    ∃ edit ∈ edits keywords text,
      position ≤ edit.stop ∧ edit.start < position + block.written.length := by
  have claims : rule keywords (text.before? position) (text.drop position) ≠ none := by
    rw [rule, read]
    exact nofun
  obtain ⟨⟨start, outer⟩, member, starts, stops⟩ :=
    Text.exists_mem_scan (fits_rule keywords) inStep isCode claims
  have outside := read?_of_mem_all member
  obtain ⟨distance, rfl⟩ := Nat.exists_eq_add_of_le starts
  rw [← List.drop_drop] at read
  have edited (different : flattenBody outer.body ≠ outer.body) :
      ⟨start + outer.headWidth, start + outer.headWidth + outer.body.length,
        flattenBody outer.body⟩ ∈ edits keywords text :=
    List.mem_filterMap.mpr ⟨_, member, by rw [edit?, if_neg different]⟩
  simp only [length_written] at stops ⊢
  rcases Nat.eq_zero_or_pos distance with rfl | later
  · rw [List.drop_zero, outside] at read
    cases read
    refine ⟨_, edited uneven, ?_⟩
    simp only
    omega
  · obtain ⟨inBody, c, inside, blank⟩ :=
      exists_blank_of_inside outside read later (by rw [length_written]; omega)
    refine ⟨_, edited fun flat => ?_, ?_⟩
    · rw [← flat] at inside
      rw [not_isBlank_of_mem_flattenBody inside] at blank
      cases blank
    · simp only
      omega

end ListBlock

namespace Pass

variable {pass : Pass} {text : Text} {position reach : Nat}

/-- Where something stands in code that a pass looks for, the pass makes an edit. -/
theorem exists_edit (inStep : pass.InStep text) (isCode : text.isCodeAt position = true)
    (found : Target.reach? (.sugar pass) (text.before? position) (text.drop position) =
      some reach) :
    ∃ edit ∈ pass.edits text, position ≤ edit.stop ∧ edit.start < position + reach := by
  cases pass with
  | listBlocks keywords =>
      obtain ⟨block, read, uneven, rfl⟩ := ListBlock.reach?_eq_some found
      exact ListBlock.exists_edit inStep isCode read uneven
  | callSpacing name =>
      obtain ⟨call, read, rfl⟩ := Option.map_eq_some_iff.mp found
      have claims : PrefixCall.rule name (text.before? position) (text.drop position) ≠ none := by
        rw [PrefixCall.rule, read]
        exact nofun
      obtain ⟨⟨start, other⟩, member, starts, stops⟩ :=
        Text.exists_mem_scan (PrefixCall.fits_rule name) inStep isCode claims
      refine ⟨_, List.mem_map_of_mem member, Nat.le_of_lt stops, ?_⟩
      exact Nat.lt_of_le_of_lt starts (by omega)
  | symbolPaths constructor =>
      obtain ⟨path, read, rfl⟩ := Option.map_eq_some_iff.mp found
      have claims : SymbolPath.rule (text.before? position) (text.drop position) ≠ none := by
        rw [SymbolPath.rule, read]
        exact nofun
      obtain ⟨⟨start, other⟩, member, starts, stops⟩ :=
        Text.exists_mem_scan SymbolPath.fits_rule inStep isCode claims
      refine ⟨_, List.mem_map_of_mem member, Nat.le_of_lt stops, ?_⟩
      exact Nat.lt_of_le_of_lt starts (by omega)
  | trailingDots =>
      obtain ⟨width, trailing, rfl⟩ := Option.map_eq_some_iff.mp found
      have member : (position, width) ∈ text.scan Decimal.trailingRule :=
        (Text.mem_scan Decimal.single_trailingRule).mpr
          ⟨isCode, by rw [Decimal.trailingRule, trailing, Option.map_some]⟩
      exact ⟨_, List.mem_map_of_mem member, Nat.le_add_right _ _, Nat.lt_succ_self _⟩
  | leadingDots =>
      have positive := Target.one_le_reach? found
      rw [Target.reach?, Decimal.leadingReach?] at found
      split at found
      · next leads =>
        have member : (position, ()) ∈ text.scan Decimal.leadingRule :=
          (Text.mem_scan Decimal.single_leadingRule).mpr
            ⟨isCode, by rw [Decimal.leadingRule, if_pos leads]⟩
        exact ⟨_, List.mem_map_of_mem member, Nat.le_refl _, Nat.lt_add_of_pos_right positive⟩
      · cases found

/-- Behind a pass nothing is left of what it looks for. -/
theorem absent_run (inStep : pass.InStep text) (keeps : pass.KeepsCode text)
    (clear : pass.LeavesClear text (.sugar pass)) :
    Target.Absent (.sugar pass) (pass.run text) := by
  intro place isCode
  refine Option.eq_none_iff_forall_ne_some.mpr fun reach found => ?_
  obtain ⟨position, stood, earlier, apart⟩ := exists_kept keeps clear isCode found
  obtain ⟨edit, member, starts, stops⟩ := exists_edit inStep stood earlier
  have away := apart edit member
  omega

/-- A pass has nothing to do where nothing that it looks for stands in code. List blocks must
not be found anywhere else. -/
theorem edits_eq_nil (absent : Target.Absent (.sugar pass) text)
    (blocks : ∀ keywords, pass = .listBlocks keywords → (listBlocks keywords).InStep text) :
    pass.edits text = [] := by
  cases pass with
  | listBlocks keywords =>
      have inStep := blocks keywords rfl
      refine List.filterMap_eq_nil_iff.mpr ?_
      rintro ⟨position, block⟩ member
      have read := ListBlock.read?_of_mem_all member
      have isCode := Text.isCodeAt_of_mem_scan (ListBlock.fits_rule keywords) member
        fun earlier listed _ => inStep earlier listed
      have nothing : (ListBlock.read? keywords (text.drop position)).bind _ = none :=
        absent position isCode
      rw [read, Option.bind_some] at nothing
      split at nothing
      · next flat => rw [ListBlock.edit?, if_pos flat]
      · cases nothing
  | callSpacing name =>
      refine List.map_eq_nil_iff.mpr (Text.scan_eq_nil fun place isCode => ?_)
      have nothing : (PrefixCall.read? name (text.drop place)).map _ = none := absent place isCode
      rw [PrefixCall.rule, Option.map_eq_none_iff.mp nothing, Option.map_none]
  | symbolPaths constructor =>
      refine List.map_eq_nil_iff.mpr (Text.scan_eq_nil fun place isCode => ?_)
      have nothing : (SymbolPath.read? (text.before? place) (text.drop place)).map _ = none :=
        absent place isCode
      rw [SymbolPath.rule, Option.map_eq_none_iff.mp nothing, Option.map_none]
  | trailingDots =>
      refine List.map_eq_nil_iff.mpr (Text.scan_eq_nil fun place isCode => ?_)
      have nothing : (Decimal.trailingDot? (text.before? place) (text.drop place)).map _ = none :=
        absent place isCode
      rw [Decimal.trailingRule, Option.map_eq_none_iff.mp nothing, Option.map_none]
  | leadingDots =>
      refine List.map_eq_nil_iff.mpr (Text.scan_eq_nil fun place isCode => ?_)
      have nothing := absent place isCode
      rw [Target.reach?, Decimal.leadingReach?] at nothing
      split at nothing
      · cases nothing
      · next leads => rw [Decimal.leadingRule, if_neg leads]

/-- A pass leaves a text as it is where it has nothing to do. -/
theorem run_eq_self (absent : Target.Absent (.sugar pass) text)
    (blocks : ∀ keywords, pass = .listBlocks keywords → (listBlocks keywords).InStep text) :
    pass.run text = text := by
  rw [run, edits_eq_nil absent blocks, Edit.applyAll_nil]

end Pass

end Desugar
