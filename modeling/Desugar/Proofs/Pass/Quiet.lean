import Desugar.Proofs.Decimal.Alignment
import Desugar.Proofs.Pass.Kept
import Desugar.Proofs.Sugar.BlockPlaces
import Desugar.Proofs.Sugar.Neutrality
import Desugar.Proofs.Sugar.Shape

/-!
# Passes that leave the reading alone

A pass rewrites some of a text and keeps the rest. `Pass.KeepsCode` says that what it keeps of
the code is code again, and nothing else of what it keeps, and `Pass.InStep` that what it
jumps over does not mislead it. Both depend on the strings and comments of the text.
`Pass.isQuiet` tells when they cannot fail: as long as no quote, brace or question mark has a
part in what is rewritten.
-/

namespace Desugar

open Reading

namespace Edit

/-- A neutral edit for which no code is found elsewhere in what is read before it. -/
structure Silent (source : Text) (edit : Edit) : Prop extends Neutral source edit where
  unmarked : ∀ (reading : Reading) (kept behind : Text), kept ≠ [] →
    kept.getLast? = source.before? edit.start →
      reading.marks kept (source.drop edit.start) = reading.marks kept (edit.text ++ behind)

variable {source : Text} {edits : List Edit} {low start position : Nat}

/-- What silent edits keep is marked as before. -/
theorem exists_marks_applyFrom (ordered : OrderedFrom source.length low edits)
    (silent : ∀ edit ∈ edits, edit.Silent source) {reading : Reading}
    (agree : Agree (source.drop low) (source.readingAt low) reading)
    (kept : Keeps edits position) (reached : low ≤ position) (inside : position < source.length) :
    ∃ index, landingFrom low start edits position = start + index ∧
      (reading.marks (applyFrom low edits (source.drop low)) [])[index]? =
        some (source.isCodeAt position) := by
  induction edits generalizing low start reading with
  | nil =>
      rw [← List.append_nil (source.drop low)] at agree
      refine ⟨position - low, rfl, ?_⟩
      rw [applyFrom_nil, ← agree.marks_eq]
      exact Text.getElem?_marks reached inside
  | cons edit edits inductionHypothesis =>
      obtain ⟨starts, stops, others⟩ := ordered
      have bounded := others.position_le
      obtain ⟨between, here, place⟩ :=
        Text.exists_drop_eq_append starts (Nat.le_trans stops bounded)
      have divided : applyFrom low (edit :: edits) (source.drop low) =
          between ++ (edit.text ++ applyFrom edit.stop edits (source.drop edit.stop)) := by
        have behind : low + (edit.stop - low) = edit.stop := by omega
        rw [applyFrom, List.drop_drop, behind, here, ← place, Nat.add_sub_cancel_left,
          List.take_left, List.append_assoc]
      have quiet := silent edit (List.mem_cons_self ..)
      rw [divided, marks_append, List.append_nil]
      rcases kept edit (List.mem_cons_self ..) with behind | before
      · -- The position lies behind the first edit, which leaves the reading as it was.
        have further := quiet.toNeutral.agree here place (Nat.le_trans stops bounded) agree
          (applyFrom edit.stop edits (source.drop edit.stop))
        obtain ⟨index, lands, marked⟩ : ∃ index, landingFrom edit.stop
            (start + (edit.start - low) + edit.text.length) edits position =
              start + (edit.start - low) + edit.text.length + index ∧ _ :=
          inductionHypothesis others
            (fun other member => silent other (List.mem_cons_of_mem _ member)) further
            (fun other member => kept other (List.mem_cons_of_mem _ member)) behind
        refine ⟨between.length + (edit.text.length + index), ?_, ?_⟩
        · rw [landingFrom, if_pos behind, lands]
          omega
        · rw [marks_append, List.append_nil, ← length_marks _ between, List.getElem?_append_right,
            Nat.add_sub_cancel_left, ← length_marks _ edit.text, List.getElem?_append_right,
            Nat.add_sub_cancel_left, marked]
          · exact Nat.le_add_right _ _
          · exact Nat.le_add_right _ _
      · -- The position lies before the first edit, which is not seen from there.
        have within : position - low < between.length := by omega
        have nonempty : between ≠ [] := List.ne_nil_of_length_pos (by omega)
        have last := Text.getLast?_eq_before? here place (Nat.le_trans stops bounded) nonempty
        refine ⟨position - low, ?_, ?_⟩
        · rw [landingFrom, if_neg (by omega)]
        · have marked := Text.getElem?_marks reached inside
          rw [here] at agree
          rw [here, marks_append, List.append_nil,
            List.getElem?_append_left (by rwa [length_marks])] at marked
          rw [List.getElem?_append_left (by rwa [length_marks]),
            ← quiet.unmarked reading between _ nonempty last, ← agree.marks_eq, marked]

/-- What silent edits keep is code if it was before. -/
theorem isCodeAt_landing (ordered : Ordered source edits)
    (silent : ∀ edit ∈ edits, edit.Silent source) (kept : Keeps edits position)
    (inside : position < source.length) :
    (applyAll edits source).isCodeAt (landing edits position) = source.isCodeAt position := by
  have agree : Agree (source.drop 0) (source.readingAt 0) Reading.start :=
    ⟨rfl, rfl, fun _ => rfl⟩
  obtain ⟨index, lands, marked⟩ : ∃ index, landing edits position = 0 + index ∧ _ :=
    exists_marks_applyFrom ordered silent agree kept (Nat.zero_le _) inside
  rw [Nat.zero_add] at lands
  have within : index < (applyAll edits source).length := by
    rw [← length_marks Reading.start _ []]
    exact (List.getElem?_eq_some_iff.mp marked).1
  have there := Text.getElem?_marks (Nat.zero_le index) within
  rw [lands]
  exact Option.some.inj (there.symm.trans marked)

end Edit

/-- Prefix calls to a plain name all stand in code. -/
theorem PrefixCall.inStep_of_mem_scan {name text : Text}
    (plainName : ∀ c ∈ name, isPlain c = true) {found : Nat × PrefixCall}
    (member : found ∈ text.scan (rule name)) :
    text.isCodeAt found.1 = true ∧ text.InStep found.1 (found.2.written name).length := by
  refine Text.inStep_of_mem_scan (fits_rule name) (fun other listed isCode => ?_) member
  have read := read?_of_mem_scan listed
  obtain ⟨behind, written⟩ := written_isPrefix_of_read? read
  exact Text.inStep_of_plain written.symm isCode nofun nofun (isPlain_of_mem_written plainName read)

namespace SymbolPath

variable {constructor text : Text} {position : Nat} {path : SymbolPath}

theorem exists_colon_of_read? {previous : Option Char} (read : read? previous text = some path) :
    ∃ rest, text = ':' :: rest := by
  unfold read? at read
  split at read
  · exact ⟨_, rfl⟩
  · cases read

/-- A path that begins in code leaves the same strings open. -/
theorem nesting_of_read? (read : read? (text.before? position) (text.drop position) = some path)
    (isCode : text.isCodeAt position = true) :
    (text.readingAt position).mode = .fresh ∧ InCode (text.readingAt position).nesting ∧
      (text.readingAt (position + path.written.length)).nesting =
        (text.readingAt position).nesting := by
  obtain ⟨rest, colon⟩ := exists_colon_of_read? read
  obtain ⟨behind, here, _, chain⟩ := exists_behind_of_read? read
  rw [Text.isCodeAt_eq colon] at isCode
  obtain ⟨fresh, inCode⟩ := of_step_code isCode (by decide)
  refine ⟨fresh, inCode, ?_⟩
  rw [Text.readingAt_add here]
  exact after_nesting (fun c member => (of_isChain (chain c member)).1) (.inl fresh) inCode _

/-- A path that begins in code is in step, unless its last character is read as the start of a
character literal. -/
theorem inStep_of_fresh (read : read? (text.before? position) (text.drop position) = some path)
    (isCode : text.isCodeAt position = true)
    (closed : (text.readingAt (position + path.written.length)).mode = .fresh) :
    text.InStep position path.written.length := by
  obtain ⟨rest, colon⟩ := exists_colon_of_read? read
  obtain ⟨_, _, nesting⟩ := nesting_of_read? read isCode
  exact Text.inStep_of_nesting colon isCode rfl (by decide) closed nesting

/-- If no path ends where a character literal starts, all paths stand in code. -/
theorem inStep_of_mem_scan
    (closed : ∀ found ∈ text.scan rule,
      (text.readingAt (found.1 + found.2.written.length)).mode = .fresh)
    {found : Nat × SymbolPath} (member : found ∈ text.scan rule) :
    text.isCodeAt found.1 = true ∧ text.InStep found.1 found.2.written.length := by
  refine Text.inStep_of_mem_scan fits_rule (fun other listed isCode => ?_) member
  exact inStep_of_fresh (read?_of_mem_scan listed) isCode (closed other listed)

/-- Folding paths is silent, if none of them ends where a character literal starts. -/
theorem silent (plain : ∀ c ∈ constructor, isPlain c = true)
    (noWord : constructor.head?.any isWord = false)
    (closed : ∀ found ∈ text.scan rule,
      (text.readingAt (found.1 + found.2.written.length)).mode = .fresh)
    {edit : Edit} (member : edit ∈ edits constructor text) : edit.Silent text := by
  obtain ⟨⟨position, path⟩, found, made⟩ := List.mem_map.mp member
  have read := read?_of_mem_scan found
  obtain ⟨fresh, inCode, _⟩ := nesting_of_read? read (inStep_of_mem_scan closed found).1
  have stands : edit.standsInCode text = true := by
    rw [← made]
    exact Edit.standsInCode_iff.mpr ⟨fresh, inCode, closed _ found⟩
  refine ⟨neutral plain noWord member stands, fun reading kept other _ _ => ?_⟩
  obtain ⟨behind, here, _⟩ := exists_behind_of_read? read
  rw [← made]
  exact (alike_call plain noWord behind other here).marks_eq reading

end SymbolPath

namespace ListBlock

variable {keywords : List Keyword} {text : Text} {position : Nat} {block : ListBlock}

/-- Before the body of a block that begins in code, the reading is where it was. -/
theorem readingAt_body (read : read? keywords (text.drop position) = some block)
    (isCode : text.isCodeAt position = true) :
    (text.readingAt (position + block.headWidth)).mode = .fresh ∧
      InCode (text.readingAt (position + block.headWidth)).nesting ∧
      (text.readingAt (position + block.headWidth)).nesting =
        (text.readingAt position).nesting := by
  have shape := (read?_eq_some_iff.mp read).1
  obtain ⟨behind, here⟩ := exists_eq_append_of_read? read
  rw [Text.isCodeAt_eq here] at isCode
  obtain ⟨fresh, inCode⟩ := of_step_code isCode (by decide)
  have plain : ∀ c ∈ '(' :: (block.keyword.word ++ block.gap), isPlain c = true := by
    intro c member
    rcases List.mem_cons.mp member with rfl | member
    · rfl
    · exact (shape.of_mem_head member).1
  obtain ⟨mode, nesting⟩ := Text.readingAt_plain here plain fresh inCode
  rw [length_head] at mode nesting
  exact ⟨mode, nesting ▸ inCode, nesting⟩

/-- A block that begins in code is in step, if its body is plain text and comments and does not
end inside a comment. -/
theorem inStep_of_fresh (read : read? keywords (text.drop position) = some block)
    (isCode : text.isCodeAt position = true)
    (plain : ∀ c ∈ block.body, isPlain c = true ∨ c = '#')
    (closed : (text.readingAt (position + block.headWidth + block.body.length)).mode = .fresh) :
    InStep text (position, block) := by
  obtain ⟨behind, here⟩ := exists_eq_append_of_read? read
  obtain ⟨fresh, inCode, nesting⟩ := readingAt_body read isCode
  have body : text.drop (position + block.headWidth) = block.body ++ ([')'] ++ behind) := by
    rw [← List.drop_drop, here, ← length_head, List.drop_left]
    rfl
  have closing : text.drop (position + block.headWidth + block.body.length) = [')'] ++ behind := by
    rw [← List.drop_drop, body, List.drop_left]
  have noDelimiter : ∀ c ∈ block.body, isDelimiter c = false := by
    intro c member
    rcases plain c member with ordinary | rfl
    · exact isDelimiter_of_isPlain ordinary
    · rfl
  have behindBody : (text.readingAt (position + block.headWidth + block.body.length)).nesting =
      (text.readingAt position).nesting := by
    rw [Text.readingAt_add body, after_nesting noDelimiter (.inl fresh) inCode, nesting]
  have parenthesis : ∀ c ∈ [')'], isPlain c = true := List.forall_mem_singleton.mpr rfl
  obtain ⟨mode, same⟩ := Text.readingAt_plain closing parenthesis closed
    (by rw [behindBody, ← nesting]; exact inCode)
  have width : position + block.headWidth + block.body.length + [')'].length =
      position + block.written.length := by
    rw [length_written, List.length_singleton]
    omega
  rw [width] at mode same
  exact Text.inStep_of_nesting here isCode rfl (by decide) mode (same.trans behindBody)

/-- If all bodies are plain text and comments and none ends inside a comment, all blocks stand
in code. -/
theorem inStep_of_mem_all
    (bodies : ∀ found ∈ all keywords text, (∀ c ∈ found.2.body, isPlain c = true ∨ c = '#') ∧
      (text.readingAt (found.1 + found.2.headWidth + found.2.body.length)).mode = .fresh)
    {found : Nat × ListBlock} (member : found ∈ all keywords text) :
    text.isCodeAt found.1 = true ∧ InStep text found := by
  refine Text.inStep_of_mem_scan (fits_rule keywords) (fun other listed isCode => ?_) member
  obtain ⟨plain, closed⟩ := bodies other listed
  exact inStep_of_fresh (read?_of_mem_all listed) isCode plain closed

/-- Flattening bodies is silent, if all of them are plain text and comments and none ends inside
a comment. -/
theorem silent
    (bodies : ∀ found ∈ all keywords text, (∀ c ∈ found.2.body, isPlain c = true ∨ c = '#') ∧
      (text.readingAt (found.1 + found.2.headWidth + found.2.body.length)).mode = .fresh)
    {edit : Edit} (member : edit ∈ edits keywords text) : edit.Silent text := by
  obtain ⟨position, block, found, read, made⟩ := exists_block_of_mem_edits member
  obtain ⟨plain, closed⟩ := bodies _ found
  obtain ⟨fresh, inCode, _⟩ := readingAt_body read (inStep_of_mem_all bodies found).1
  have stands : edit.standsInCode text = true := by
    rw [made]
    exact Edit.standsInCode_iff.mpr ⟨fresh, inCode, closed⟩
  have stretch : (text.drop edit.start).take (edit.stop - edit.start) = block.body := by
    obtain ⟨behind, here⟩ := exists_eq_append_of_read? read
    simp only [made]
    rw [Nat.add_sub_cancel_left, ← List.drop_drop, here, ← length_head, List.drop_left,
      List.take_left]
  refine ⟨neutral member (stretch ▸ plain) stands, fun reading kept other _ last => ?_⟩
  obtain ⟨_, _, c, _, _, _, before, blank⟩ := exists_body_of_mem_edits member
  have ordinary := isPlain_of_isBlank blank
  have notBackslash : c ≠ '\\' := by
    rintro rfl
    cases blank
  exact (reads_eq_of_getLast? (last.trans before) (isQuote_of_isPlain ordinary) fun _ =>
    step_eq_of_plain ordinary notBackslash _ _).2

end ListBlock

/-- A zero in a quiet gap behind no quote is silent. -/
theorem Text.QuietGap.silent {text : Text} {gap : Nat} (quiet : QuietGap text gap)
    (noQuote : (text.before? gap).any isQuote = false)
    (escape : text.before? gap = some '\\' → text.drop gap ≠ []) :
    (Edit.insertion gap ['0']).Silent text := by
  have plainNext := quiet.plainNext
  have quoteNext : (text.drop gap).head?.any isQuote = false := by
    cases next : (text.drop gap).head? with
    | none => rfl
    | some d =>
        rw [next] at plainNext
        exact isQuote_of_isPlain plainNext
  -- Read ahead, the zero stands in the place of a plain character or of nothing.
  have reads (reading : Reading) (kept behind : Text) (nonempty : kept ≠ [])
      (last : kept.getLast? = text.before? gap) :
      reading.after kept (text.drop gap) = reading.after kept ('0' :: behind) ∧
        reading.marks kept (text.drop gap) = reading.marks kept ('0' :: behind) := by
    rw [List.getLast?_eq_some_getLast nonempty] at last
    rw [← last] at noQuote escape
    refine reads_eq_of_getLast? (List.getLast?_eq_some_getLast nonempty) noQuote fun reading => ?_
    refine step_congr (fun _ => ⟨fun brace => ?_, nofun⟩)
      (fun backslash _ => ⟨fun nothing => ?_, nofun⟩) fun _ _ => ?_
    · rw [brace] at plainNext
      cases plainNext
    · exact absurd nothing (escape (by rw [backslash]))
    · rw [loneQuoteNext_of_no_quote quoteNext]
      rfl
  refine ⟨⟨quiet.fresh, quiet.inCode, fun reading kept behind nonempty last =>
    (reads reading kept behind nonempty last).1, ?_⟩, fun reading kept behind nonempty last =>
    (reads reading kept behind nonempty last).2⟩
  intro reading behind fresh nesting
  have zero : ∀ c ∈ ['0'], isPlain c = true := List.forall_mem_singleton.mpr rfl
  obtain ⟨mode, same⟩ := after_plain zero fresh (nesting.symm ▸ quiet.inCode)
  refine ⟨quiet.fresh.trans mode.symm, (same.trans nesting).symm, fun mark => ?_⟩
  have next : (text.drop gap).head? = some '?' := mark
  rw [next] at plainNext
  cases plainNext

namespace Pass

/-- Behind each match of a pass, a reading that goes through the match is at the same point as
the pass, which jumps over it. Passes for decimals jump over nothing. -/
def InStep (pass : Pass) (text : Text) : Prop :=
  match pass with
  | .listBlocks keywords => ∀ found ∈ ListBlock.all keywords text, ListBlock.InStep text found
  | .callSpacing name =>
      ∀ found ∈ text.scan (PrefixCall.rule name),
        text.InStep found.1 (found.2.written name).length
  | .symbolPaths _ =>
      ∀ found ∈ text.scan SymbolPath.rule, text.InStep found.1 found.2.written.length
  | .trailingDots | .leadingDots => True

instance (pass : Pass) (text : Text) : Decidable (pass.InStep text) :=
  match pass with
  | .listBlocks keywords =>
      inferInstanceAs (Decidable (∀ found ∈ ListBlock.all keywords text, _))
  | .callSpacing name => inferInstanceAs (Decidable (∀ found ∈ text.scan (PrefixCall.rule name), _))
  | .symbolPaths _ => inferInstanceAs (Decidable (∀ found ∈ text.scan SymbolPath.rule, _))
  | .trailingDots | .leadingDots => inferInstanceAs (Decidable True)

/-- A pass leaves code what it keeps of the code, and no code what it keeps of the rest. -/
def KeepsCode (pass : Pass) (text : Text) : Prop :=
  ∀ position < text.length, Edit.Keeps (pass.edits text) position →
    (pass.run text).isCodeAt (Edit.landing (pass.edits text) position) = text.isCodeAt position

instance (pass : Pass) (text : Text) : Decidable (pass.KeepsCode text) :=
  inferInstanceAs (Decidable (∀ position < text.length, _))

/-- Whether a pass cannot change how the text that it keeps is read. Prefix calls to a plain
name cannot, nor can a zero behind a trailing dot. A zero before a leading dot must not come
directly behind a quote; a path must not end where a character literal starts, and a body must
hold nothing but plain text and comments, and not end inside a comment. -/
def isQuiet (pass : Pass) (text : Text) : Bool :=
  match pass with
  | .listBlocks keywords =>
      (ListBlock.all keywords text).all fun (position, block) =>
        block.body.all (fun c => isPlain c || c == '#') &&
          (text.readingAt (position + block.headWidth + block.body.length)).mode = .fresh
  | .callSpacing name => name.all isPlain
  | .symbolPaths constructor =>
      constructor.all isPlain && !constructor.head?.any isWord &&
        (text.scan SymbolPath.rule).all fun (position, path) =>
          (text.readingAt (position + path.written.length)).mode = .fresh
  | .trailingDots => true
  | .leadingDots => (Decimal.leadingGaps text).all fun gap => !(text.before? gap).any isQuote

variable {pass : Pass} {text : Text}

theorem bodies_of_isQuiet {keywords : List Keyword}
    (quiet : (Pass.listBlocks keywords).isQuiet text = true) :
    ∀ found ∈ ListBlock.all keywords text, (∀ c ∈ found.2.body, isPlain c = true ∨ c = '#') ∧
      (text.readingAt (found.1 + found.2.headWidth + found.2.body.length)).mode = .fresh := by
  intro found member
  have checked := List.all_eq_true.mp quiet found member
  rw [Bool.and_eq_true, List.all_eq_true, decide_eq_true_eq] at checked
  simpa using checked

theorem paths_of_isQuiet {constructor : Text}
    (quiet : (Pass.symbolPaths constructor).isQuiet text = true) :
    (∀ c ∈ constructor, isPlain c = true) ∧ constructor.head?.any isWord = false ∧
      ∀ found ∈ text.scan SymbolPath.rule,
        (text.readingAt (found.1 + found.2.written.length)).mode = .fresh := by
  simpa [isQuiet, and_assoc] using quiet

/-- The matches of a quiet pass are in step. -/
theorem inStep_of_isQuiet (quiet : pass.isQuiet text = true) : pass.InStep text := by
  cases pass with
  | listBlocks keywords =>
      exact fun found member => (ListBlock.inStep_of_mem_all (bodies_of_isQuiet quiet) member).2
  | callSpacing name =>
      have plainName : ∀ c ∈ name, isPlain c = true := List.all_eq_true.mp quiet
      exact fun found member => (PrefixCall.inStep_of_mem_scan plainName member).2
  | symbolPaths constructor =>
      obtain ⟨_, _, closed⟩ := paths_of_isQuiet quiet
      exact fun found member => (SymbolPath.inStep_of_mem_scan closed member).2
  | trailingDots => trivial
  | leadingDots => trivial

/-- A quiet pass keeps code code. -/
theorem keepsCode_of_isQuiet (quiet : pass.isQuiet text = true) : pass.KeepsCode text := by
  intro position inside kept
  cases pass with
  | listBlocks keywords =>
      exact Edit.isCodeAt_landing ((Pass.listBlocks keywords).ordered_edits text)
        (fun edit member => ListBlock.silent (bodies_of_isQuiet quiet) member) kept inside
  | callSpacing name =>
      have plainName : ∀ c ∈ name, isPlain c = true := List.all_eq_true.mp quiet
      have place : Edit.landing ((Pass.callSpacing name).edits text) position = position :=
        Edit.landingFrom_eq_self ((Pass.callSpacing name).ordered_edits text)
          (fun edit member => PrefixCall.stop_of_mem_edits member) (Nat.zero_le _)
      rw [place]
      exact (Text.isCodeAt_of_respelled (PrefixCall.respelled_respaceAll plainName text) position).1
  | symbolPaths constructor =>
      obtain ⟨plain, noWord, closed⟩ := paths_of_isQuiet quiet
      exact Edit.isCodeAt_landing ((Pass.symbolPaths constructor).ordered_edits text)
        (fun edit member => SymbolPath.silent plain noWord closed member) kept inside
  | trailingDots =>
      refine Edit.isCodeAt_landing (Pass.trailingDots.ordered_edits text) ?_ kept inside
      rw [edits, Decimal.trailingEdits_eq_map]
      intro edit member
      obtain ⟨gap, listed, rfl⟩ := List.mem_map.mp member
      have before := Decimal.before?_of_mem_trailingGaps listed
      refine (Decimal.quietGap_of_mem_trailingGaps listed).silent ?_ ?_
      · rw [before]
        rfl
      · simp [before]
  | leadingDots =>
      refine Edit.isCodeAt_landing (Pass.leadingDots.ordered_edits text) ?_ kept inside
      rw [edits, Decimal.leadingEdits_eq_map]
      intro edit member
      obtain ⟨gap, listed, rfl⟩ := List.mem_map.mp member
      have noQuote : (text.before? gap).any isQuote = false := by
        have checked := List.all_eq_true.mp quiet gap listed
        simpa using checked
      have noLiteral : text.endsLiteral gap = false := by
        rw [Text.endsLiteral, noQuote, Bool.and_false]
      obtain ⟨_, tail, written⟩ := Decimal.leadsWithDot_cases (Decimal.mem_leadingGaps.mp listed).2
      refine (Decimal.quietGap_of_mem_leadingGaps listed noLiteral).silent noQuote fun _ => ?_
      simp [written]

/-- It is enough to ask of passes that are not quiet whether their matches are in step. -/
theorem inStep_of_loud (loud : pass.isQuiet text = false → pass.InStep text) :
    pass.InStep text := by
  cases quiet : pass.isQuiet text with
  | false => exact loud quiet
  | true => exact inStep_of_isQuiet quiet

/-- It is enough to ask of passes that are not quiet whether they keep code code. -/
theorem keepsCode_of_loud (loud : pass.isQuiet text = false → pass.KeepsCode text) :
    pass.KeepsCode text := by
  cases quiet : pass.isQuiet text with
  | false => exact loud quiet
  | true => exact keepsCode_of_isQuiet quiet

end Pass

end Desugar
