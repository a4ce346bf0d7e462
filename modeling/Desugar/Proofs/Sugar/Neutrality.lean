import Desugar.Proofs.Pass.Neutral
import Desugar.Proofs.Sugar.Respacing

/-!
# Sugar whose replacement is neutral

Folding a symbol path puts a call with a string in the place of a chain of symbols, and
flattening a list block strips blanks and comments from its body. `SymbolPath.neutral` and
`ListBlock.neutral` say when such an edit leaves the reading as it was: the replaced stretch
has to begin in code and to end with nothing half read, and a body must not hold any string
or brace.
-/

namespace Desugar

open Reading

/-- Whether a character can open or close a string, an interpolation or a pair of braces. -/
def isDelimiter (c : Char) : Bool :=
  ['"', '\'', '{', '}'].contains c

theorem isDelimiter_eq_false_iff {c : Char} :
    isDelimiter c = false ↔ c ≠ '"' ∧ c ≠ '\'' ∧ c ≠ '{' ∧ c ≠ '}' := by
  simp [isDelimiter]

theorem isDelimiter_of_isPlain {c : Char} (ordinary : isPlain c = true) :
    isDelimiter c = false := by
  obtain ⟨notDouble, notSingle, _, _, notOpen, notClose⟩ := isPlain_iff.mp ordinary
  exact isDelimiter_eq_false_iff.mpr ⟨notDouble, notSingle, notOpen, notClose⟩

namespace Reading

variable {reading : Reading} {c : Char} {text : Text}

/-- In code or in a comment, a character that is no delimiter opens and closes nothing, and
the next one is read in code or in a comment, unless it is the quote of a character
literal. -/
theorem step_of_not_isDelimiter (noDelimiter : isDelimiter c = false)
    (mode : reading.mode = .fresh ∨ reading.mode = .comment) (inCode : InCode reading.nesting)
    (rest : Text) :
    (reading.step c rest).2.nesting = reading.nesting ∧
      ((reading.step c rest).2.mode = .fresh ∨ (reading.step c rest).2.mode = .comment ∨
        loneQuoteNext rest = true) := by
  obtain ⟨mode', nesting, previous⟩ := reading
  obtain ⟨notDouble, notSingle, notOpen, notClose⟩ := isDelimiter_eq_false_iff.mp noDelimiter
  have looked : ((Reading.mk mode' nesting previous).look c rest).2.2 = nesting ∧
      (((Reading.mk mode' nesting previous).look c rest).2.1 = .fresh ∨
        ((Reading.mk mode' nesting previous).look c rest).2.1 = .comment ∨
          loneQuoteNext rest = true) := by
    simp only [look, visit_of_inCode inCode notDouble notOpen notClose]
    grind
  rcases mode with fresh | comment
  · subst fresh
    exact looked
  · subst comment
    by_cases newline : c = '\n'
    · simpa only [step, newline] using newline ▸ looked
    · simp [step, newline]

/-- A text without delimiters leaves open what was open. -/
theorem after_nesting (noDelimiter : ∀ c ∈ text, isDelimiter c = false)
    (mode : reading.mode = .fresh ∨ reading.mode = .comment) (inCode : InCode reading.nesting)
    (following : Text) : (reading.after text following).nesting = reading.nesting := by
  induction text generalizing reading with
  | nil => rfl
  | cons c text inductionHypothesis =>
      have others : ∀ d ∈ text, isDelimiter d = false := fun d member =>
        noDelimiter d (List.mem_cons_of_mem _ member)
      obtain ⟨nesting, behind⟩ := step_of_not_isDelimiter
        (noDelimiter c (List.mem_cons_self ..)) mode inCode (text ++ following)
      rw [after_cons]
      by_cases lone : loneQuoteNext (text ++ following) = true
      · -- A quote comes next, so the text is at its end.
        cases text with
        | nil => exact nesting
        | cons d text =>
            have noQuote := isDelimiter_eq_false_iff.mp (others d (List.mem_cons_self ..))
            simp [loneQuoteNext, isQuote, noQuote.1, noQuote.2.1] at lone
      · rw [inductionHypothesis others (by grind) (nesting ▸ inCode), nesting]

theorem eq_mk {mode : Mode} {nesting : Nesting} (sameMode : reading.mode = mode)
    (sameNesting : reading.nesting = nesting) : reading = ⟨mode, nesting, reading.previous⟩ := by
  subst sameMode sameNesting
  rfl

/-- A single-quoted string runs over every character but a backslash and its quote. -/
theorem after_quoted (within : ∀ c ∈ text, c ≠ '\\' ∧ c ≠ '\'') (nesting : Nesting)
    (previous : Option Char) (following : Text) :
    ∃ last, (Reading.mk .quoted nesting previous).after text following =
      ⟨.quoted, nesting, last⟩ := by
  induction text generalizing previous with
  | nil => exact ⟨previous, rfl⟩
  | cons c text inductionHypothesis =>
      obtain ⟨notBackslash, notQuote⟩ := within c (List.mem_cons_self ..)
      have behind : ((Reading.mk .quoted nesting previous).step c (text ++ following)).2 =
          ⟨.quoted, nesting, some c⟩ := by
        simp [step, notBackslash, notQuote]
      rw [after_cons, behind]
      exact inductionHypothesis (fun d member => within d (List.mem_cons_of_mem _ member)) _

end Reading

theorem Text.of_mem_intercalate {separator : Text} {pieces : List Text} {c : Char}
    (member : c ∈ separator.intercalate pieces) :
    c ∈ separator ∨ ∃ piece ∈ pieces, c ∈ piece := by
  induction pieces with
  | nil => cases member
  | cons piece pieces inductionHypothesis =>
      cases pieces with
      | nil => exact .inr ⟨piece, List.mem_cons_self .., by simpa using member⟩
      | cons other pieces =>
          rw [List.intercalate_cons_cons, List.mem_append, List.mem_append] at member
          rcases member with (first | between) | others
          · exact .inr ⟨piece, List.mem_cons_self .., first⟩
          · exact .inl between
          · rcases inductionHypothesis others with between | ⟨piece, listed, inside⟩
            · exact .inl between
            · exact .inr ⟨piece, List.mem_cons_of_mem _ listed, inside⟩

namespace SymbolPath

/-- A chain of symbols holds no delimiter and no backslash. -/
theorem of_isChain {c : Char} (chain : isChain c = true) : isDelimiter c = false ∧ c ≠ '\\' := by
  have isNot (d : Char) (none : isChain d = false) : c ≠ d := by
    rintro rfl
    rw [chain] at none
    cases none
  exact ⟨isDelimiter_eq_false_iff.mpr ⟨isNot _ rfl, isNot _ rfl, isNot _ rfl, isNot _ rfl⟩,
    isNot _ rfl⟩

/-- A path is read as far as symbols are chained, so that no `?` comes next. -/
theorem exists_behind_of_read? {previous : Option Char} {text : Text} {path : SymbolPath}
    (found : read? previous text = some path) :
    ∃ behind, text = path.written ++ behind ∧ behind.head? ≠ some '?' ∧
      ∀ c ∈ path.written, isChain c = true := by
  unfold read? at found
  split at found
  · next rest =>
    split at found
    · cases found
    · rw [written, segments_of_ofSegments? found, readSegments]
      generalize taken : ((rest.takeWhile isChain).splitOn ':').takeWhile
        (fun segment : Text => !segment.isEmpty) = segments
      obtain ⟨others, pieces⟩ : segments <+: (rest.takeWhile isChain).splitOn ':' :=
        taken ▸ List.takeWhile_prefix _
      have chain := flatMap_splitOn (rest.takeWhile isChain)
      rw [← pieces, List.flatMap_append] at chain
      refine ⟨others.flatMap (fun segment => ':' :: segment) ++ rest.dropWhile isChain, ?_, ?_, ?_⟩
      · rw [← List.append_assoc, chain, List.cons_append, List.takeWhile_append_dropWhile]
      · cases others with
        | nil =>
            intro mark
            have stops := List.head?_dropWhile_not isChain rest
            rw [List.flatMap_nil, List.nil_append] at mark
            rw [mark] at stops
            cases stops
        | cons segment others => simp
      · intro c member
        have inside : c ∈ ':' :: rest.takeWhile isChain := by
          rw [← chain]
          exact List.mem_append_left _ member
        rcases List.mem_cons.mp inside with rfl | inside
        · rfl
        · exact List.all_eq_true.mp List.all_takeWhile c inside
  · cases found

/-- What a folded path has in its string is no backslash and no quote. -/
theorem of_mem_joined {path : SymbolPath} (chain : ∀ c ∈ path.written, isChain c = true) :
    ∀ c ∈ path.joined, c ≠ '\\' ∧ c ≠ '\'' := by
  intro c member
  rcases Text.of_mem_intercalate member with between | ⟨segment, listed, inSegment⟩
  · have blankOrColon : c = ' ' ∨ c = ':' ∨ c = ' ' := by simpa [separator] using between
    rcases blankOrColon with rfl | rfl | rfl <;> decide
  · have inWritten : c ∈ path.written :=
      List.mem_flatMap.mpr ⟨segment, listed, List.mem_cons_of_mem _ inSegment⟩
    obtain ⟨noDelimiter, notBackslash⟩ := of_isChain (chain c inWritten)
    exact ⟨notBackslash, (isDelimiter_eq_false_iff.mp noDelimiter).2.1⟩

/-- A folded path is code with a string in it, which leaves open what was open. -/
theorem after_call {constructor : Text} (plain : ∀ c ∈ constructor, isPlain c = true)
    {path : SymbolPath} (chain : ∀ c ∈ path.written, isChain c = true) {reading : Reading}
    (fresh : reading.mode = .fresh) (inCode : InCode reading.nesting) (behind : Text) :
    (reading.after (path.call constructor) behind).mode = .fresh ∧
      (reading.after (path.call constructor) behind).nesting = reading.nesting := by
  have shape : path.call constructor =
      (constructor ++ ['(']) ++ ('\'' :: (path.joined ++ ['\'', ')'])) := by
    simp [call]
  have plainHead : ∀ c ∈ constructor ++ ['('], isPlain c = true := by
    intro c member
    rcases List.mem_append.mp member with inConstructor | parenthesis
    · exact plain c inConstructor
    · rw [List.mem_singleton.mp parenthesis]
      rfl
  have head : ∃ last, reading.after (constructor ++ ['('])
      ('\'' :: (path.joined ++ ['\'', ')']) ++ behind) = ⟨.fresh, reading.nesting, last⟩ := by
    obtain ⟨mode, nesting⟩ := after_plain plainHead fresh inCode
    exact ⟨_, eq_mk mode nesting⟩
  have closing (last : Option Char) :
      (Reading.mk .quoted reading.nesting last).after ['\'', ')'] behind =
        ⟨.fresh, reading.nesting, some ')'⟩ := by
    have quote : (Reading.mk .quoted reading.nesting last).step '\'' (')' :: behind) =
        (false, ⟨.fresh, reading.nesting, some '\''⟩) := rfl
    have parenthesis : isPlain ')' = true := rfl
    rw [after_cons, List.cons_append, List.nil_append, quote, after_cons,
      step_plain parenthesis inCode, after_nil]
  obtain ⟨_, head⟩ := head
  obtain ⟨_, string⟩ :=
    after_quoted (of_mem_joined chain) reading.nesting (some '\'') (['\'', ')'] ++ behind)
  rw [shape, after_append, head, after_cons, step_apostrophe inCode, after_append, string, closing]
  exact ⟨rfl, rfl⟩

/-- A folded path begins with a character that belongs to no word, as the chain does. -/
theorem alike_call {constructor : Text} (plain : ∀ c ∈ constructor, isPlain c = true)
    (noWord : constructor.head?.any isWord = false) {path : SymbolPath} {text : Text}
    (behind other : Text) (here : text = path.written ++ behind) :
    Alike text (path.call constructor ++ other) := by
  have colon : isFiller ':' = true := by decide
  have parenthesis : isFiller '(' = true := by decide
  obtain ⟨segments, enough⟩ := path
  cases segments with
  | nil => cases enough
  | cons segment segments =>
      rw [here, written, List.flatMap_cons, List.cons_append, List.cons_append, call]
      cases constructor with
      | nil => exact .of_fillers colon parenthesis
      | cons c constructor =>
          have filler := isFiller_iff.mpr ⟨plain c (List.mem_cons_self ..), noWord⟩
          exact .of_fillers colon filler

/-- Folding a path that stands in code is neutral. A path does not if its last character is
read as the start of a character literal. -/
theorem neutral {constructor source : Text} (plain : ∀ c ∈ constructor, isPlain c = true)
    (noWord : constructor.head?.any isWord = false) {edit : Edit}
    (member : edit ∈ edits constructor source) (stands : edit.standsInCode source = true) :
    edit.Neutral source := by
  obtain ⟨⟨position, path⟩, found, rfl⟩ := List.mem_map.mp member
  obtain ⟨behind, here, noMark, chain⟩ := exists_behind_of_read? (read?_of_mem_scan found)
  have there : source.drop (position + path.written.length) = behind := by
    rw [← List.drop_drop, here, List.drop_left]
  obtain ⟨fresh, inCode, closed⟩ := Edit.standsInCode_iff.mp stands
  have nesting : (source.readingAt (position + path.written.length)).nesting =
      (source.readingAt position).nesting := by
    rw [Text.readingAt_add here]
    exact after_nesting (fun c inside => (of_isChain (chain c inside)).1) (.inl fresh) inCode _
  refine ⟨fresh, inCode, ?_, ?_⟩
  · intro reading kept other _ _
    exact (alike_call plain noWord behind other here).after_eq reading
  · intro reading other freshReading sameNesting
    obtain ⟨mode, sameBehind⟩ := after_call plain chain freshReading (sameNesting ▸ inCode) other
    simp only [there]
    refine ⟨closed.trans mode.symm, ?_, fun mark => absurd mark noMark⟩
    rw [nesting, sameBehind, sameNesting]

end SymbolPath

/-- Leaving out comments leaves characters of the text. -/
theorem mem_of_mem_uncomment {inComment : Bool} {text : Text} {c : Char}
    (member : c ∈ uncomment inComment text) : c ∈ text := by
  fun_induction uncomment inComment text with
  | case1 => cases member
  | case2 rest inductionHypothesis =>
      rcases List.mem_cons.mp member with rfl | member
      · exact List.mem_cons_self ..
      · exact List.mem_cons_of_mem _ (inductionHypothesis member)
  | case3 d rest _ inductionHypothesis => exact List.mem_cons_of_mem _ (inductionHypothesis member)
  | case4 d rest _ inductionHypothesis => exact List.mem_cons_of_mem _ (inductionHypothesis member)
  | case5 d rest _ inductionHypothesis =>
      rcases List.mem_cons.mp member with rfl | member
      · exact List.mem_cons_self ..
      · exact List.mem_cons_of_mem _ (inductionHypothesis member)

/-- Without braces, every `#` starts a comment. -/
theorem hash_not_mem_uncomment {inComment : Bool} {text : Text} (noBrace : '{' ∉ text) :
    '#' ∉ uncomment inComment text := by
  fun_induction uncomment inComment text with
  | case1 => exact nofun
  | case2 rest inductionHypothesis =>
      intro member
      rcases List.mem_cons.mp member with hash | member
      · cases hash
      · exact inductionHypothesis (fun brace => noBrace (List.mem_cons_of_mem _ brace)) member
  | case3 d rest _ inductionHypothesis =>
      exact inductionHypothesis fun brace => noBrace (List.mem_cons_of_mem _ brace)
  | case4 d rest _ inductionHypothesis =>
      exact inductionHypothesis fun brace => noBrace (List.mem_cons_of_mem _ brace)
  | case5 d rest kept inductionHypothesis =>
      intro member
      rcases List.mem_cons.mp member with rfl | member
      · have brace : rest.head? = some '{' := by simpa using kept
        exact noBrace (List.mem_cons_of_mem _ (List.mem_of_head? brace))
      · exact inductionHypothesis (fun brace => noBrace (List.mem_cons_of_mem _ brace)) member

namespace ListBlock

/-- A body of plain text and comments is flattened to plain text. -/
theorem isPlain_of_mem_flattenBody {body : Text}
    (plain : ∀ c ∈ body, isPlain c = true ∨ c = '#') :
    ∀ c ∈ flattenBody body, isPlain c = true := by
  have noBrace : '{' ∉ body := fun brace => by
    rcases plain _ brace with ordinary | hash
    · cases ordinary
    · cases hash
  intro c member
  rcases Text.of_mem_intercalate member with comma | ⟨word, listed, inside⟩
  · rw [List.mem_singleton.mp comma]
    rfl
  · have kept := (Text.of_mem_words listed inside).1
    rcases plain c (mem_of_mem_uncomment kept) with ordinary | rfl
    · exact ordinary
    · exact absurd kept (hash_not_mem_uncomment noBrace)

/-- A block has a blank before its body. -/
theorem exists_last_of_read? {keywords : List Keyword} {text : Text} {block : ListBlock}
    (found : read? keywords text = some block) :
    ∃ c, block.gap.getLast? = some c ∧ isBlank c = true := by
  unfold read? at found
  split at found
  · next rest =>
    obtain ⟨keyword, chosen, found⟩ := Option.bind_eq_some_iff.mp found
    dsimp only at found
    split at found
    · cases found
    · next shape =>
      cases found
      rw [Bool.or_eq_true, not_or, Bool.not_eq_true, List.isEmpty_eq_false_iff] at shape
      refine ⟨_, List.getLast?_eq_some_getLast shape.1, ?_⟩
      exact List.all_eq_true.mp List.all_takeWhile _ (List.getLast_mem shape.1)
  · cases found

/-- A body is flattened where its block is found. -/
theorem exists_block_of_mem_edits {keywords : List Keyword} {source : Text} {edit : Edit}
    (member : edit ∈ edits keywords source) :
    ∃ position block, (position, block) ∈ all keywords source ∧
      read? keywords (source.drop position) = some block ∧
      edit = ⟨position + block.headWidth, position + block.headWidth + block.body.length,
        flattenBody block.body⟩ := by
  obtain ⟨⟨position, block⟩, found, made⟩ := List.mem_filterMap.mp member
  refine ⟨position, block, found, read?_of_mem_all found, ?_⟩
  unfold edit? at made
  dsimp only at made
  split at made <;> cases made
  rfl

/-- A body that is flattened has a blank before it and a parenthesis behind it. -/
theorem exists_body_of_mem_edits {keywords : List Keyword} {source : Text} {edit : Edit}
    (member : edit ∈ edits keywords source) :
    ∃ body behind c, edit.text = flattenBody body ∧ edit.stop = edit.start + body.length ∧
      source.drop edit.start = body ++ ')' :: behind ∧
      source.before? edit.start = some c ∧ isBlank c = true := by
  obtain ⟨position, block, _, read, rfl⟩ := exists_block_of_mem_edits member
  obtain ⟨behind, here⟩ := exists_eq_append_of_read? read
  obtain ⟨c, gapLast, blank⟩ := exists_last_of_read? read
  have headWidth := length_head block
  have bodyHere : source.drop (position + block.headWidth) = block.body ++ ')' :: behind := by
    rw [← List.drop_drop, here, ← headWidth, List.drop_left]
  have inside : position + block.headWidth < source.length := by
    refine Nat.lt_of_not_le fun beyond => ?_
    rw [List.drop_eq_nil_of_le beyond] at bodyHere
    exact List.append_ne_nil_of_right_ne_nil _ (List.cons_ne_nil _ _) bodyHere.symm
  refine ⟨block.body, behind, c, rfl, rfl, bodyHere, ?_, blank⟩
  rw [← bodyHere] at here
  rw [← Text.getLast?_eq_before? here (by rw [headWidth]) (Nat.le_of_lt inside) nofun,
    ← List.cons_append, List.getLast?_append, gapLast, Option.some_or]

/-- Flattening a body of plain text and comments that stands in code is neutral. A body does
not if a comment in it runs over its end. -/
theorem neutral {keywords : List Keyword} {source : Text} {edit : Edit}
    (member : edit ∈ edits keywords source)
    (plain : ∀ c ∈ (source.drop edit.start).take (edit.stop - edit.start),
      isPlain c = true ∨ c = '#')
    (stands : edit.standsInCode source = true) : edit.Neutral source := by
  obtain ⟨body, behind, c, flat, stops, here, before, blank⟩ := exists_body_of_mem_edits member
  obtain ⟨fresh, inCode, closed⟩ := Edit.standsInCode_iff.mp stands
  rw [stops, Nat.add_sub_cancel_left, here, List.take_left] at plain
  have nesting : (source.readingAt edit.stop).nesting = (source.readingAt edit.start).nesting := by
    rw [stops, Text.readingAt_add here]
    refine after_nesting (fun d inside => ?_) (.inl fresh) inCode _
    rcases plain d inside with ordinary | rfl
    · exact isDelimiter_of_isPlain ordinary
    · rfl
  have noMark : (source.drop edit.stop).head? ≠ some '?' := by
    rw [stops, ← List.drop_drop, here, List.drop_left]
    exact nofun
  refine ⟨fresh, inCode, ?_, ?_⟩
  · intro reading kept other _ last
    have notBackslash : c ≠ '\\' := by
      rintro rfl
      cases blank
    have ordinary := isPlain_of_isBlank blank
    exact (reads_eq_of_getLast? (last.trans before) (isQuote_of_isPlain ordinary) fun _ =>
      step_eq_of_plain ordinary notBackslash _ _).1
  · intro reading other freshReading sameNesting
    rw [flat]
    obtain ⟨mode, sameBehind⟩ := after_plain (isPlain_of_mem_flattenBody plain) freshReading
      (sameNesting ▸ inCode)
    refine ⟨closed.trans mode.symm, ?_, fun mark => absurd mark noMark⟩
    rw [nesting, sameBehind, sameNesting]

end ListBlock

end Desugar
