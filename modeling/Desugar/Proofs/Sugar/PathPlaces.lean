import Desugar.Proofs.Pass.Quiet

/-!
# Which paths are folded

`SymbolPath.StandsAt` says, of a position in a source, that a symbol path begins there, by the
characters around it and the code positions of the source. A path may begin inside another one,
as in `:a?:b:c`, and `SymbolPath.Leftmost` lists those that are met first from left to right.

A scan for paths jumps over what it finds and does not see the last character of a path. If that
is a `?` which makes a quote behind it a character literal, the scan takes the quote for the
start of a string. `SymbolPath.foldAll_folds_leftmost` says that otherwise folding replaces
exactly the leftmost paths, and `SymbolPath.folded_in_string` that it need not do so then.
-/

namespace Desugar

open Reading

/-- In code, a character that neither is a delimiter nor starts a region is code and changes
nothing. -/
theorem Reading.step_of_no_region {reading : Reading} {c : Char} {rest : Text}
    (noDelimiter : isDelimiter c = false) (fresh : reading.mode = .fresh)
    (inCode : InCode reading.nesting)
    (noRegion : regionWidth? reading.previous (c :: rest) = none) :
    reading.step c rest = (true, ⟨.fresh, reading.nesting, some c⟩) := by
  obtain ⟨notDouble, notSingle, notOpen, notClose⟩ := isDelimiter_eq_false_iff.mp noDelimiter
  rw [regionWidth?_cons] at noRegion
  have looked : reading.look c rest = (true, .fresh, reading.nesting) := by
    rw [look, visit_of_inCode inCode notDouble notOpen notClose]
    grind
  rw [step, fresh]
  simp only [looked]

namespace SymbolPath

/-- A symbol path begins at a position: a colon in code that stands behind no colon and no word,
and segments with a colon before each, which do not go on behind the last. -/
structure StandsAt (source : Text) (position : Nat) (path : SymbolPath) : Prop where
  inCode : position ∈ source.codePositions
  alone : ((source.before? position).any fun c => c == ':' || isWord c) = false
  segments : ∀ segment ∈ path.segments, segment ≠ [] ∧ ∀ c ∈ segment, isSegment c = true
  written : ∃ behind, source.drop position = path.written ++ behind ∧ Ends behind

/-- The paths of a source that are met from left to right: those that stand in it and do not
begin inside one that was met before. -/
def Leftmost (source : Text) (paths : List (Nat × SymbolPath)) : Prop :=
  ∀ position path, (position, path) ∈ paths ↔ StandsAt source position path ∧
    ∀ earlier ∈ paths, earlier.1 < position →
      earlier.1 + earlier.2.written.length ≤ position

/-- No path that stands in a source has a last character that starts a region, as a `?` does
that makes the quote behind it a character literal. -/
def SparesLiterals (source : Text) : Prop :=
  ∀ position path, StandsAt source position path →
    regionEnd? source (position + path.written.length - 1) = none

/-- A text is a source with its leftmost paths folded: each is replaced by a call of the
constructor with the segments as its string, and all else is kept. -/
def Folded (constructor source result : Text) : Prop :=
  ∃ paths : List (Nat × SymbolPath), Leftmost source paths ∧
    Edit.Splices
      (paths.map fun (position, path) =>
        ⟨position, position + path.written.length,
          constructor ++ '(' :: '\'' :: [' ', ':', ' '].intercalate path.segments ++
            ['\'', ')']⟩)
      source result

variable {source : Text} {position : Nat} {path : SymbolPath}

/-- A path stands where it is read in code. -/
theorem standsAt_iff :
    StandsAt source position path ↔ source.isCodeAt position = true ∧
      read? (source.before? position) (source.drop position) = some path := by
  rw [read?_eq_some_iff, ← Text.mem_codePositions]
  constructor
  · rintro ⟨inCode, alone, segments, written⟩
    exact ⟨inCode, alone, segments, written⟩
  · rintro ⟨inCode, alone, segments, written⟩
    exact ⟨inCode, alone, segments, written⟩

theorem StandsAt.length_pos (stands : StandsAt source position path) :
    0 < path.written.length := by
  obtain ⟨_, read⟩ := standsAt_iff.mp stands
  exact (fits_rule _ _ _ _ (Rule.measured_eq_some_iff.mpr read)).2.1

instance (source : Text) : Decidable (SparesLiterals source) :=
  decidable_of_iff
    (∀ position ∈ source.codePositions,
      ((read? (source.before? position) (source.drop position)).all fun path =>
        (regionEnd? source (position + path.written.length - 1)).isNone) = true) <| by
    constructor
    · intro checked position path stands
      obtain ⟨isCode, read⟩ := standsAt_iff.mp stands
      have closed := checked position stands.inCode
      rw [read, Option.all_some, Option.isNone_iff_eq_none] at closed
      exact closed
    · intro spares position inCode
      rw [Option.all_eq_true]
      intro path read
      have stands := standsAt_iff.mpr ⟨Text.mem_codePositions.mp inCode, read⟩
      rw [spares position path stands]
      rfl

/-- Inside a chain of symbols no region starts. -/
theorem regionWidth?_of_isChain {c next : Char} (chain : isChain c = true)
    (nextChain : isChain next = true) (previous : Option Char) (rest : Text) :
    regionWidth? previous (c :: next :: rest) = none := by
  have notHash : c ≠ '#' := by
    rintro rfl
    cases chain
  have notSingle := (isDelimiter_eq_false_iff.mp (of_isChain chain).1).2.1
  obtain ⟨notDouble, notQuote, -⟩ := isDelimiter_eq_false_iff.mp (of_isChain nextChain).1
  rw [regionWidth?_cons]
  simp [notHash, notSingle, loneQuoteNext, isQuote, notDouble, notQuote]

/-- A chain of symbols is code up to its last character. -/
theorem mode_after_of_isChain {reading : Reading} {text : Text} {last : Char}
    (chain : ∀ c ∈ text ++ [last], isChain c = true) (fresh : reading.mode = .fresh)
    (inCode : InCode reading.nesting) (following : Text) :
    (reading.after text (last :: following)).mode = .fresh := by
  induction text generalizing reading with
  | nil => exact fresh
  | cons c text inductionHypothesis =>
      obtain ⟨firstChain, others⟩ := List.forall_mem_cons.mp chain
      have noRegion : regionWidth? reading.previous (c :: (text ++ last :: following)) = none := by
        cases text with
        | nil =>
            exact regionWidth?_of_isChain firstChain (others last (by simp)) _ _
        | cons next text =>
            exact regionWidth?_of_isChain firstChain (others next (by simp)) _ _
      rw [after_cons, step_of_no_region (of_isChain firstChain).1 fresh inCode noRegion]
      exact inductionHypothesis others rfl inCode

/-- The last character of a path is met in code, with nothing half read. -/
theorem StandsAt.exists_last (stands : StandsAt source position path) :
    ∃ last behind, source.drop (position + path.written.length - 1) = last :: behind ∧
      isChain last = true ∧
      (source.readingAt (position + path.written.length - 1)).mode = .fresh ∧
      InCode (source.readingAt (position + path.written.length - 1)).nesting := by
  obtain ⟨isCode, read⟩ := standsAt_iff.mp stands
  obtain ⟨behind, here, _, chain⟩ := exists_behind_of_read? read
  obtain ⟨fresh, inCode, _⟩ := nesting_of_read? read isCode
  have positive := stands.length_pos
  obtain ⟨text, last, divided⟩ : ∃ text last, path.written = text ++ [last] :=
    ⟨_, _, (List.dropLast_concat_getLast (List.ne_nil_of_length_pos positive)).symm⟩
  have place : position + path.written.length - 1 = position + text.length := by
    rw [divided, List.length_append, List.length_singleton]
    omega
  rw [divided] at chain
  rw [divided, List.append_assoc, List.singleton_append] at here
  have noDelimiter : ∀ c ∈ text, isDelimiter c = false := fun c member =>
    (of_isChain (chain c (List.mem_append_left _ member))).1
  rw [place, Text.readingAt_add here, after_nesting noDelimiter (.inl fresh) inCode]
  refine ⟨last, behind, ?_, chain last (by simp), ?_, inCode⟩
  · rw [← List.drop_drop, here, List.drop_left]
  · exact mode_after_of_isChain chain fresh inCode behind

/-- Behind a path nothing is half read, unless its last character starts a region. -/
theorem StandsAt.mode_eq_fresh (stands : StandsAt source position path)
    (noRegion : regionEnd? source (position + path.written.length - 1) = none) :
    (source.readingAt (position + path.written.length)).mode = .fresh := by
  obtain ⟨last, behind, there, chain, fresh, inCode⟩ := stands.exists_last
  have inside := Text.lt_length_of_drop there
  rw [regionEnd?, if_neg (Nat.not_le.mpr inside), Option.map_eq_none_iff, there,
    ← Text.readingAt_previous (Nat.le_of_lt inside)] at noRegion
  have stepped := step_of_no_region (of_isChain chain).1 fresh inCode noRegion
  have stop : position + path.written.length - 1 + 1 = position + path.written.length := by
    have positive := stands.length_pos
    omega
  rw [← stop, Text.readingAt_succ there, stepped]

/-- Where no path ends in a character literal, a scan finds the leftmost paths. -/
theorem SparesLiterals.leftmost_scan (spares : SparesLiterals source) :
    Leftmost source (source.scan rule) := by
  have inStep : ∀ found ∈ source.scan rule, source.InStep found.1 found.2.written.length := by
    intro found member
    refine (Text.inStep_of_mem_scan fits_rule (fun other listed isCode => ?_) member).2
    have read := read?_of_mem_scan listed
    have stands := standsAt_iff.mpr ⟨isCode, read⟩
    exact inStep_of_fresh read isCode (stands.mode_eq_fresh (spares _ _ stands))
  intro position path
  have claimed : rule (source.before? position) (source.drop position) =
      some (path, path.written.length) ↔
        read? (source.before? position) (source.drop position) = some path :=
    Rule.measured_eq_some_iff
  rw [Text.mem_scan_iff_of_inStep fits_rule inStep, claimed, ← standsAt_iff]

/-- Folding paths gives a source with exactly its leftmost paths folded, if no path that stands
in it ends where a character literal starts. -/
theorem foldAll_folds_leftmost (spares : SparesLiterals source) (constructor : Text) :
    Folded constructor source (foldAll constructor source) := by
  refine ⟨source.scan rule, spares.leftmost_scan, ?_⟩
  exact Edit.splices_applyAll ((Pass.symbolPaths constructor).ordered_edits source)

/-- A path that begins inside another one, a path with a string behind its last mark, one in an
interpolation, and the same in a string and in a comment. -/
theorem foldAll_folds_leftmost_marks :
    SparesLiterals ":a?:b:c :d:e?'x' \"#\x7b:f:g\x7d :h:i\" # :j:k".toList ∧
      Folded "P".toList ":a?:b:c :d:e?'x' \"#\x7b:f:g\x7d :h:i\" # :j:k".toList
        "P('a? : b : c') P('d : e?')'x' \"#\x7bP('f : g')\x7d :h:i\" # :j:k".toList := by
  have spares : SparesLiterals ":a?:b:c :d:e?'x' \"#\x7b:f:g\x7d :h:i\" # :j:k".toList := by
    decide +kernel
  have folds : foldAll "P".toList ":a?:b:c :d:e?'x' \"#\x7b:f:g\x7d :h:i\" # :j:k".toList =
      "P('a? : b : c') P('d : e?')'x' \"#\x7bP('f : g')\x7d :h:i\" # :j:k".toList := by
    decide +kernel
  have folded := foldAll_folds_leftmost spares "P".toList
  rw [folds] at folded
  exact ⟨spares, folded⟩

/-- A path that ends in a character literal lets a path be folded in the text of the next
string. -/
theorem folded_in_string :
    foldAll "P".toList ":a:?' ' :b:c '".toList = "P('a : ?')' ' P('b : c') '".toList ∧
      8 ∉ Text.codePositions ":a:?' ' :b:c '".toList ∧
      ¬ Folded "P".toList ":a:?' ' :b:c '".toList
        (foldAll "P".toList ":a:?' ' :b:c '".toList) := by
  refine ⟨by decide +kernel, by decide +kernel, ?_⟩
  rintro ⟨paths, leftmost, splices⟩
  have only : ∀ position ∈ Text.codePositions ":a:?' ' :b:c '".toList,
      ((read? (Text.before? ":a:?' ' :b:c '".toList position)
        (":a:?' ' :b:c '".toList.drop position)).all fun path =>
          position = 0 ∧ path.segments = [['a'], ['?']]) = true := by
    decide +kernel
  have first : ∀ found ∈ paths, found = (0, ⟨[['a'], ['?']], by decide⟩) := by
    intro ⟨position, ⟨segments, enough⟩⟩ member
    obtain ⟨isCode, read⟩ := standsAt_iff.mp ((leftmost _ _).mp member).1
    have checked := only position (Text.mem_codePositions.mpr isCode)
    rw [read, Option.all_some, decide_eq_true_eq] at checked
    obtain ⟨rfl, rfl⟩ := checked
    rfl
  obtain ⟨ordered, applied⟩ := splices.ordered_and_eq
  cases paths with
  | nil => exact absurd applied (by decide +kernel)
  | cons found paths =>
      obtain rfl := first _ (List.mem_cons_self ..)
      cases paths with
      | nil => exact absurd applied (by decide +kernel)
      | cons next paths =>
          -- The same path is not replaced twice.
          obtain rfl := first next (by simp)
          exact absurd ordered.2.2.1 (by decide)

end SymbolPath

end Desugar
