import Mathlib.Data.List.Basic
import Desugar.Proofs.Decimal.Alignment
import Desugar.Proofs.Lexer.Walks
import Desugar.Proofs.Pass.Rewriting
import Desugar.Proofs.Sugar.Shape

/-!
# Completing decimals line by line

A newline in code with no string open divides a program: nothing that is read or looked for
on one side of it depends on the other side. `Text.isCodeAt_line_append` and
`Text.ClosesLine.isCodeAt_add` say so of the code, `Text.ClosesLine.scan_append` of every rule
that keeps to its line (`Rule.KeepsToLine`), and `Decimal.complete_append` of completing decimals,
which may therefore be done by blocks of lines.

Completing is done in two passes, so the division has to survive the first of them:
`Decimal.closesLine_completeTrailing` says that it does.
-/

namespace Desugar

/-- A rule that looks no further ahead than the end of its line, and for which the start of a
line is the start of the text. -/
structure Rule.KeepsToLine {Item : Type} (rule : Rule Item) : Prop where
  ahead : ∀ previous line rest,
    rule previous (line ++ '\n' :: rest) = rule previous (line ++ ['\n'])
  back : ∀ rest, rule (some '\n') rest = rule none rest

namespace Edit

/-- The edit for a text that begins further on. -/
def shift (distance : Nat) (edit : Edit) : Edit :=
  ⟨distance + edit.start, distance + edit.stop, edit.text⟩

theorem applyFrom_shift (distance position : Nat) (edits : List Edit) (rest : Text) :
    applyFrom (distance + position) (edits.map (shift distance)) rest =
      applyFrom position edits rest := by
  induction edits generalizing position rest with
  | nil => rfl
  | cons edit edits inductionHypothesis =>
      rw [List.map_cons, applyFrom, applyFrom, shift]
      simp only [Nat.add_sub_add_left, inductionHypothesis]

/-- Edits of two texts edit the one behind the other. -/
theorem applyAll_append {first second : Text} {edits others : List Edit}
    (ordered : Ordered first edits) (otherOrdered : Ordered second others) :
    applyAll (edits ++ others.map (shift first.length)) (first ++ second) =
      applyAll edits first ++ applyAll others second := by
  have bounds {edit : Edit} (member : edit ∈ others.map (shift first.length)) :
      first.length ≤ edit.start ∧ edit.start ≤ edit.stop := by
    obtain ⟨other, listed, rfl⟩ := List.mem_map.mp member
    have stops := (otherOrdered.bounds listed).2
    simp only [shift]
    omega
  have within : OrderedFrom (0 + first.length) 0 edits := by rwa [Nat.zero_add]
  have later : ∀ edit ∈ others.map (shift first.length), 0 + first.length ≤ edit.start := by
    intro edit member
    rw [Nat.zero_add]
    exact (bounds member).1
  rw [applyAll, applyFrom_append within later fun edit member => (bounds member).2,
    List.take_left, List.drop_left, Nat.zero_add]
  exact congrArg _ (applyFrom_shift first.length 0 others second)

end Edit

namespace Text

variable {line rest : Text} {position : Nat}

/-- A newline is read alike whatever the next lines are. -/
theorem step_newline_eq (reading : Reading) (rest : Text) :
    reading.step '\n' rest = reading.step '\n' [] :=
  Reading.step_eq_of_plain rfl (by decide) rest []

/-- A line with its end is read alike whatever the next lines are. -/
theorem readingAt_line_append (inside : position ≤ line.length) :
    (line ++ '\n' :: rest).readingAt position = (line ++ ['\n']).readingAt position := by
  have alike : Reading.Alike ('\n' :: rest) ['\n'] := .of_head rfl rest []
  rw [readingAt, readingAt, List.take_append_of_le_length inside,
    List.take_append_of_le_length inside, List.drop_append_of_le_length inside,
    List.drop_append_of_le_length inside]
  exact (alike.append _).after_eq _

/-- The same of a line is code whatever the next lines are. -/
theorem isCodeAt_line_append (inside : position ≤ line.length) :
    (line ++ '\n' :: rest).isCodeAt position = (line ++ ['\n']).isCodeAt position := by
  have alike : Reading.Alike ('\n' :: rest) ['\n'] := .of_head rfl rest []
  rw [isCodeAt, isCodeAt, readingAt_line_append inside, List.drop_append_of_le_length inside,
    List.drop_append_of_le_length inside]
  cases line.drop position with
  | nil => simp only [List.nil_append, step_newline_eq _ rest]
  | cons c others => simp only [List.cons_append, (alike.append others).step_eq]

/-- A text whose last character is a newline in code, with no string open. -/
structure ClosesLine (text : Text) : Prop where
  newline : ∃ line, text = line ++ ['\n']
  fresh : (text.readingAt text.length).mode = .fresh
  noString : (text.readingAt text.length).nesting = []

/-- What stands behind a closed line is read as if the source began there. -/
theorem ClosesLine.isCodeAt_add (closes : ClosesLine (line ++ ['\n']))
    (inside : position < rest.length) :
    (line ++ '\n' :: rest).isCodeAt (line.length + 1 + position) = rest.isCodeAt position := by
  have here (rest : Text) : (line ++ '\n' :: rest).drop line.length = '\n' :: rest :=
    List.drop_left
  have atEnd : (line ++ '\n' :: rest).readingAt (line.length + 1) =
      (line ++ ['\n']).readingAt (line ++ ['\n']).length := by
    rw [List.length_append, List.length_singleton, readingAt_succ (here rest),
      readingAt_succ (here []), readingAt_line_append (Nat.le_refl _), step_newline_eq _ rest]
  have agree : Reading.Agree (rest ++ []) ((line ++ '\n' :: rest).readingAt (line.length + 1))
      Reading.start := by
    refine ⟨atEnd ▸ closes.fresh, atEnd ▸ closes.noString, fun _ => ?_⟩
    rw [readingAt_succ (here rest), Reading.step_previous]
    decide
  have within : line.length + 1 + position < (line ++ '\n' :: rest).length := by
    rw [List.length_append, List.length_cons]
    omega
  have marks := getElem?_marks (Nat.le_add_right (line.length + 1) position) within
  rw [drop_succ_of_drop (here rest), agree.marks_eq, Nat.add_sub_cancel_left] at marks
  exact Option.some.inj (marks.symm.trans (getElem?_marks (Nat.zero_le position) inside))

variable {Item : Type} {rule : Rule Item} {first : Text}

/-- A rule that keeps to its line claims the same of a line whatever the next lines are. -/
theorem claimAt?_line_append (keeps : rule.KeepsToLine) (inside : position ≤ line.length) :
    (line ++ '\n' :: rest).claimAt? rule position = (line ++ ['\n']).claimAt? rule position := by
  have before : (line ++ '\n' :: rest).before? position = (line ++ ['\n']).before? position := by
    cases position with
    | zero => rfl
    | succ position =>
        rw [before?_succ, before?_succ, List.getElem?_append_left inside,
          List.getElem?_append_left inside]
  rw [claimAt?, claimAt?, isCodeAt_line_append inside, before,
    List.drop_append_of_le_length inside, List.drop_append_of_le_length inside, keeps.ahead]

/-- Behind a closed line, a rule that keeps to its line claims what it would if the source began
there. -/
theorem ClosesLine.claimAt?_add (closes : ClosesLine (line ++ ['\n'])) (keeps : rule.KeepsToLine)
    (inside : position < rest.length) :
    (line ++ '\n' :: rest).claimAt? rule (line.length + 1 + position) =
      (rest.claimAt? rule position).map fun found => (line.length + 1 + found.1, found.2) := by
  have there (place : Nat) :
      (line ++ '\n' :: rest).drop (line.length + 1 + place) = rest.drop place := by
    rw [← List.drop_drop, ← List.drop_drop, List.drop_left, List.drop_one, List.tail_cons]
  have asked : rule ((line ++ '\n' :: rest).before? (line.length + 1 + position))
      (rest.drop position) = rule (rest.before? position) (rest.drop position) := by
    cases position with
    | zero =>
        have newline : (line ++ '\n' :: rest).before? (line.length + 1) = some '\n' := by
          rw [before?_succ, List.getElem?_append_right (Nat.le_refl _), Nat.sub_self,
            List.getElem?_cons_zero]
        rw [Nat.add_zero, newline, before?_zero, keeps.back]
    | succ position =>
        rw [← Nat.add_assoc, before?_succ, before?_succ, ← List.head?_drop, there,
          List.head?_drop]
  rw [claimAt?, claimAt?, closes.isCodeAt_add inside, there, asked]
  split
  · rw [Option.map_map]
    rfl
  · rfl

/-- A closed line divides what a rule that keeps to its line finds. -/
theorem ClosesLine.scan_append (closes : ClosesLine first) (single : rule.Single)
    (keeps : rule.KeepsToLine) (second : Text) :
    (first ++ second).scan rule =
      first.scan rule ++
        (second.scan rule).map fun found => (first.length + found.1, found.2) := by
  obtain ⟨line, rfl⟩ := closes.newline
  have divided : line ++ ['\n'] ++ second = line ++ '\n' :: second := by
    rw [List.append_assoc, List.singleton_append]
  have width : (line ++ ['\n']).length = line.length + 1 := by
    rw [List.length_append, List.length_singleton]
  have total : (line ++ '\n' :: second).length = line.length + 1 + second.length := by
    rw [← divided, List.length_append, width]
  rw [divided, scan_eq_filterMap single, scan_eq_filterMap single, scan_eq_filterMap single,
    total, width, List.range_add, List.filterMap_append, List.filterMap_map, List.map_filterMap]
  congr 1
  · refine List.filterMap_congr fun position member => ?_
    exact claimAt?_line_append keeps (Nat.le_of_lt_succ (List.mem_range.mp member))
  · refine List.filterMap_congr fun position member => ?_
    exact closes.claimAt?_add keeps (List.mem_range.mp member)

end Text

namespace Decimal

/-- The digits at the head of a line end before its newline. -/
theorem digits_line_append (line rest : Text) :
    (line ++ '\n' :: rest).takeWhile Char.isDigit = line.takeWhile Char.isDigit ∧
      (line ++ '\n' :: rest).dropWhile Char.isDigit =
        line.dropWhile Char.isDigit ++ '\n' :: rest := by
  have ends (behind : Text) :
      (line.dropWhile Char.isDigit ++ '\n' :: behind).head?.any Char.isDigit = false := by
    have stopped := Text.head?_dropWhile Char.isDigit line
    cases remaining : line.dropWhile Char.isDigit with
    | nil => rfl
    | cons c others =>
        rw [remaining] at stopped
        exact stopped
  have digits : ∀ c ∈ line.takeWhile Char.isDigit, c.isDigit = true :=
    List.all_eq_true.mp List.all_takeWhile
  have split := Text.takeWhile_append digits (ends rest)
  rwa [← List.append_assoc, List.takeWhile_append_dropWhile] at split

theorem head?_line_append (line rest : Text) :
    (line ++ '\n' :: rest).head? = (line ++ ['\n']).head? := by
  cases line <;> rfl

theorem keepsToLine_trailingRule : trailingRule.KeepsToLine where
  ahead previous line rest := by
    have same : trailingDot? previous (line ++ '\n' :: rest) =
        trailingDot? previous (line ++ ['\n']) := by
      simp only [trailingDot?, digits_line_append line rest, digits_line_append line []]
      cases line.dropWhile Char.isDigit with
      | nil => rfl
      | cons c tail =>
          by_cases dot : c = '.'
          · simp only [dot, List.cons_append, head?_line_append tail rest]
          · simp [dot]
    rw [trailingRule, trailingRule, same]
  back rest := rfl

theorem keepsToLine_leadingRule : leadingRule.KeepsToLine where
  ahead previous line rest := by
    have same : leadsWithDot previous (line ++ '\n' :: rest) =
        leadsWithDot previous (line ++ ['\n']) := by
      cases line with
      | nil => rfl
      | cons c line =>
          by_cases dot : c = '.'
          · simp only [dot, List.cons_append, leadsWithDot, digits_line_append,
              head?_line_append _ rest]
          · simp [leadsWithDot, dot]
    rw [leadingRule, leadingRule, same]
  back rest := rfl

variable {first : Text}

/-- Decimals `2.` are completed on the two sides of a closed line by themselves. -/
theorem completeTrailing_append (closes : first.ClosesLine) (second : Text) :
    completeTrailing (first ++ second) = completeTrailing first ++ completeTrailing second := by
  have edits : trailingEdits (first ++ second) =
      trailingEdits first ++ (trailingEdits second).map (Edit.shift first.length) := by
    rw [trailingEdits, closes.scan_append single_trailingRule keepsToLine_trailingRule,
      List.map_append, List.map_map, trailingEdits, trailingEdits, List.map_map]
    congr 2
    funext found
    simp only [Function.comp_apply, Edit.shift, Edit.insertion, Nat.add_assoc]
  rw [completeTrailing, edits]
  exact Edit.applyAll_append (Pass.ordered_edits .trailingDots first)
    (Pass.ordered_edits .trailingDots second)

/-- Decimals `.3` are completed on the two sides of a closed line by themselves. -/
theorem completeLeading_append (closes : first.ClosesLine) (second : Text) :
    completeLeading (first ++ second) = completeLeading first ++ completeLeading second := by
  have edits : leadingEdits (first ++ second) =
      leadingEdits first ++ (leadingEdits second).map (Edit.shift first.length) := by
    rw [leadingEdits, closes.scan_append single_leadingRule keepsToLine_leadingRule,
      List.map_append, List.map_map, leadingEdits, leadingEdits, List.map_map]
    rfl
  rw [completeLeading, edits]
  exact Edit.applyAll_append (Pass.ordered_edits .leadingDots first)
    (Pass.ordered_edits .leadingDots second)

/-- A closed line is still closed when its decimals `2.` are completed. -/
theorem closesLine_completeTrailing (closes : first.ClosesLine) :
    (completeTrailing first).ClosesLine := by
  obtain ⟨⟨line, rfl⟩, fresh, noString⟩ := closes
  have width : (line ++ ['\n']).length = line.length + 1 := by
    rw [List.length_append, List.length_singleton]
  have noGap : (line ++ ['\n']).length ∉ trailingGaps (line ++ ['\n']) := by
    intro member
    have before := before?_of_mem_trailingGaps member
    rw [width, Text.before?_succ, List.getElem?_append_right (Nat.le_refl _), Nat.sub_self]
      at before
    cases before
  have padding : completeTrailing (line ++ ['\n']) =
      Text.spaced (trailingGaps (line ++ ['\n'])) 0 line ++
        Text.zeroAt (trailingGaps (line ++ ['\n'])) line.length ++ ['\n'] := by
    rw [completeTrailing_eq_padded, Text.padded_append, Text.padded_cons, Nat.zero_add,
      Text.padded_nil, ← width, Text.zeroAt_of_not_mem noGap, ← List.append_assoc]
  have reading : (completeTrailing (line ++ ['\n'])).readingAt
      (completeTrailing (line ++ ['\n'])).length =
        (line ++ ['\n']).readingAt (line ++ ['\n']).length := by
    rw [completeTrailing_eq_padded, Text.length_padded, Text.zeroAt_of_not_mem noGap,
      List.length_nil, Nat.add_zero,
      Text.readingAt_padded (fun _ => quietGap_of_mem_trailingGaps) (Nat.le_refl _)]
  exact ⟨⟨_, padding⟩, reading ▸ fresh, reading ▸ noString⟩

/-- A walk that comes to the newline at the end of a text with no string open finds its last line
closed. -/
theorem closesLine_of_walk {line : Text} {cursor : Cursor}
    (walk : Cursor.Walk (line ++ ['\n']) (some line.length) cursor)
    (noString : cursor.nesting = []) : (line ++ ['\n']).ClosesLine := by
  obtain ⟨isCode, rfl⟩ := walk.readingAt
  have here : (line ++ ['\n']).drop line.length = ['\n'] := List.drop_left
  have width : (line ++ ['\n']).length = line.length + 1 := by
    rw [List.length_append, List.length_singleton]
  rw [← width] at noString
  exact ⟨⟨line, rfl⟩, width ▸ Text.mode_of_isCodeAt here isCode, noString⟩

/-- Completing decimals works line by line: if a fresh cursor, called for code positions, comes to
the newline at the end of a text with no string open, then what stands before and behind this end
is completed by itself. -/
theorem complete_append {line : Text} {cursor : Cursor}
    (walk : Cursor.Walk (line ++ ['\n']) (some line.length) cursor)
    (noString : cursor.nesting = []) (second : Text) :
    complete (line ++ ['\n'] ++ second) = complete (line ++ ['\n']) ++ complete second := by
  have closes := closesLine_of_walk walk noString
  calc
    complete (line ++ ['\n'] ++ second)
        = completeLeading (completeTrailing (line ++ ['\n'] ++ second)) := rfl
    _ = completeLeading (completeTrailing (line ++ ['\n']) ++ completeTrailing second) := by
        rw [completeTrailing_append closes]
    _ = complete (line ++ ['\n']) ++ complete second :=
        completeLeading_append (closesLine_completeTrailing closes) _

/-- A comment with a quote ends the line, a decimal `.25` begins the next one, and a decimal in a
string follows. -/
theorem complete_append_commented :
    Cursor.Walk ("2. # '".toList ++ ['\n']) (some 6) ⟨7, []⟩ ∧
      complete ("2. # '".toList ++ ['\n'] ++ ".25 3. ' .5 '".toList) =
        "2.0 # '\n0.25 3.0 ' .5 '".toList := by
  have digit : Cursor.Walk ("2. # '".toList ++ ['\n']) (some 0) ⟨1, []⟩ :=
    .call .fresh (by decide +kernel)
  have dot : Cursor.Walk ("2. # '".toList ++ ['\n']) (some 1) ⟨2, []⟩ :=
    .call digit (by decide +kernel)
  have blank : Cursor.Walk ("2. # '".toList ++ ['\n']) (some 2) ⟨3, []⟩ :=
    .call dot (by decide +kernel)
  have newline : Cursor.Walk ("2. # '".toList ++ ['\n']) (some 6) ⟨7, []⟩ :=
    .call blank (by decide +kernel)
  refine ⟨newline, ?_⟩
  rw [complete_append newline rfl]
  decide +kernel

end Decimal

end Desugar
