import Desugar.Proofs.Indexed.Access
import Desugar.Sugar.ListBlock

/-!
# Flattening a body line by line

A body can be flattened by its lines: each is cut off at its comment, by the byte at which the
comment starts, and the words of what is left are joined. Cutting a text at a byte fails inside
a character. `flattenBody?_eq_some` says that this never happens, and that the outcome is the
flattened body.
-/

namespace Desugar

namespace Text

/-- What stands behind the first `offset` bytes, unless they end inside a character or beyond
the text. -/
def fromByte? : (offset : Nat) → Text → Option Text
  | 0, text => some text
  | _ + 1, [] => none
  | offset + 1, c :: text =>
      (difference? (offset + 1) c.utf8Size).bind fun remaining => fromByte? remaining text

/-- The first `offset` bytes, unless they end inside a character or beyond the text. -/
def toByte? : (offset : Nat) → Text → Option Text
  | 0, _ => some []
  | _ + 1, [] => none
  | offset + 1, c :: text =>
      (difference? (offset + 1) c.utf8Size).bind fun remaining =>
        (toByte? remaining text).map (c :: ·)

/-- The bytes of a character and of the text behind it, less those of the character. -/
theorem difference?_byteLength (c : Char) (text : Text) :
    ∃ offset, byteLength (c :: text) = offset + 1 ∧
      difference? (offset + 1) c.utf8Size = some (byteLength text) := by
  have positive := c.utf8Size_pos
  refine ⟨c.utf8Size + byteLength text - 1, ?_, ?_⟩
  · rw [byteLength_cons]
    omega
  · rw [difference?_of_le (by omega)]
    congr 1
    omega

theorem fromByte?_byteLength (left right : Text) :
    fromByte? (byteLength left) (left ++ right) = some right := by
  induction left with
  | nil => rw [byteLength_nil, List.nil_append, fromByte?]
  | cons c left inductionHypothesis =>
      obtain ⟨offset, bytes, remaining⟩ := difference?_byteLength c left
      rw [bytes, List.cons_append, fromByte?, remaining, Option.bind_some, inductionHypothesis]

theorem toByte?_byteLength (left right : Text) :
    toByte? (byteLength left) (left ++ right) = some left := by
  induction left with
  | nil => rw [byteLength_nil, toByte?]
  | cons c left inductionHypothesis =>
      obtain ⟨offset, bytes, remaining⟩ := difference?_byteLength c left
      rw [bytes, List.cons_append, toByte?, remaining, Option.bind_some, inductionHypothesis,
        Option.map_some]

/-- A line without the carriage return at its end. -/
def dropReturn (line : Text) : Text :=
  if line.getLast? = some '\r' then line.dropLast else line

/-- The lines of a text. A carriage return before a newline belongs to the line break, and a
newline at the end starts no further line. -/
def lines (text : Text) : List Text :=
  let pieces := text.splitOn '\n'
  pieces.dropLast.map dropReturn ++ (pieces.getLast?.filter fun line => !line.isEmpty).toList

/-- A text without blanks is one word. -/
theorem words_eq_singleton {word : Text} (nonempty : word ≠ [])
    (solid : ∀ c ∈ word, isBlank c = false) : words word = [word] := by
  rw [words, List.splitOnP_eq_singleton solid]
  simp [nonempty]

/-- A blank divides the words of a text. -/
theorem words_append_cons {c : Char} (blank : isBlank c = true) (left right : Text) :
    words (left ++ c :: right) = words left ++ words right := by
  rw [words, List.splitOnP_append_cons left right blank, List.filter_append]
  rfl

/-- The words of a text put together from pieces with blanks between them are those of the
pieces. -/
theorem words_intercalate {separator : Char} (blank : isBlank separator = true)
    (pieces : List Text) : words ([separator].intercalate pieces) = pieces.flatMap words := by
  induction pieces with
  | nil => rfl
  | cons piece pieces inductionHypothesis =>
      cases pieces with
      | nil => simp
      | cons next others =>
          rw [List.intercalate_cons_cons, List.append_assoc, List.singleton_append,
            words_append_cons blank, inductionHypothesis]
          rfl

/-- The pieces of a text between newlines have none. -/
theorem newline_not_mem_of_mem_splitOn {text piece : Text} (member : piece ∈ text.splitOn '\n') :
    '\n' ∉ piece := by
  intro newline
  cases (of_mem_splitOnP member newline).2

theorem mem_of_mem_dropReturn {line : Text} {c : Char} (member : c ∈ dropReturn line) :
    c ∈ line := by
  unfold dropReturn at member
  split at member
  · exact List.dropLast_subset _ member
  · exact member

theorem newline_not_mem_of_mem_lines {text line : Text} (member : line ∈ text.lines) :
    '\n' ∉ line := by
  rcases List.mem_append.mp member with inner | last
  · obtain ⟨piece, listed, rfl⟩ := List.mem_map.mp inner
    intro newline
    exact newline_not_mem_of_mem_splitOn (List.dropLast_subset _ listed)
      (mem_of_mem_dropReturn newline)
  · rw [Option.mem_toList, Option.filter_eq_some_iff] at last
    exact newline_not_mem_of_mem_splitOn (List.mem_of_getLast? last.1)

end Text

open Text

/-- Leaving out comments goes line by line. -/
theorem uncomment_append_newline {inComment : Bool} {line : Text} (single : '\n' ∉ line)
    (rest : Text) :
    uncomment inComment (line ++ '\n' :: rest) =
      uncomment inComment line ++ '\n' :: uncomment false rest := by
  induction line generalizing inComment with
  | nil => cases inComment <;> simp [uncomment]
  | cons c line inductionHypothesis =>
      obtain ⟨different, others⟩ := not_or.mp (mt List.mem_cons.mpr single)
      have next : ((line ++ '\n' :: rest).head? != some '{') = (line.head? != some '{') := by
        cases line <;> rfl
      rw [List.cons_append]
      cases inComment with
      | true =>
          rw [uncomment, uncomment, if_neg (Ne.symm different), if_neg (Ne.symm different)]
          exact inductionHypothesis others
      | false =>
          rw [uncomment, uncomment, next]
          split
          · exact inductionHypothesis others
          · rw [inductionHypothesis others, List.cons_append]

/-- A carriage return at the end of a line adds nothing but a blank. -/
theorem uncomment_append_return {inComment : Bool} {line : Text} (single : '\n' ∉ line) :
    uncomment inComment (line ++ ['\r']) = uncomment inComment line ∨
      uncomment inComment (line ++ ['\r']) = uncomment inComment line ++ ['\r'] := by
  induction line generalizing inComment with
  | nil => cases inComment <;> simp [uncomment]
  | cons c line inductionHypothesis =>
      obtain ⟨different, others⟩ := not_or.mp (mt List.mem_cons.mpr single)
      have next : ((line ++ ['\r']).head? != some '{') = (line.head? != some '{') := by
        cases line <;> rfl
      rw [List.cons_append]
      cases inComment with
      | true =>
          rw [uncomment, uncomment, if_neg (Ne.symm different), if_neg (Ne.symm different)]
          exact inductionHypothesis others
      | false =>
          rw [uncomment, uncomment, next]
          split
          · exact inductionHypothesis others
          · rw [List.cons_append, List.cons.injEq, List.cons.injEq]
            simpa using inductionHypothesis others

theorem words_uncomment_dropReturn {line : Text} (single : '\n' ∉ line) :
    words (uncomment false (dropReturn line)) = words (uncomment false line) := by
  unfold dropReturn
  split
  · next ends =>
    obtain ⟨before, rfl⟩ := List.getLast?_eq_some_iff.mp ends
    have shorter : '\n' ∉ before := fun newline => single (List.mem_append_left _ newline)
    rw [List.dropLast_concat]
    rcases uncomment_append_return shorter with same | longer
    · rw [same]
    · have blank : isBlank '\r' = true := by decide
      rw [longer, words_append_cons blank]
      exact (List.append_nil _).symm
  · rfl

/-- The words of a text without comments are those of its pieces between newlines. -/
theorem words_uncomment_splitOn (text : Text) :
    (text.splitOn '\n').flatMap (fun piece => words (uncomment false piece)) =
      words (uncomment false text) := by
  generalize size : text.length = bound
  induction bound using Nat.strongRecOn generalizing text with
  | ind bound inductionHypothesis =>
      by_cases newline : '\n' ∈ text
      · obtain ⟨rest, divided⟩ := exists_eq_takeWhile_append newline
        generalize first : text.takeWhile (fun other => other != '\n') = line at divided
        have single : '\n' ∉ line := by
          intro member
          rw [← first] at member
          have kept := List.all_eq_true.mp List.all_takeWhile _ member
          cases kept
        have shorter : rest.length < bound := by
          rw [← size, divided, List.length_append, List.length_cons]
          omega
        have newlineBlank : isBlank '\n' = true := by decide
        rw [divided, List.splitOn_append_cons_self_of_not_mem single, List.flatMap_cons,
          inductionHypothesis _ shorter rest rfl, uncomment_append_newline single,
          words_append_cons newlineBlank]
      · rw [List.splitOn_eq_singleton newline, List.flatMap_singleton]

/-- The words of a text without comments are those of its lines. -/
theorem words_uncomment_lines (text : Text) :
    text.lines.flatMap (fun line => words (uncomment false line)) =
      words (uncomment false text) := by
  have some : text.splitOn '\n' ≠ [] := List.splitOn_ne_nil _ _
  have inner : ((text.splitOn '\n').dropLast.map dropReturn).flatMap
        (fun line => words (uncomment false line)) =
      (text.splitOn '\n').dropLast.flatMap fun line => words (uncomment false line) := by
    rw [List.flatMap_map, List.flatMap, List.flatMap]
    congr 1
    refine List.map_congr_left fun piece listed => ?_
    exact words_uncomment_dropReturn
      (newline_not_mem_of_mem_splitOn (List.dropLast_subset _ listed))
  have last : (((text.splitOn '\n').getLast?.filter fun line => !line.isEmpty).toList).flatMap
        (fun line => words (uncomment false line)) =
      words (uncomment false ((text.splitOn '\n').getLast some)) := by
    rw [List.getLast?_eq_some_getLast some]
    cases (text.splitOn '\n').getLast some with
    | nil => rfl
    | cons c line => exact List.append_nil _
  calc
    text.lines.flatMap (fun line => words (uncomment false line))
        = (text.splitOn '\n').dropLast.flatMap (fun line => words (uncomment false line)) ++
            words (uncomment false ((text.splitOn '\n').getLast some)) := by
          rw [Text.lines, List.flatMap_append, inner, last]
    _ = (text.splitOn '\n').flatMap (fun line => words (uncomment false line)) := by
          rw [← List.flatMap_singleton (fun line => words (uncomment false line)),
            ← List.flatMap_append, List.dropLast_concat_getLast]
    _ = words (uncomment false text) := words_uncomment_splitOn text

/-- Byte at which the comment of a line starts, where `rest` is what stands from the byte
`offset` on. -/
def commentStart? (line : Text) : (offset : Nat) → (rest : Text) → Option (Option Nat)
  | _, [] => some none
  | offset, c :: rest =>
      if c = '#' then
        (fromByte? (offset + 1) line).bind fun behind =>
          if behind.head? = some '{' then commentStart? line (offset + c.utf8Size) rest
          else some (some offset)
      else commentStart? line (offset + c.utf8Size) rest

/-- A line cut off at its comment. -/
def uncommentLine? (line : Text) : Option Text :=
  (commentStart? line 0 line).bind fun
    | none => some line
    | some offset => toByte? offset line

/-- A comment takes the rest of its line. -/
theorem uncomment_true {line : Text} (single : '\n' ∉ line) : uncomment true line = [] := by
  induction line with
  | nil => rfl
  | cons c line inductionHypothesis =>
      obtain ⟨different, others⟩ := not_or.mp (mt List.mem_cons.mpr single)
      rw [uncomment, if_neg (Ne.symm different)]
      exact inductionHypothesis others

/-- The comment of a line starts where leaving it out ends. -/
theorem commentStart?_append {left rest : Text} (single : '\n' ∉ rest) :
    commentStart? (left ++ rest) (byteLength left) rest = some none ∧
        uncomment false rest = rest ∨
      ∃ kept more, commentStart? (left ++ rest) (byteLength left) rest =
          some (some (byteLength (left ++ kept))) ∧
        rest = kept ++ more ∧ uncomment false rest = kept := by
  induction rest generalizing left with
  | nil => exact .inl ⟨rfl, rfl⟩
  | cons c rest inductionHypothesis =>
      obtain ⟨_, others⟩ := not_or.mp (mt List.mem_cons.mpr single)
      have further := @inductionHypothesis (left ++ [c]) others
      have bytes : byteLength (left ++ [c]) = byteLength left + c.utf8Size := by simp
      rw [bytes, List.append_assoc, List.singleton_append] at further
      have passed : commentStart? (left ++ c :: rest) (byteLength left) (c :: rest) =
            commentStart? (left ++ c :: rest) (byteLength left + c.utf8Size) rest →
          uncomment false (c :: rest) = c :: uncomment false rest →
          (commentStart? (left ++ c :: rest) (byteLength left) (c :: rest) = some none ∧
              uncomment false (c :: rest) = c :: rest ∨
            ∃ kept more, commentStart? (left ++ c :: rest) (byteLength left) (c :: rest) =
                some (some (byteLength (left ++ kept))) ∧
              c :: rest = kept ++ more ∧ uncomment false (c :: rest) = kept) := by
        intro start uncommented
        rw [start, uncommented]
        rcases further with ⟨none, whole⟩ | ⟨kept, more, found, divided, cut⟩
        · exact .inl ⟨none, by rw [whole]⟩
        · refine .inr ⟨c :: kept, more, ?_, by rw [divided, List.cons_append], by rw [cut]⟩
          rw [found, List.append_assoc, List.singleton_append]
      by_cases hash : c = '#'
      · subst hash
        have behind : fromByte? (byteLength left + 1) (left ++ '#' :: rest) = some rest := by
          have cut := fromByte?_byteLength (left ++ ['#']) rest
          rwa [bytes, List.append_assoc, List.singleton_append] at cut
        by_cases brace : rest.head? = some '{'
        · refine passed ?_ ?_
          · rw [commentStart?, if_pos rfl, behind, Option.bind_some, if_pos brace]
          · simp [uncomment, brace]
        · refine .inr ⟨[], '#' :: rest, ?_, rfl, ?_⟩
          · rw [commentStart?, if_pos rfl, behind, Option.bind_some, if_neg brace, List.append_nil]
          · rw [uncomment]
            simp only [decide_true, Bool.true_and, bne_iff_ne, ne_eq, brace, not_false_eq_true,
              ↓reduceIte]
            exact uncomment_true others
      · refine passed ?_ ?_
        · rw [commentStart?, if_neg hash]
        · simp [uncomment, hash]

/-- Cutting a line off at its comment never cuts through a character. -/
theorem uncommentLine?_eq_some {line : Text} (single : '\n' ∉ line) :
    uncommentLine? line = some (uncomment false line) := by
  unfold uncommentLine?
  have start := @commentStart?_append [] line single
  rcases start with ⟨none, whole⟩ | ⟨kept, more, found, divided, cut⟩
  · rw [List.nil_append, byteLength_nil] at none
    rw [none, whole]
    rfl
  · rw [List.nil_append, List.nil_append, byteLength_nil] at found
    rw [found, cut, Option.bind_some, divided]
    exact toByte?_byteLength kept more

/-- The words of the lines of a body, each cut off at its comment, joined with commas. -/
def flattenBody? (body : Text) : Option Text :=
  (body.lines.mapM uncommentLine?).map fun kept =>
    [','].intercalate (words (['\n'].intercalate kept))

/-- Flattening line by line never fails. -/
theorem flattenBody?_eq_some (body : Text) : flattenBody? body = some (flattenBody body) := by
  have cut : body.lines.mapM uncommentLine? = some (body.lines.map (uncomment false)) := by
    generalize listed : body.lines = pieces
    have single : ∀ line ∈ pieces, '\n' ∉ line := by
      intro line member
      exact newline_not_mem_of_mem_lines (listed ▸ member)
    clear listed
    induction pieces with
    | nil => rfl
    | cons line pieces inductionHypothesis =>
        rw [List.mapM_cons, uncommentLine?_eq_some (single line (List.mem_cons_self ..)),
          inductionHypothesis fun other member => single other (List.mem_cons_of_mem _ member)]
        rfl
  rw [flattenBody?, cut, Option.map_some, words_intercalate (by decide), List.flatMap_map,
    words_uncomment_lines]
  rfl

end Desugar
