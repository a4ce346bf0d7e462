import Desugar.Proofs.Sugar.Folding

/-!
# What a folded path still tells

A path is folded by itself: the call that stands for it depends on its segments alone, and the text
behind it is folded as if nothing stood before it, unless it could still belong to the path.
`Text.pieces` cuts a text at a separator, and it gives back the segments of a path from the
argument of its call. `SymbolPath.foldAll_path_append` says both, and that different paths are
folded to different texts.
-/

namespace Desugar

namespace Text

/-- The pieces of a text whose first `pending` characters are the rest of a separator. -/
def piecesBehind (separator : Text) : (pending : Nat) → Text → List Text
  | _, [] => [[]]
  | pending + 1, _ :: rest => piecesBehind separator pending rest
  | 0, c :: rest =>
      if separator.isPrefixOf (c :: rest) then
        [] :: piecesBehind separator (separator.length - 1) rest
      else (piecesBehind separator 0 rest).modifyHead (c :: ·)

/-- The pieces that a separator cuts a text into. It is looked for from left to right, and again
behind the place where it has been found. -/
def pieces (separator text : Text) : List Text :=
  piecesBehind separator 0 text

variable {first : Char} {others piece : Text}

/-- The rest of a separator is passed over. -/
theorem piecesBehind_append (separator skipped rest : Text) :
    piecesBehind separator skipped.length (skipped ++ rest) = pieces separator rest := by
  induction skipped with
  | nil => rfl
  | cons c skipped inductionHypothesis => exact inductionHypothesis

/-- A character that begins no separator belongs to the first piece. -/
theorem pieces_cons_of_ne {c : Char} (other : c ≠ first) (rest : Text) :
    pieces (first :: others) (c :: rest) =
      (pieces (first :: others) rest).modifyHead (c :: ·) := by
  have elsewhere : (first :: others).isPrefixOf (c :: rest) = false := by
    simp [List.isPrefixOf, other.symm]
  rw [pieces, piecesBehind, elsewhere]
  rfl

/-- A text that has no separator is one piece. -/
theorem pieces_of_not_mem (without : first ∉ piece) : pieces (first :: others) piece = [piece] := by
  induction piece with
  | nil => rfl
  | cons c piece inductionHypothesis =>
      obtain ⟨other, without⟩ := List.ne_and_not_mem_of_not_mem_cons without
      rw [pieces_cons_of_ne other.symm, inductionHypothesis without]
      rfl

/-- A separator ends the first piece, and the next one begins behind it. -/
theorem pieces_append_separator (without : first ∉ piece) (rest : Text) :
    pieces (first :: others) (piece ++ ((first :: others) ++ rest)) =
      piece :: pieces (first :: others) rest := by
  induction piece with
  | nil =>
      have here : (first :: others).isPrefixOf (first :: (others ++ rest)) = true :=
        List.isPrefixOf_iff_prefix.mpr (List.prefix_append _ _)
      rw [List.nil_append, List.cons_append, pieces, piecesBehind, if_pos here]
      exact congrArg _ (piecesBehind_append _ _ _)
  | cons c piece inductionHypothesis =>
      obtain ⟨other, without⟩ := List.ne_and_not_mem_of_not_mem_cons without
      rw [List.cons_append, pieces_cons_of_ne other.symm, inductionHypothesis without]
      rfl

/-- Pieces without the first character of a separator are given back when they are joined with it
and cut apart again. -/
theorem pieces_intercalate {parts : List Text} (nonempty : parts ≠ [])
    (without : ∀ part ∈ parts, first ∉ part) :
    pieces (first :: others) ((first :: others).intercalate parts) = parts := by
  induction parts with
  | nil => exact absurd rfl nonempty
  | cons part parts inductionHypothesis =>
      obtain ⟨withoutHere, withoutBehind⟩ := List.forall_mem_cons.mp without
      cases parts with
      | nil => rw [List.intercalate_singleton, pieces_of_not_mem withoutHere]
      | cons next parts =>
          rw [List.intercalate_cons_cons, List.append_assoc, pieces_append_separator withoutHere,
            inductionHypothesis (by simp) withoutBehind]

end Text

namespace SymbolPath

open Reading

variable {constructor rest : Text} {path : SymbolPath}

/-- The segments of a path that can be written: none is empty, and all are made of the characters
that segments have. -/
def Proper (path : SymbolPath) : Prop :=
  ∀ segment ∈ path.segments, segment ≠ [] ∧ ∀ c ∈ segment, isSegment c = true

theorem proper_iff {path : SymbolPath} :
    path.Proper ↔
      (path.segments.all fun segment => !segment.isEmpty && segment.all isSegment) = true := by
  simp [Proper, List.all_eq_true]

instance (path : SymbolPath) : Decidable path.Proper :=
  decidable_of_iff _ proper_iff.symm

theorem segments_ne_nil (path : SymbolPath) : path.segments ≠ [] :=
  List.ne_nil_of_length_pos (Nat.zero_lt_of_lt path.two_le_length)

/-- Segments with a colon before each have a colon before the first and colons between them. -/
theorem chained_eq_intercalate {segments : List Text} (nonempty : segments ≠ []) :
    chained segments = ':' :: [':'].intercalate segments := by
  induction segments with
  | nil => exact absurd rfl nonempty
  | cons segment segments inductionHypothesis =>
      cases segments with
      | nil => simp [chained]
      | cons next segments =>
          have further := inductionHypothesis (by simp)
          rw [List.intercalate_cons_cons, List.append_assoc, List.singleton_append, ← further]
          rfl

theorem written_eq_intercalate (path : SymbolPath) :
    path.written = ':' :: [':'].intercalate path.segments :=
  chained_eq_intercalate path.segments_ne_nil

/-- Folding is reading from left to right with each path replaced by its call. -/
theorem rewrites_iff_foldAll {source result : Text} :
    Rewrites rule (call constructor) Reading.start source result ↔
      foldAll constructor source = result := by
  rw [(replaces_rule constructor).rewrites_iff, foldAll, edits, ← List.filterMap_eq_map]
  rfl

theorem ne_colon_of_head? {c : Char} (ends : (c :: rest).head?.any isChain = false) : c ≠ ':' := by
  rintro rfl
  cases ends

/-- A text that begins with no character of a path is folded alike whatever stands before it. -/
theorem rewrites_of_ends {reading other : Reading} {result : Text}
    (rewrites : Rewrites rule (call constructor) reading rest result)
    (ends : rest.head?.any isChain = false) (mode : other.mode = reading.mode)
    (nesting : other.nesting = reading.nesting) :
    Rewrites rule (call constructor) other rest result := by
  cases rewrites with
  | nil => exact .nil other
  | @keep _ c rest result unclaimed others =>
      -- The character before matters to a question mark only, and that may stand in a segment.
      have agree : Agree (c :: rest) other reading := by
        refine ⟨mode, nesting, fun question => ?_⟩
        rw [question] at ends
        cases ends
      refine .keep (fun _ => rule_of_ne (ne_colon_of_head? ends)) ?_
      rw [agree.step]
      exact others
  | @replace _ c rest result matched behind path divided isCode claimed others =>
      rw [rule_of_ne (ne_colon_of_head? ends)] at claimed
      cases claimed

/-- Where no character of a path follows, a path that stands there has ended. -/
theorem Ends.of_no_chain (ends : rest.head?.any isChain = false) : Ends rest := by
  cases rest with
  | nil => exact ⟨rfl, nofun⟩
  | cons c rest =>
      refine ⟨(Bool.or_eq_false_iff.mp ends).2, fun colon => ?_⟩
      exact absurd (Option.some.inj colon) (ne_colon_of_head? ends)

/-- A path at the start of a text is folded by itself. -/
theorem foldAll_written_append (proper : path.Proper) (ends : rest.head?.any isChain = false) :
    foldAll constructor (path.written ++ rest) =
      path.call constructor ++ foldAll constructor rest := by
  have read : read? none (path.written ++ rest) = some path :=
    read?_eq_some_iff.mpr ⟨rfl, proper, rest, rfl, .of_no_chain ends⟩
  have claimed : rule none (path.written ++ rest) = some (path, path.written.length) := by
    rw [rule, read, Option.map_some]
  have isCode (behind : Text) : (Reading.start.step ':' behind).1 = true := by
    rw [Reading.start, step_plain rfl inCode_nil]
  apply rewrites_iff_foldAll.mp
  rw [written_eq_intercalate] at claimed ⊢
  refine .replace rfl (isCode _) claimed ?_
  obtain ⟨-, -, beyond⟩ := beyond_of_plain rfl (by decide) (isCode _)
  rw [beyond]
  exact rewrites_of_ends (rewrites_iff_foldAll.mpr rfl) ends rfl rfl

/-- The segments of a path are the pieces of the argument of its call. -/
theorem pieces_joined (proper : path.Proper) :
    Text.pieces separator path.joined = path.segments := by
  apply Text.pieces_intercalate path.segments_ne_nil
  intro segment listed member
  exact absurd ((proper segment listed).2 _ member) (by decide)

/-- The argument of a call holds no quote. -/
theorem quote_not_mem_joined (proper : path.Proper) : '\'' ∉ path.joined := by
  intro member
  rcases Text.of_mem_intercalate member with between | ⟨segment, listed, inside⟩
  · exact absurd between (by decide)
  · exact absurd ((proper segment listed).2 _ inside) (by decide)

/-- Texts that begin with calls of the same constructor are equal only if the paths are. -/
theorem eq_of_call_append {other : SymbolPath} (proper : path.Proper) (otherProper : other.Proper)
    {behind : Text} (same : path.call constructor ++ rest = other.call constructor ++ behind) :
    path = other := by
  have shape (path : SymbolPath) (rest : Text) : path.call constructor ++ rest =
      (constructor ++ ['(', '\'']) ++ (path.joined ++ (['\''] ++ ')' :: rest)) := by
    simp [call]
  rw [shape, shape] at same
  have arguments := congrArg (Text.pieces ['\'']) (List.append_cancel_left same)
  rw [Text.pieces_append_separator (quote_not_mem_joined proper),
    Text.pieces_append_separator (quote_not_mem_joined otherProper)] at arguments
  have joined : path.joined = other.joined := (List.cons.inj arguments).1
  have segments : path.segments = other.segments := by
    rw [← pieces_joined proper, joined, pieces_joined otherProper]
  obtain ⟨segments, enough⟩ := path
  cases segments
  rfl

/-- A path with a text behind it that cannot belong to it is folded into the constructor with the
joined segments as its argument, and the text is folded by itself. The argument is cut into the
segments again, and no other path is folded to such a text. -/
theorem foldAll_path_append (constructor : Text) (proper : path.Proper)
    (ends : rest.head?.any isChain = false) :
    foldAll constructor (':' :: [':'].intercalate path.segments ++ rest) =
        constructor ++ ['(', '\''] ++ [' ', ':', ' '].intercalate path.segments ++ ['\'', ')'] ++
          foldAll constructor rest ∧
      Text.pieces [' ', ':', ' '] ([' ', ':', ' '].intercalate path.segments) = path.segments ∧
      ∀ (other : SymbolPath) (behind : Text), other.Proper → behind.head?.any isChain = false →
        foldAll constructor (':' :: [':'].intercalate other.segments ++ behind) =
          foldAll constructor (':' :: [':'].intercalate path.segments ++ rest) → other = path := by
  refine ⟨?_, pieces_joined proper, fun other behind otherProper otherEnds same => ?_⟩
  · rw [← written_eq_intercalate, foldAll_written_append proper ends]
    simp [call, joined, separator]
  · rw [← written_eq_intercalate, ← written_eq_intercalate, foldAll_written_append proper ends,
      foldAll_written_append otherProper otherEnds] at same
    exact eq_of_call_append otherProper proper same

/-- Behind a path that ends in a question mark there is a string and not a character literal, and
the path in it stays. A path that has one segment more is folded to another text. -/
theorem foldAll_path_append_question :
    Proper ⟨["on!".toList, "go?".toList], by decide⟩ ∧
      ("':a:b' :c:d=".toList.head?.any isChain) = false ∧
      foldAll "Path.new".toList ":on!:go?':a:b' :c:d=".toList =
        "Path.new('on! : go?')':a:b' Path.new('c : d=')".toList ∧
      Text.pieces " : ".toList "on! : go?".toList = ["on!".toList, "go?".toList] ∧
      foldAll "Path.new".toList ":on!:go?:x".toList ≠
        foldAll "Path.new".toList ":on!:go?':a:b' :c:d=".toList := by
  have proper : Proper ⟨["on!".toList, "go?".toList], by decide⟩ := by decide +kernel
  have ends : ("':a:b' :c:d=".toList.head?.any isChain) = false := by decide +kernel
  have longer : Proper ⟨["on!".toList, "go?".toList, "x".toList], by decide⟩ := by decide +kernel
  obtain ⟨folded, cut, alone⟩ := foldAll_path_append "Path.new".toList proper ends
  refine ⟨proper, ends, folded.trans (by decide +kernel), cut, fun same => ?_⟩
  cases alone _ [] longer rfl same

end SymbolPath

end Desugar
