import Desugar.Proofs.Lexer.Lookahead
import Desugar.Proofs.Lexer.Uses

/-!
# Walks through the code of a source

A walk calls a fresh cursor for the next code position, again and again, and never jumps.
`Cursor.Walk.readingAt` says that it stays in step with the reading of the source, so that the
strings it has open where it answers a position are those that the reading has open there.

Two results say what a walk does not depend on. `Text.mem_codePositions_iff_of_take` is about
the text ahead: whether a position holds code is settled by the two characters behind it, and
what is written further on does not change it. `Cursor.Walk.exhausts_jumpTo` is about the text
walked through: a jump over plain characters answers the same positions from there on.
-/

namespace Desugar

open Reading (InCode)

namespace Text

variable {first second : Text} {shared position : Nat}

/-- Texts that share their first characters share each stretch of these. -/
theorem take_drop_of_take (same : first.take shared = second.take shared) (place count : Nat)
    (within : place + count ≤ shared) :
    (first.drop place).take count = (second.drop place).take count := by
  have ofShared (text : Text) :
      (text.drop place).take count = ((text.take shared).drop place).take count := by
    rw [List.drop_take, List.take_take, Nat.min_eq_left (by omega)]
  rw [ofShared first, ofShared second, same]

/-- Sources that share their first characters are read alike up to the last but one of them. -/
theorem readingAt_of_take (same : first.take shared = second.take shared)
    (within : position + 2 ≤ shared) : first.readingAt position = second.readingAt position := by
  have before : first.take position = second.take position :=
    take_drop_of_take same 0 position (by omega)
  rw [readingAt, readingAt, before]
  exact (Reading.Alike.of_take (take_drop_of_take same position 2 within)).after_eq _

/-- Whether a position holds code is settled by the text up to the second character behind it:
sources that share this much have the same code there. -/
theorem mem_codePositions_iff_of_take (same : first.take shared = second.take shared)
    (within : position + 2 < shared) :
    position ∈ first.codePositions ↔ position ∈ second.codePositions := by
  have read : first.readingAt position = second.readingAt position :=
    readingAt_of_take same (by omega)
  have ahead := take_drop_of_take same position 3 (by omega)
  rw [mem_codePositions, mem_codePositions]
  cases here : first.drop position with
  | nil =>
      cases there : second.drop position with
      | nil => rw [isCodeAt, isCodeAt, here, there]
      | cons d other =>
          rw [here, there] at ahead
          cases ahead
  | cons c rest =>
      cases there : second.drop position with
      | nil =>
          rw [here, there] at ahead
          cases ahead
      | cons d other =>
          rw [here, there, List.take_succ_cons, List.take_succ_cons] at ahead
          obtain ⟨rfl, behind⟩ := List.cons.inj ahead
          rw [isCodeAt_eq here, isCodeAt_eq there, read,
            (Reading.Alike.of_take behind).step_eq]

/-- Behind a character literal and the start of a string, one source closes the string and opens
another, and the other one does not. -/
theorem mem_codePositions_iff_of_take_quoted :
    "p ?' 'q # r".toList.take 7 = "p ?' 'q' \"s#\x7b".toList.take 7 ∧ 4 + 2 < 7 ∧
      4 ∈ codePositions "p ?' 'q # r".toList ∧
      (4 ∈ codePositions "p ?' 'q # r".toList ↔
        4 ∈ codePositions "p ?' 'q' \"s#\x7b".toList) := by
  have same : "p ?' 'q # r".toList.take 7 = "p ?' 'q' \"s#\x7b".toList.take 7 := by decide
  exact ⟨same, by decide, by decide +kernel, mem_codePositions_iff_of_take same (by decide)⟩

/-- The second character behind a position can matter: a word makes the quote open a string. -/
example : 0 ∉ codePositions "?'".toList ∧ 0 ∈ codePositions "?'a".toList := by
  decide +kernel

end Text

namespace Cursor

variable {source rest : Text} {cursor behind final : Cursor} {position : Nat}

/-- The cursors that calls for the next code position, without a jump between them, bring a
fresh one to, each with the answer of the last call. -/
inductive Walk (source : Text) : Option Nat → Cursor → Prop where
  | fresh : Walk source none start
  | call {answer next : Option Nat} {cursor behind : Cursor} (walk : Walk source answer cursor)
      (called : cursor.next source = (next, behind)) : Walk source next behind

/-- A call that answers nothing leaves the cursor at the end of the text. -/
theorem Rounds.drop_eq_nil {between : List Cursor} {answer : Option Nat × Cursor}
    (rounds : Rounds source cursor between answer) (nothing : answer.1 = none) :
    source.drop answer.2.position = [] := by
  induction rounds with
  | ended ended => exact ended
  | found => cases nothing
  | skipped _ _ _ inductionHypothesis => exact inductionHypothesis nothing

/-- In step with the reading, a call answers a position that the reading marks as code, and has
the strings open that the reading has behind it. -/
theorem next_of_readingAt (here : source.drop position = rest) (inside : position ≤ source.length)
    {found : Nat}
    (answered : next source
      ⟨position + (source.readingAt position).mode.pending rest,
        (source.readingAt position).nesting⟩ = (some found, behind)) :
    source.isCodeAt found = true ∧
      behind = ⟨found + 1, (source.readingAt (found + 1)).nesting⟩ := by
  induction rest generalizing position with
  | nil =>
      rw [next, ← List.drop_drop, here, List.drop_nil] at answered
      cases answered
  | cons c rest inductionHypothesis =>
      have further := inductionHypothesis (Text.drop_succ_of_drop here)
        (Text.lt_length_of_drop here)
      rw [Text.readingAt_succ here] at further
      rcases (source.readingAt position).step_cases c rest with
        ⟨nothing, looked⟩ | ⟨mode, pending, passed⟩
      · rw [nothing, Nat.add_zero] at answered
        rw [looked] at further
        cases isCode : ((source.readingAt position).look c rest).1 with
        | false =>
            rw [next_of_look_skip here inside isCode] at answered
            exact further answered
        | true =>
            rw [next_of_look_code here inside isCode] at answered
            cases answered
            rw [Text.isCodeAt_eq here, Text.readingAt_succ here, looked]
            exact ⟨isCode, rfl⟩
      · rw [pending, ← Nat.add_assoc, Nat.add_right_comm] at answered
        rw [passed] at further
        exact further answered

/-- A cursor that stands where the reading looks at a character by itself, with the same strings
open, or at the end of the source. -/
def Follows (source : Text) (cursor : Cursor) : Prop :=
  source.drop cursor.position = [] ∨
    (source.readingAt cursor.position).mode = .fresh ∧
      cursor.nesting = (source.readingAt cursor.position).nesting

/-- A cursor that follows the reading answers what the reading marks as code, and has the same
strings open behind it. -/
theorem Follows.next_eq_some (follows : Follows source cursor)
    (answered : cursor.next source = (some position, behind)) :
    source.isCodeAt position = true ∧
      behind = ⟨position + 1, (source.readingAt (position + 1)).nesting⟩ := by
  rcases follows with ended | ⟨fresh, nesting⟩
  · rw [next, ended] at answered
    cases answered
  · obtain ⟨place, strings⟩ := cursor
    have inside : place ≤ source.length := by
      obtain ⟨reached, bounded, _⟩ := Cursor.next_eq_some answered
      exact Nat.le_of_lt (Nat.lt_of_le_of_lt reached bounded)
    have pending : (source.readingAt place).mode.pending (source.drop place) = 0 := by
      rw [fresh]
      rfl
    refine next_of_readingAt rfl inside ?_
    rw [pending, Nat.add_zero, ← nesting]
    exact answered

/-- Calls keep a cursor with the reading. -/
theorem Follows.call (follows : Follows source cursor) {answer : Option Nat}
    (called : cursor.next source = (answer, behind)) : Follows source behind := by
  cases answer with
  | none =>
      obtain ⟨between, rounds, _⟩ := exists_rounds source cursor
      rw [called] at rounds
      exact .inl (rounds.drop_eq_nil rfl)
  | some position =>
      obtain ⟨isCode, rfl⟩ := follows.next_eq_some called
      have here := List.drop_eq_getElem_cons (Text.lt_length_of_isCodeAt isCode)
      exact .inr ⟨Text.mode_of_isCodeAt here isCode, rfl⟩

theorem Walk.follows {answer : Option Nat} (walk : Walk source answer cursor) :
    Follows source cursor := by
  induction walk with
  | fresh => exact .inr ⟨rfl, rfl⟩
  | call _ called inductionHypothesis => exact inductionHypothesis.call called

/-- A walk answers positions that the reading marks as code, and has the strings open that the
reading has open behind them. -/
theorem Walk.readingAt (walk : Walk source (some position) cursor) :
    source.isCodeAt position = true ∧
      cursor = ⟨position + 1, (source.readingAt (position + 1)).nesting⟩ := by
  cases walk with
  | call walk called => exact walk.follows.next_eq_some called

/-- From any cursor on, `next` answers the code positions one after another, and then nothing. -/
theorem exists_exhausts (source : Text) (cursor : Cursor) :
    ∃ final, Exhausts source cursor (cursor.codePositions source) final := by
  generalize remaining : source.length - cursor.position = bound
  induction bound using Nat.strongRecOn generalizing cursor with
  | ind bound inductionHypothesis =>
      rw [codePositions_eq]
      split
      · next final nothing => exact ⟨final, .done nothing⟩
      · next position behind found =>
        obtain ⟨reached, inside, stands⟩ := Cursor.next_eq_some found
        obtain ⟨final, others⟩ := inductionHypothesis _ (by omega) behind rfl
        exact ⟨final, .answer found others⟩

/-- What `next` answers until it answers nothing are the code positions. -/
theorem Exhausts.eq_codePositions {positions : List Nat}
    (exhausts : Exhausts source cursor positions final) :
    positions = cursor.codePositions source := by
  induction exhausts with
  | done nothing => rw [codePositions_eq, nothing]
  | answer found _ inductionHypothesis => rw [codePositions_eq, found, inductionHypothesis]

theorem le_of_mem_codePositions (member : position ∈ cursor.codePositions source) :
    cursor.position ≤ position := by
  obtain ⟨found, listed, rfl⟩ := List.mem_map.mp member
  exact (of_mem_collect rfl rfl listed).1

/-- In code, a plain character is answered and opens nothing. -/
theorem next_of_plain {c : Char} (here : source.drop cursor.position = c :: rest)
    (inCode : InCode cursor.nesting) (plain : isPlain c = true) :
    cursor.next source = (some cursor.position, ⟨cursor.position + 1, cursor.nesting⟩) := by
  obtain ⟨notQuote, notApostrophe, notHash, notQuestion, notOpen, notClose⟩ :=
    isPlain_iff.mp plain
  have visited : cursor.nesting.visit c rest.head? = (.code, cursor.nesting) :=
    Reading.visit_of_inCode inCode notQuote notOpen notClose
  have noRegion : regionWidth? (source.before? cursor.position) (c :: rest) = none := by
    simp [regionWidth?_cons, notHash, notQuestion, notApostrophe]
  rw [next, here, seek, Nesting.read, visited]
  simp only [noRegion]

/-- Walking through plain characters in code answers each of them and arrives where a jump over
them does. -/
theorem Exhausts.of_plain {piece : Text} {positions : List Nat}
    (here : source.drop cursor.position = piece ++ rest) (inCode : InCode cursor.nesting)
    (plain : ∀ c ∈ piece, isPlain c = true)
    (exhausts : Exhausts source ⟨cursor.position + piece.length, cursor.nesting⟩ positions final) :
    Exhausts source cursor (List.range' cursor.position piece.length ++ positions) final := by
  induction piece generalizing cursor with
  | nil => exact exhausts
  | cons c piece inductionHypothesis =>
      obtain ⟨first, others⟩ := List.forall_mem_cons.mp plain
      rw [List.length_cons, Nat.add_comm piece.length, ← Nat.add_assoc] at exhausts
      rw [List.length_cons, List.range'_succ, List.cons_append]
      refine .answer (next_of_plain here inCode first) ?_
      exact inductionHypothesis (Text.drop_succ_of_drop here) inCode others exhausts

/-- Jumping over plain characters is the same as walking through them: wherever a walk has
answered a position, the cursor that jumps answers the same positions from its target on as the
one that does not, and both end at the same place with the same strings open. -/
theorem Walk.exhausts_jumpTo (walk : Walk source (some position) cursor) {target : Nat}
    (ahead : cursor.position ≤ target) (inside : target ≤ source.length)
    (plain : ∀ c ∈ (source.drop cursor.position).take (target - cursor.position),
      isPlain c = true) :
    ∃ final, Exhausts source cursor (cursor.codePositions source) final ∧
      Exhausts source (cursor.jumpTo target)
        ((cursor.codePositions source).filter fun place => target ≤ place) final := by
  have inCode : InCode cursor.nesting := by
    cases walk with
    | @call _ _ before _ _ called =>
        obtain ⟨between, rounds, _⟩ := exists_rounds source before
        rw [called] at rounds
        exact rounds.inCode rfl
  have here := (List.take_append_drop (target - cursor.position)
    (source.drop cursor.position)).symm
  have width : ((source.drop cursor.position).take (target - cursor.position)).length =
      target - cursor.position := by
    rw [List.length_take, List.length_drop]
    omega
  have jumped : cursor.jumpTo target =
      ⟨cursor.position + (target - cursor.position), cursor.nesting⟩ := by
    rw [jumpTo, Nat.max_eq_right ahead, Nat.add_sub_cancel' ahead]
  obtain ⟨final, exhausts⟩ := exists_exhausts source (cursor.jumpTo target)
  have walked : Exhausts source cursor
      (List.range' cursor.position (target - cursor.position) ++
        (cursor.jumpTo target).codePositions source) final := by
    have through := Exhausts.of_plain here inCode plain (by rwa [width, ← jumped])
    rwa [width] at through
  -- The positions walked through lie before the target, and the others at or behind it.
  have restricted : ((cursor.codePositions source).filter fun place => target ≤ place) =
      (cursor.jumpTo target).codePositions source := by
    rw [← walked.eq_codePositions, List.filter_append, List.filter_eq_nil_iff.mpr,
      List.filter_eq_self.mpr, List.nil_append]
    · intro place member
      have reached := le_of_mem_codePositions member
      simp only [jumpTo] at reached
      simp only [decide_eq_true_eq]
      omega
    · intro place member
      have before := List.mem_range'_1.mp member
      simp only [decide_eq_true_eq]
      omega
  rw [restricted]
  exact ⟨final, walked.eq_codePositions ▸ walked, exhausts⟩

/-- A jump from the first word of an interpolation to its last. -/
theorem Walk.exhausts_jumpTo_interpolated :
    Walk "\"#\x7bab + c\x7d\" d".toList (some 3) ⟨4, [1]⟩ ∧
      (∀ c ∈ ("\"#\x7bab + c\x7d\" d".toList.drop 4).take (8 - 4), isPlain c = true) ∧
      ∃ final,
        Exhausts "\"#\x7bab + c\x7d\" d".toList ⟨4, [1]⟩ [4, 5, 6, 7, 8, 11, 12] final ∧
        Exhausts "\"#\x7bab + c\x7d\" d".toList ⟨8, [1]⟩ [8, 11, 12] final := by
  have walk : Walk "\"#\x7bab + c\x7d\" d".toList (some 3) ⟨4, [1]⟩ :=
    .call .fresh (by decide +kernel)
  have plain : ∀ c ∈ ("\"#\x7bab + c\x7d\" d".toList.drop 4).take (8 - 4), isPlain c = true :=
    List.all_eq_true.mp (by decide)
  have positions : codePositions "\"#\x7bab + c\x7d\" d".toList ⟨4, [1]⟩ =
      [4, 5, 6, 7, 8, 11, 12] := by decide +kernel
  have ahead : (Cursor.mk 4 [1]).position ≤ 8 := by decide
  have jumped := walk.exhausts_jumpTo ahead (by decide) plain
  rw [positions] at jumped
  exact ⟨walk, plain, jumped⟩

end Cursor

end Desugar
