import Desugar.Proofs.Lexer.Reading

/-!
# Cursors under any use

A cursor can be asked for the next code position and sent ahead in any order, also into the
middle of a string or past the end of the text. `Nesting.Change` lists what one character can
do to the strings that are open, and `Cursor.Rounds` makes the rounds of `Cursor.next`
visible, one character or region each. What a round keeps (`Cursor.Sound.read`) is kept by
every call and by every series of uses, and `Cursor.wellBehaved_run` collects what follows:
calls end, positions only grow and stay in bounds, an answer is never in the literal text of
a string, and the braces that are counted never outnumber the characters of the text.
-/

namespace Desugar

open Reading (InCode inCode_nil)

namespace Nesting

/-- What a visit can do to the strings that are open, where `next` is the character behind
the visited one. -/
inductive Change (nesting : Nesting) (next : Option Char) : Verdict → Nesting → Prop where
  | code (inCode : InCode nesting) : Change nesting next .code nesting
  | openString (inCode : InCode nesting) : Change nesting next (.skip 1) (0 :: nesting)
  | openBrace {depth : Nat} {outer : Nesting} (inside : nesting = (depth + 1) :: outer) :
      Change nesting next .code ((depth + 2) :: outer)
  | closeBrace {depth : Nat} {outer : Nesting} (inside : nesting = (depth + 2) :: outer) :
      Change nesting next .code ((depth + 1) :: outer)
  | closeInterpolation {outer : Nesting} (inside : nesting = 1 :: outer) :
      Change nesting next (.skip 1) (0 :: outer)
  | text {outer : Nesting} (inside : nesting = 0 :: outer) : Change nesting next (.skip 1) nesting
  | escape {outer : Nesting} (inside : nesting = 0 :: outer) (behind : next.isSome = true) :
      Change nesting next (.skip 2) nesting
  | openInterpolation {outer : Nesting} (inside : nesting = 0 :: outer)
      (behind : next.isSome = true) : Change nesting next (.skip 2) (1 :: outer)
  | closeString {outer : Nesting} (inside : nesting = 0 :: outer) :
      Change nesting next (.skip 1) outer

/-- A visit does nothing else. -/
theorem change_visit (nesting : Nesting) (c : Char) (next : Option Char) :
    Change nesting next (nesting.visit c next).1 (nesting.visit c next).2 := by
  cases nesting with
  | nil =>
      rw [visit]
      split
      · exact .openString inCode_nil
      · exact .code inCode_nil
  | cons depth outer =>
      cases depth with
      | zero =>
          rw [visit]
          split
          · next escaped =>
            rw [Bool.and_eq_true] at escaped
            exact .escape rfl escaped.2
          · split
            · next interpolated =>
              rw [Bool.and_eq_true, decide_eq_true_iff, decide_eq_true_iff] at interpolated
              exact .openInterpolation rfl (by rw [interpolated.2]; rfl)
            · split
              · exact .closeString rfl
              · exact .text rfl
      | succ depth =>
          have inCode : InCode ((depth + 1) :: outer) := by simp [InCode]
          rw [visit]
          split
          · exact .openString inCode
          · split
            · exact .openBrace rfl
            · split
              · cases depth with
                | zero => exact .closeInterpolation rfl
                | succ depth => exact .closeBrace rfl
              · exact .code inCode

/-- Number of strings that are open and of braces that are open in them. -/
def weight : Nesting → Nat
  | [] => 0
  | depth :: outer => depth + 1 + weight outer

@[simp]
theorem weight_nil : weight [] = 0 := rfl

@[simp]
theorem weight_cons (depth : Nat) (outer : Nesting) :
    weight (depth :: outer) = depth + 1 + weight outer := rfl

theorem lt_weight_of_mem {nesting : Nesting} {depth : Nat} (member : depth ∈ nesting) :
    depth < nesting.weight := by
  induction nesting with
  | nil => cases member
  | cons first outer inductionHypothesis =>
      rw [weight_cons]
      rcases List.mem_cons.mp member with rfl | later
      · omega
      · have bounded := inductionHypothesis later
        omega

/-- Every string around another one has an interpolation open, which the inner one is in. -/
def Enclosing (nesting : Nesting) : Prop :=
  ∀ depth ∈ nesting.tail, 1 ≤ depth

variable {nesting after : Nesting} {next : Option Char} {verdict : Verdict}

/-- In code, every string that is open has an interpolation open. -/
theorem Enclosing.one_le_of_inCode (enclosing : nesting.Enclosing) (inCode : InCode nesting) :
    ∀ depth ∈ nesting, 1 ≤ depth := by
  intro depth member
  cases nesting with
  | nil => cases member
  | cons first outer =>
      rcases List.mem_cons.mp member with rfl | outside
      · refine Nat.one_le_iff_ne_zero.mpr fun literal => inCode ?_
        rw [literal, List.head?_cons]
      · exact enclosing depth outside

theorem Enclosing.tail {depth : Nat} {outer : Nesting}
    (enclosing : Enclosing (depth :: outer)) : outer.Enclosing := fun inner member =>
  enclosing inner (List.mem_of_mem_tail member)

/-- A string opens in code only, so it is always enclosed by an interpolation. -/
theorem Change.enclosing (change : Change nesting next verdict after)
    (enclosing : nesting.Enclosing) : after.Enclosing := by
  cases change with
  | code | text | escape => exact enclosing
  | openString inCode => exact enclosing.one_le_of_inCode inCode
  | openBrace inside | closeBrace inside | closeInterpolation inside
  | openInterpolation inside =>
      subst inside
      exact enclosing
  | closeString inside =>
      subst inside
      exact enclosing.tail

/-- A character opens at most one string or one brace. -/
theorem Change.weight_le (change : Change nesting next verdict after) :
    after.weight ≤ nesting.weight + 1 := by
  cases change with
  | code | text | escape => exact Nat.le_succ _
  | openString => rw [weight_cons]; omega
  | openBrace inside | closeBrace inside | closeInterpolation inside
  | openInterpolation inside | closeString inside =>
      subst inside
      simp only [weight_cons]
      omega

/-- Behind a character that is code, nothing but code comes next. -/
theorem Change.inCode (change : Change nesting next .code after) : InCode after := by
  cases change with
  | code inCode => exact inCode
  | openBrace | closeBrace => simp [InCode]

/-- A visit skips no more than the two characters that it sees. -/
theorem Change.width {width : Nat} (change : Change nesting next (.skip width) after) :
    1 ≤ width ∧ width ≤ next.toList.length + 1 := by
  cases change with
  | openString | closeInterpolation | text | closeString => omega
  | escape _ behind | openInterpolation _ behind =>
      obtain ⟨c, rfl⟩ := Option.isSome_iff_exists.mp behind
      simp

variable {previous : Option Char} {c : Char} {rest : Text}

/-- A read is a visit, unless a region begins where the visit finds code. -/
theorem read_cases (read : nesting.read previous c rest = (verdict, after)) :
    (∃ width, verdict = .skip width ∧ nesting.visit c rest.head? = (.skip width, after)) ∨
      nesting.visit c rest.head? = (.code, after) ∧
        ((∃ width, verdict = .skip width ∧ regionWidth? previous (c :: rest) = some width) ∨
          verdict = .code ∧ regionWidth? previous (c :: rest) = none) := by
  unfold Nesting.read at read
  split at read
  · next width left visited =>
    cases read
    exact .inl ⟨width, rfl, visited⟩
  · next left visited =>
    split at read
    · next width region =>
      cases read
      exact .inr ⟨visited, .inl ⟨width, rfl, region⟩⟩
    · next noRegion =>
      cases read
      exact .inr ⟨visited, .inr ⟨rfl, noRegion⟩⟩

/-- A region leaves open what the visit of its first character does. -/
theorem read_eq_visit (read : nesting.read previous c rest = (verdict, after)) :
    ∃ visited, Change nesting rest.head? visited after ∧ (visited = verdict ∨
      visited = .code ∧ ∃ width, verdict = .skip width ∧
        regionWidth? previous (c :: rest) = some width) := by
  have change := change_visit nesting c rest.head?
  obtain ⟨width, rfl, visited⟩ | ⟨visited, ⟨width, rfl, region⟩ | ⟨rfl, _⟩⟩ := read_cases read
  · rw [visited] at change
    exact ⟨_, change, .inl rfl⟩
  · rw [visited] at change
    exact ⟨_, change, .inr ⟨rfl, width, rfl, region⟩⟩
  · rw [visited] at change
    exact ⟨_, change, .inl rfl⟩

/-- What is skipped has a character and ends inside the text. -/
theorem width_of_read {width : Nat}
    (read : nesting.read previous c rest = (.skip width, after)) :
    1 ≤ width ∧ width ≤ rest.length + 1 := by
  obtain ⟨visited, change, rfl | ⟨_, _, same, region⟩⟩ := read_eq_visit read
  · have bounds := change.width
    cases rest with
    | nil => exact bounds
    | cons next rest =>
        simp only [List.head?_cons, Option.toList_some, List.length_cons, List.length_nil]
          at bounds ⊢
        omega
  · cases same
    exact regionWidth?_bounds region

end Nesting

namespace Cursor

/-- What holds of a cursor however it has been used: strings are enclosed by interpolations,
and no more strings and braces are open than there are characters behind the cursor, or in
the text. -/
structure Sound (source : Text) (cursor : Cursor) : Prop where
  enclosing : cursor.nesting.Enclosing
  weight_le_position : cursor.nesting.weight ≤ cursor.position
  weight_le_length : cursor.nesting.weight ≤ source.length

variable {source rest : Text} {cursor after : Cursor} {c : Char} {verdict : Verdict}
  {steps : List Step}

theorem sound_start (source : Text) : Sound source start :=
  ⟨nofun, Nat.le_refl 0, Nat.zero_le _⟩

/-- A cursor that is sent ahead stays sound, whatever it passes over. -/
theorem Sound.jumpTo (sound : Sound source cursor) (target : Nat) :
    Sound source (cursor.jumpTo target) :=
  ⟨sound.enclosing, Nat.le_trans sound.weight_le_position (Nat.le_max_left _ _),
    sound.weight_le_length⟩

/-- A cursor stays sound when it reads a character and goes on somewhere behind it. -/
theorem Sound.read (sound : Sound source cursor) (here : source.drop cursor.position = c :: rest)
    {left : Nesting}
    (read : cursor.nesting.read (source.before? cursor.position) c rest = (verdict, left))
    {position : Nat} (behind : cursor.position < position) : Sound source ⟨position, left⟩ := by
  obtain ⟨_, change, _⟩ := Nesting.read_eq_visit read
  have inside := Text.lt_length_of_drop here
  have grown := change.weight_le
  have bounded := sound.weight_le_position
  refine ⟨change.enclosing sound.enclosing, ?_, ?_⟩ <;> simp only <;> omega

/-- The rounds of a call for the next code position: each reads the character at the cursor,
and goes on behind what is skipped until one is code or the text ends. The list holds the
cursors between the rounds. -/
inductive Rounds (source : Text) : Cursor → List Cursor → Option Nat × Cursor → Prop where
  | ended {cursor : Cursor} (nothing : source.drop cursor.position = []) :
      Rounds source cursor [] (none, cursor)
  | found {cursor : Cursor} {c : Char} {rest : Text} {left : Nesting}
      (here : source.drop cursor.position = c :: rest)
      (read : cursor.nesting.read (source.before? cursor.position) c rest = (.code, left)) :
      Rounds source cursor [] (some cursor.position, ⟨cursor.position + 1, left⟩)
  | skipped {cursor : Cursor} {c : Char} {rest : Text} {left : Nesting} {width : Nat}
      {between : List Cursor} {answer : Option Nat × Cursor}
      (here : source.drop cursor.position = c :: rest)
      (read : cursor.nesting.read (source.before? cursor.position) c rest = (.skip width, left))
      (others : Rounds source ⟨cursor.position + width, left⟩ between answer) :
      Rounds source cursor (⟨cursor.position + width, left⟩ :: between) answer

/-- A call for the next code position ends after finitely many rounds. -/
theorem exists_rounds (source : Text) (cursor : Cursor) :
    ∃ between, Rounds source cursor between (cursor.next source) ∧
      between.length ≤ source.length - cursor.position := by
  generalize remaining : source.length - cursor.position = bound
  induction bound using Nat.strongRecOn generalizing cursor with
  | ind bound inductionHypothesis =>
      cases here : source.drop cursor.position with
      | nil =>
          have ended : cursor.next source = (none, cursor) := by
            rw [next, here]
            rfl
          rw [ended]
          exact ⟨[], .ended here, Nat.zero_le _⟩
      | cons c rest =>
          have inside := Text.lt_length_of_drop here
          cases read : cursor.nesting.read (source.before? cursor.position) c rest with
          | mk verdict left =>
              cases verdict with
              | code =>
                  have found : cursor.next source =
                      (some cursor.position, ⟨cursor.position + 1, left⟩) := by
                    rw [next, here, seek, read]
                  rw [found]
                  exact ⟨[], .found here read, Nat.zero_le _⟩
              | skip width =>
                  obtain ⟨positive, _⟩ := Nesting.width_of_read read
                  have goesOn : cursor.next source =
                      next source ⟨cursor.position + width, left⟩ := by
                    have resumed : cursor.position + 1 + (width - 1) =
                        cursor.position + width := by omega
                    rw [next, here, seek, read]
                    simp only
                    rw [seek_eq_next (Text.drop_succ_of_drop here)
                      fun _ => by simp [Text.getElem?_of_drop here]]
                    simp only [resumed]
                  obtain ⟨between, rounds, few⟩ := inductionHypothesis
                    (source.length - (cursor.position + width)) (by omega)
                    ⟨cursor.position + width, left⟩ rfl
                  rw [goesOn]
                  refine ⟨_, .skipped here read rounds, ?_⟩
                  rw [List.length_cons]
                  omega

variable {between : List Cursor} {answer : Option Nat × Cursor}

/-- The cursors between the rounds of a call, and the one behind it, are sound. -/
theorem Rounds.sound (rounds : Rounds source cursor between answer)
    (sound : Sound source cursor) :
    (∀ passed ∈ between, Sound source passed) ∧ Sound source answer.2 := by
  induction rounds with
  | ended => exact ⟨nofun, sound⟩
  | found here read => exact ⟨nofun, sound.read here read (Nat.lt_succ_self _)⟩
  | skipped here read others inductionHypothesis =>
      obtain ⟨positive, _⟩ := Nesting.width_of_read read
      have resumed := sound.read here read (Nat.lt_add_of_pos_right positive)
      obtain ⟨passed, final⟩ := inductionHypothesis resumed
      exact ⟨List.forall_mem_cons.mpr ⟨resumed, passed⟩, final⟩

/-- The rounds of a call only move the cursor ahead. -/
theorem Rounds.pairwise_position (rounds : Rounds source cursor between answer) :
    (cursor :: between ++ [answer.2]).Pairwise
      fun earlier later => earlier.position ≤ later.position := by
  induction rounds with
  | ended => simp
  | found => simp
  | skipped here read others inductionHypothesis =>
      refine List.pairwise_cons.mpr ⟨?_, inductionHypothesis⟩
      refine List.forall_mem_cons.mpr ⟨Nat.le_add_right _ _, fun later member => ?_⟩
      have behind := (List.pairwise_cons.mp inductionHypothesis).1 later member
      exact Nat.le_trans (Nat.le_add_right _ _) behind

/-- A call does not move the cursor past the end of the text. -/
theorem Rounds.position_le (rounds : Rounds source cursor between answer) :
    answer.2.position ≤ max source.length cursor.position := by
  induction rounds with
  | ended => exact Nat.le_max_right _ _
  | found here =>
      have inside := Text.lt_length_of_drop here
      simp only
      omega
  | skipped here read others inductionHypothesis =>
      obtain ⟨_, bounded⟩ := Nesting.width_of_read read
      have lengths := congrArg List.length here
      rw [List.length_drop, List.length_cons] at lengths
      simp only at inductionHypothesis
      omega

/-- A call that answers a position leaves the cursor in code. -/
theorem Rounds.inCode (rounds : Rounds source cursor between answer) {position : Nat}
    (answered : answer.1 = some position) : InCode answer.2.nesting := by
  induction rounds with
  | ended => cases answered
  | found here read =>
      obtain ⟨_, change, rfl | ⟨_, _, skipped, _⟩⟩ := Nesting.read_eq_visit read
      · exact change.inCode
      · cases skipped
  | skipped _ _ _ inductionHypothesis => exact inductionHypothesis answered

/-- How far a use sends a cursor ahead. -/
def Step.target : Step → Nat
  | .next => 0
  | .jump target => target

/-- The largest position that a series of uses jumps to. -/
def furthest (steps : List Step) : Nat :=
  (steps.map Step.target).foldr max 0

/-- What one use of a sound cursor does: it keeps it sound, moves it ahead but not past the end
of the text and the target of a jump, and answers a position only in code, from the old
position of the cursor on and before the new one. -/
structure Use (source : Text) (cursor : Cursor) (step : Step) (answer : Option Nat × Cursor) :
    Prop where
  sound : Sound source answer.2
  ahead : cursor.position ≤ answer.2.position
  reached : step.target ≤ answer.2.position
  bounded : answer.2.position ≤ max (max source.length cursor.position) step.target
  answered : ∀ position, answer.1 = some position → cursor.position ≤ position ∧
    position < source.length ∧ position < answer.2.position ∧ ∀ depth ∈ answer.2.nesting, 1 ≤ depth

theorem Sound.use (sound : Sound source cursor) (step : Step) :
    Use source cursor step (cursor.step source step) := by
  cases step with
  | jump target =>
      refine ⟨sound.jumpTo target, Nat.le_max_left _ _, Nat.le_max_right _ _, ?_, nofun⟩
      simp only [step, Cursor.jumpTo, Step.target]
      omega
  | next =>
      obtain ⟨between, rounds, _⟩ := exists_rounds source cursor
      have stillSound := (rounds.sound sound).2
      refine ⟨stillSound, ?_, Nat.zero_le _,
        Nat.le_trans rounds.position_le (Nat.le_max_left _ _), ?_⟩
      · exact (List.pairwise_cons.mp rounds.pairwise_position).1 _ (by simp [step])
      · intro position answered
        have found : cursor.next source = (some position, (cursor.next source).2) :=
          Prod.ext answered rfl
        obtain ⟨reached, inside, behind⟩ := next_eq_some found
        refine ⟨reached, inside, Nat.lt_of_lt_of_eq (Nat.lt_succ_self _) behind.symm, ?_⟩
        exact stillSound.enclosing.one_le_of_inCode (rounds.inCode answered)

@[simp]
theorem run_cons (source : Text) (cursor : Cursor) (step : Step) (steps : List Step) :
    cursor.run source (step :: steps) =
      cursor.step source step :: (cursor.step source step).2.run source steps := rfl

/-- Every answer of a series of uses is the answer of one of them, by a sound cursor that is
no further back than the first. -/
theorem Sound.exists_use (sound : Sound source cursor)
    (member : answer ∈ cursor.run source steps) :
    ∃ before step, cursor.position ≤ before.position ∧ Use source before step answer := by
  induction steps generalizing cursor with
  | nil => cases member
  | cons step steps inductionHypothesis =>
      have use := sound.use step
      rcases List.mem_cons.mp member with rfl | later
      · exact ⟨cursor, step, Nat.le_refl _, use⟩
      · obtain ⟨before, other, ahead, used⟩ := inductionHypothesis use.sound later
        exact ⟨before, other, Nat.le_trans use.ahead ahead, used⟩

/-- Every answer of a series of uses lies at or behind the first cursor. -/
theorem Sound.le_of_mem_run (sound : Sound source cursor)
    (member : answer ∈ cursor.run source steps) :
    cursor.position ≤ answer.2.position ∧
      ∀ position, answer.1 = some position → cursor.position ≤ position := by
  obtain ⟨before, step, ahead, use⟩ := sound.exists_use member
  refine ⟨Nat.le_trans ahead use.ahead, fun position answered => ?_⟩
  exact Nat.le_trans ahead (use.answered position answered).1

/-- The cursor never moves back. -/
theorem Sound.pairwise_position (sound : Sound source cursor) (steps : List Step) :
    (cursor :: (cursor.run source steps).map Prod.snd).Pairwise
      fun earlier later => earlier.position ≤ later.position := by
  induction steps generalizing cursor with
  | nil => exact List.pairwise_singleton _ _
  | cons step steps inductionHypothesis =>
      refine List.pairwise_cons.mpr ⟨fun later member => ?_, ?_⟩
      · obtain ⟨answer, listed, rfl⟩ := List.mem_map.mp member
        exact (sound.le_of_mem_run listed).1
      · exact inductionHypothesis (sound.use step).sound

/-- The positions that are answered increase. -/
theorem Sound.pairwise_answers (sound : Sound source cursor) (steps : List Step) :
    ((cursor.run source steps).filterMap Prod.fst).Pairwise (· < ·) := by
  induction steps generalizing cursor with
  | nil => exact .nil
  | cons step steps inductionHypothesis =>
      have use := sound.use step
      have others := inductionHypothesis use.sound
      rw [run_cons, List.filterMap_cons]
      split
      · exact others
      · next position answered =>
        refine List.pairwise_cons.mpr ⟨fun later member => ?_, others⟩
        obtain ⟨answer, listed, found⟩ := List.mem_filterMap.mp member
        have behind := (use.sound.le_of_mem_run listed).2 later found
        exact Nat.lt_of_lt_of_le (use.answered position answered).2.2.1 behind

/-- Nothing is answered before the target of an earlier jump. -/
theorem Sound.le_of_jump (sound : Sound source cursor) {earlier later target position : Nat}
    (before : earlier < later) (jumped : steps[earlier]? = some (.jump target))
    (answered : ((cursor.run source steps)[later]?.bind Prod.fst) = some position) :
    target ≤ position := by
  induction steps generalizing cursor earlier later with
  | nil => cases jumped
  | cons step steps inductionHypothesis =>
      have use := sound.use step
      obtain ⟨behind, rfl⟩ := Nat.exists_eq_add_one_of_ne_zero (Nat.ne_zero_of_lt before)
      rw [run_cons, List.getElem?_cons_succ] at answered
      cases earlier with
      | zero =>
          cases Option.some.inj jumped
          obtain ⟨answer, listed, found⟩ := Option.bind_eq_some_iff.mp answered
          have reached : target ≤ (cursor.step source (.jump target)).2.position := use.reached
          exact Nat.le_trans reached
            ((use.sound.le_of_mem_run (List.mem_of_getElem? listed)).2 position found)
      | succ earlier =>
          exact inductionHypothesis use.sound (Nat.lt_of_succ_lt_succ before) jumped answered

/-- The cursor stays in the text unless a jump sends it further. -/
theorem Sound.position_le_furthest (sound : Sound source cursor) {index : Nat}
    (listed : (cursor.run source steps)[index]? = some answer) :
    answer.2.position ≤
      max (max source.length cursor.position) (furthest (steps.take (index + 1))) := by
  induction steps generalizing cursor index with
  | nil => cases listed
  | cons step steps inductionHypothesis =>
      have use := sound.use step
      have bounded := use.bounded
      have furthest_cons : furthest ((step :: steps).take (index + 1)) =
          max step.target (furthest (steps.take index)) := rfl
      rw [run_cons] at listed
      cases index with
      | zero =>
          cases Option.some.inj listed
          omega
      | succ index =>
          have later := inductionHypothesis use.sound listed
          omega

/-- The cursors that a series of uses with the given answers goes through: those between the
uses, and those between the rounds of a call. -/
inductive Passed (source : Text) (answers : List (Option Nat × Cursor)) : Cursor → Prop where
  | use {cursor : Cursor} (listed : cursor ∈ start :: answers.map Prod.snd) :
      Passed source answers cursor
  | round {cursor passed : Cursor} {between : List Cursor}
      (listed : cursor ∈ start :: answers.map Prod.snd)
      (rounds : Rounds source cursor between (cursor.next source)) (member : passed ∈ between) :
      Passed source answers passed

theorem Passed.sound (passed : Passed source (start.run source steps) cursor) :
    Sound source cursor := by
  have ofUse {cursor : Cursor}
      (listed : cursor ∈ start :: (start.run source steps).map Prod.snd) :
      Sound source cursor := by
    rcases List.mem_cons.mp listed with rfl | later
    · exact sound_start source
    · obtain ⟨answer, member, rfl⟩ := List.mem_map.mp later
      obtain ⟨_, _, _, use⟩ := (sound_start source).exists_use member
      exact use.sound
  cases passed with
  | use listed => exact ofUse listed
  | round listed rounds member => exact (rounds.sound (ofUse listed)).1 cursor member

/-- A series of uses of a cursor, with their answers, that goes as it should. -/
structure WellBehaved (source : Text) (steps : List Step)
    (answers : List (Option Nat × Cursor)) : Prop where
  /-- Wherever the cursor stands, a call for the next code position ends, and moves the cursor
  ahead only. -/
  ends : ∀ cursor ∈ start :: answers.map Prod.snd,
    ∃ between, Rounds source cursor between (cursor.next source) ∧
      between.length ≤ source.length - cursor.position ∧
      (cursor :: between ++ [(cursor.next source).2]).Pairwise
        fun earlier later => earlier.position ≤ later.position
  /-- The positions that are answered lie in the text. -/
  inside : ∀ position ∈ answers.filterMap Prod.fst, position < source.length
  /-- The positions that are answered increase. -/
  increasing : (answers.filterMap Prod.fst).Pairwise (· < ·)
  /-- Nothing is answered before the target of an earlier jump. -/
  behindJumps : ∀ earlier later target position : Nat, earlier < later →
    steps[earlier]? = some (.jump target) →
    answers[later]?.bind Prod.fst = some position → target ≤ position
  /-- The cursor never moves back. -/
  ahead : (start :: answers.map Prod.snd).Pairwise
    fun earlier later => earlier.position ≤ later.position
  /-- The cursor stays in the text unless a jump sends it further. -/
  bounded : ∀ (index : Nat) (answer : Option Nat × Cursor), answers[index]? = some answer →
    answer.2.position ≤ max source.length (furthest (steps.take (index + 1)))
  /-- Where a position is answered, every string that is open has an interpolation open. -/
  inCode : ∀ answer ∈ answers, answer.1.isSome = true → ∀ depth ∈ answer.2.nesting, 1 ≤ depth
  /-- There are never more strings and braces open than the text has characters. -/
  weight : ∀ cursor, Passed source answers cursor →
    cursor.nesting.weight ≤ source.length
  /-- The number of braces open in a string fits into 32 bits if that of characters does. -/
  fits : source.length < UInt32.size → ∀ cursor, Passed source answers cursor →
    ∀ depth ∈ cursor.nesting, depth < UInt32.size

/-- Every series of uses of a fresh cursor on every text goes as it should. -/
theorem wellBehaved_run (source : Text) (steps : List Step) :
    WellBehaved source steps (start.run source steps) where
  ends cursor _ := by
    obtain ⟨between, rounds, few⟩ := exists_rounds source cursor
    exact ⟨between, rounds, few, rounds.pairwise_position⟩
  inside position answered := by
    obtain ⟨answer, member, found⟩ := List.mem_filterMap.mp answered
    obtain ⟨_, _, _, use⟩ := (sound_start source).exists_use member
    exact (use.answered position found).2.1
  increasing := (sound_start source).pairwise_answers steps
  behindJumps _ _ _ _ before jumped answered :=
    (sound_start source).le_of_jump before jumped answered
  ahead := (sound_start source).pairwise_position steps
  bounded index answer listed := by
    have bounded := (sound_start source).position_le_furthest listed
    rwa [start, Nat.max_zero] at bounded
  inCode answer member answered := by
    obtain ⟨_, _, _, use⟩ := (sound_start source).exists_use member
    obtain ⟨position, found⟩ := Option.isSome_iff_exists.mp answered
    exact (use.answered position found).2.2.2
  weight _ passed := passed.sound.weight_le_length
  fits short _ passed _ member :=
    Nat.lt_of_lt_of_le (Nesting.lt_weight_of_mem member)
      (Nat.le_trans passed.sound.weight_le_length (Nat.le_of_lt short))

end Cursor

end Desugar
