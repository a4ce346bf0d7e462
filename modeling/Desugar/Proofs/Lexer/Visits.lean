import Desugar.Proofs.Lexer.Uses

/-!
# Visits in any order

Whoever walks a text may visit its characters in any order, and leave some of them out. The
strings recorded as open then need not be those of the text, but they are always nested as
strings can be. `Nesting.Visit` says what a single visit may do, and
`Nesting.consistent_visitAll` that along every series of visits each string around another
one has an interpolation open, so that a visit never does more than that.
-/

namespace Desugar

open Reading (InCode)

namespace Nesting

/-- The same strings are open, but for at most one that is the innermost in either case. -/
def SameOutside (before after : Nesting) : Prop :=
  ∃ outer, (before = outer ∨ ∃ depth, before = depth :: outer) ∧
    (after = outer ∨ ∃ depth, after = depth :: outer)

theorem SameOutside.refl (nesting : Nesting) : SameOutside nesting nesting :=
  ⟨nesting, .inl rfl, .inl rfl⟩

/-- The innermost string may be counted differently. -/
theorem SameOutside.top (depth other : Nat) (outer : Nesting) :
    SameOutside (depth :: outer) (other :: outer) :=
  ⟨outer, .inr ⟨depth, rfl⟩, .inr ⟨other, rfl⟩⟩

theorem SameOutside.length_le {before after : Nesting} (same : SameOutside before after) :
    after.length ≤ before.length + 1 ∧ before.length ≤ after.length + 1 := by
  obtain ⟨outer, rfl | ⟨depth, rfl⟩, rfl | ⟨other, rfl⟩⟩ := same
  all_goals grind

/-- What a visit of the character at a position may do, whatever has been visited before. -/
structure Visit (source : Text) (before : Nesting) (position : Nat) (verdict : Option Verdict)
    (after : Nesting) : Prop where
  /-- There is a verdict wherever the text has a character. -/
  answered : verdict.isSome = true ↔ position < source.length
  /-- A closing brace is counted off only where one is open, and means nothing in literal
  text. -/
  counted : source[position]? = some '}' → ∀ depth outer, before = depth :: outer →
    depth = 0 ∧ after = before ∨ ∃ left, depth = left + 1 ∧ after = left :: outer
  /-- Only a string in its literal text is closed, and what is around it is code. -/
  closed : after.length < before.length → before = 0 :: after ∧ InCode after
  /-- At most one string is opened or closed. -/
  length_le : after.length ≤ before.length + 1 ∧ before.length ≤ after.length + 1
  /-- Nothing changes but the innermost string. -/
  sameOutside : SameOutside before after
  /-- What is skipped has a character and ends inside the text. -/
  width : ∀ width, verdict = some (.skip width) → 1 ≤ width ∧ position + width ≤ source.length

variable {source : Text} {nesting after : Nesting} {next : Option Char} {verdict : Verdict}
  {position : Nat}

/-- A visit opens, closes or counts one string, and leaves those around it. -/
theorem Change.sameOutside (change : Change nesting next verdict after) :
    SameOutside nesting after := by
  cases change with
  | code | text | escape => exact .refl _
  | openString => exact ⟨nesting, .inl rfl, .inr ⟨0, rfl⟩⟩
  | openBrace inside | closeBrace inside | closeInterpolation inside
  | openInterpolation inside =>
      subst inside
      exact .top ..
  | closeString inside => exact ⟨after, .inr ⟨0, inside⟩, .inl rfl⟩

/-- A string that is closed is in its literal text. -/
theorem Change.eq_cons_of_length_lt (change : Change nesting next verdict after)
    (shorter : after.length < nesting.length) : nesting = 0 :: after := by
  cases change with
  | code | text | escape => exact absurd shorter (Nat.lt_irrefl _)
  | openString => exact absurd shorter (by simp)
  | openBrace inside | closeBrace inside | closeInterpolation inside
  | openInterpolation inside =>
      subst inside
      exact absurd shorter (Nat.lt_irrefl _)
  | closeString inside => exact inside

/-- Around a string there is code. -/
theorem Enclosing.inCode {depth : Nat} {outer : Nesting}
    (enclosing : Enclosing (depth :: outer)) : InCode outer := by
  intro literal
  have positive := enclosing 0 (List.mem_of_head? literal)
  exact absurd positive (by decide)

/-- A closing brace in a string that is open is counted off from what is open there. -/
theorem visit_closeBrace (depth : Nat) (outer : Nesting) (next : Option Char) :
    depth = 0 ∧ (visit (depth :: outer) '}' next).2 = depth :: outer ∨
      ∃ left, depth = left + 1 ∧ (visit (depth :: outer) '}' next).2 = left :: outer := by
  cases depth with
  | zero => exact .inl ⟨rfl, by simp [visit]⟩
  | succ left => exact .inr ⟨left, rfl, by simp [visit]⟩

/-- The character behind one of the text, if any, lies in the text. -/
theorem add_toList_length_le (inside : position < source.length) :
    position + (source[position + 1]?.toList.length + 1) ≤ source.length := by
  rcases Nat.lt_or_ge (position + 1) source.length with further | atEnd
  · simp only [List.getElem?_eq_getElem further, Option.toList_some, List.length_singleton]
    omega
  · simp only [List.getElem?_eq_none atEnd, Option.toList_none, List.length_nil]
    omega

/-- A visit of a character does what it may. -/
theorem Enclosing.visit (enclosing : nesting.Enclosing) {c : Char}
    (here : source[position]? = some c) :
    Visit source nesting position (some (nesting.visit c source[position + 1]?).1)
      (nesting.visit c source[position + 1]?).2 := by
  have inside : position < source.length := (List.getElem?_eq_some_iff.mp here).1
  have change := change_visit nesting c source[position + 1]?
  refine ⟨by simp [inside], ?_, ?_, change.sameOutside.length_le, change.sameOutside, ?_⟩
  · rintro brace depth outer rfl
    cases here.symm.trans brace
    exact visit_closeBrace depth outer _
  · intro shorter
    have literal := change.eq_cons_of_length_lt shorter
    exact ⟨literal, (literal ▸ enclosing).inCode⟩
  · intro width skipped
    rw [Option.some.inj skipped] at change
    obtain ⟨positive, bounded⟩ := change.width
    have reached := add_toList_length_le inside
    exact ⟨positive, by omega⟩

/-- Where the text has no character, a visit does nothing. -/
theorem visit_beyond (nesting : Nesting) (beyond : source[position]? = none) :
    Visit source nesting position none nesting := by
  have outside := List.getElem?_eq_none_iff.mp beyond
  refine ⟨by simp [outside], fun brace => ?_, fun shorter => ?_, by omega, .refl nesting, nofun⟩
  · cases beyond.symm.trans brace
  · exact absurd shorter (Nat.lt_irrefl _)

/-- A series of visits, with its answers, that keeps the strings nested: before each visit and
behind the last one, every string around another one has an interpolation open, and each visit
does what it may. -/
inductive Consistent (source : Text) :
    Nesting → List Nat → List (Option Verdict × Nesting) → Prop where
  | ended {nesting : Nesting} (enclosing : nesting.Enclosing) : Consistent source nesting [] []
  | visited {nesting after : Nesting} {position : Nat} {positions : List Nat}
      {verdict : Option Verdict} {answers : List (Option Verdict × Nesting)}
      (enclosing : nesting.Enclosing) (visit : Visit source nesting position verdict after)
      (others : Consistent source after positions answers) :
      Consistent source nesting (position :: positions) ((verdict, after) :: answers)

/-- Every series of visits keeps strings nested that are nested at its start. -/
theorem Enclosing.consistent (enclosing : nesting.Enclosing) (positions : List Nat) :
    Consistent source nesting positions (visitAll source nesting positions) := by
  induction positions generalizing nesting with
  | nil => exact .ended enclosing
  | cons position positions inductionHypothesis =>
      unfold visitAll
      split
      · next beyond =>
        exact .visited enclosing (visit_beyond nesting beyond) (inductionHypothesis enclosing)
      · next c here =>
        have change := change_visit nesting c source[position + 1]?
        exact .visited enclosing (enclosing.visit here)
          (inductionHypothesis (change.enclosing enclosing))

/-- Every series of visits to a text, in any order, keeps the strings nested. -/
theorem consistent_visitAll (source : Text) (positions : List Nat) :
    Consistent source [] positions (visitAll source [] positions) := by
  have enclosing : Enclosing [] := nofun
  exact enclosing.consistent positions

end Nesting

end Desugar
