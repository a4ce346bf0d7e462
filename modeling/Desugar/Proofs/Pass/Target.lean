import Desugar.Proofs.Guard.Report
import Desugar.Proofs.Sugar.Shape

/-!
# What is looked for in code

A pass looks for sugar that it would replace, and the guard for assignments to a name. Both
decide by what stands from a position on, up to a few characters behind what they find:
`Target.reach?` tells how far they look, and `Target.reach?_congr` says that nothing further
on matters to them.
-/

namespace Desugar

/-- Something that is looked for at code positions. -/
inductive Target where
  /-- Sugar that a pass would replace. -/
  | sugar (pass : Pass)
  /-- An assignment to a name. -/
  | assignment (name : Text)
  deriving DecidableEq, Repr

/-- Two texts that begin alike begin with the same piece, and go on alike behind it. -/
theorem Text.exists_append_of_take {piece behind other : Text} {reach : Nat}
    (same : other.take reach = (piece ++ behind).take reach) (inside : piece.length ≤ reach) :
    ∃ further, other = piece ++ further ∧
      further.take (reach - piece.length) = behind.take (reach - piece.length) := by
  have start : other.take piece.length = piece := by
    have shorter := congrArg (List.take piece.length) same
    rwa [List.take_take, List.take_take, Nat.min_eq_left inside, List.take_left] at shorter
  refine ⟨other.drop piece.length, ?_, ?_⟩
  · rw [← List.take_append_drop piece.length other, start, List.drop_left]
  · have rest := congrArg (List.drop piece.length) same
    rwa [List.drop_take, List.drop_take, List.drop_left] at rest

theorem Text.head?_of_take {text other : Text} {reach : Nat} (positive : 1 ≤ reach)
    (same : other.take reach = text.take reach) : other.head? = text.head? := by
  have heads := congrArg List.head? same
  rwa [List.head?_take, List.head?_take, if_neg (by omega), if_neg (by omega)] at heads

variable {previous : Option Char} {rest other : Text} {reach : Nat}

namespace ListBlock

/-- Width of the list block at the head of a text, if there is one whose body is not flat. -/
def reach? (keywords : List Keyword) (rest : Text) : Option Nat :=
  (read? keywords rest).bind fun block =>
    if flattenBody block.body = block.body then none else some block.written.length

theorem reach?_eq_some {keywords : List Keyword} (found : reach? keywords rest = some reach) :
    ∃ block, read? keywords rest = some block ∧ flattenBody block.body ≠ block.body ∧
      reach = block.written.length := by
  obtain ⟨block, read, needed⟩ := Option.bind_eq_some_iff.mp found
  split at needed
  · cases needed
  · next uneven =>
    cases needed
    exact ⟨block, read, uneven, rfl⟩

theorem reach?_congr {keywords : List Keyword} (found : reach? keywords rest = some reach)
    (same : other.take reach = rest.take reach) : reach? keywords other = some reach := by
  obtain ⟨block, read, uneven, rfl⟩ := reach?_eq_some found
  obtain ⟨shape, behind, rfl⟩ := read?_eq_some_iff.mp read
  obtain ⟨further, rfl, _⟩ := Text.exists_append_of_take same (Nat.le_refl _)
  have again := read?_eq_some_iff.mpr ⟨shape, further, rfl⟩
  rw [reach?, again, Option.bind_some, if_neg uneven]

end ListBlock

namespace PrefixCall

/-- Number of characters that decide about a prefix call at the head of a text, if there is
one: the one behind it must be no separator. -/
def reach? (name rest : Text) : Option Nat :=
  (read? name rest).map fun call => (call.written name).length + 1

theorem reach?_congr {name : Text} (found : reach? name rest = some reach)
    (same : other.take reach = rest.take reach) : reach? name other = some reach := by
  obtain ⟨call, read, rfl⟩ := Option.map_eq_some_iff.mp found
  obtain ⟨shape, behind, rfl, ends⟩ := read?_eq_some_iff.mp read
  obtain ⟨further, rfl, next⟩ := Text.exists_append_of_take same (Nat.le_succ _)
  rw [Nat.add_sub_cancel_left] at next
  have again := read?_eq_some_iff.mpr ⟨shape, further, rfl, by
    rw [Text.head?_of_take (Nat.le_refl _) next]
    exact ends⟩
  rw [reach?, again, Option.map_some]

end PrefixCall

namespace SymbolPath

/-- Number of characters that decide about a symbol path at the head of a text, if there is
one: the two behind it must not go on with it. -/
def reach? (previous : Option Char) (rest : Text) : Option Nat :=
  (read? previous rest).map fun path => path.written.length + 2

/-- What ends a path is decided by two characters. -/
theorem Ends.of_take (ends : Ends rest) (same : other.take 2 = rest.take 2) :
    Ends other := by
  have first := Text.head?_of_take (Nat.le_succ 1) same
  have second := congrArg (List.drop 1) same
  rw [List.drop_take, List.drop_take] at second
  refine ⟨by rw [first]; exact ends.segment, fun colon => ?_⟩
  rw [Text.head?_of_take (Nat.le_refl 1) second]
  exact ends.more (first.symm.trans colon)

theorem reach?_congr (found : reach? previous rest = some reach)
    (same : other.take reach = rest.take reach) : reach? previous other = some reach := by
  obtain ⟨path, read, rfl⟩ := Option.map_eq_some_iff.mp found
  obtain ⟨alone, accepted, behind, rfl, ends⟩ := read?_eq_some_iff.mp read
  obtain ⟨further, rfl, next⟩ := Text.exists_append_of_take same (Nat.le_add_right _ 2)
  rw [Nat.add_sub_cancel_left] at next
  have again := read?_eq_some_iff.mpr ⟨alone, accepted, further, rfl, ends.of_take next⟩
  rw [reach?, again, Option.map_some]

end SymbolPath

namespace Decimal

/-- Number of characters that decide about a decimal `2.` at the head of a text, if there is
one. -/
def trailingReach? (previous : Option Char) (rest : Text) : Option Nat :=
  (trailingDot? previous rest).map (· + 1)

/-- Number of characters that decide about a decimal `.3` at the head of a text, if there is
one. -/
def leadingReach? (previous : Option Char) (rest : Text) : Option Nat :=
  if leadsWithDot previous rest then some (((rest.drop 1).takeWhile Char.isDigit).length + 2)
  else none

theorem trailingReach?_congr (found : trailingReach? previous rest = some reach)
    (same : other.take reach = rest.take reach) : trailingReach? previous other = some reach := by
  obtain ⟨width, trailing, rfl⟩ := Option.map_eq_some_iff.mp found
  obtain ⟨digits, tail, rfl, nonempty, all, before, behind, rfl⟩ :=
    trailingDot?_eq_some_iff.mp trailing
  have length : (digits ++ ['.']).length = digits.length + 1 := List.length_append ..
  rw [List.append_cons] at same
  obtain ⟨further, rfl, next⟩ := Text.exists_append_of_take same (by omega)
  rw [length, Nat.add_sub_cancel_left] at next
  have again := trailingDot?_eq_some_iff.mpr
    ⟨digits, further, (List.append_cons ..).symm, nonempty, all, before, by
      rw [Text.head?_of_take (Nat.le_refl _) next]
      exact behind, rfl⟩
  rw [trailingReach?, again, Option.map_some]

theorem leadingReach?_congr (found : leadingReach? previous rest = some reach)
    (same : other.take reach = rest.take reach) : leadingReach? previous other = some reach := by
  rw [leadingReach?] at found
  split at found
  · next leads =>
    obtain ⟨alone, digits, behind, rfl, nonempty, all, ends, follows⟩ := leadsWithDot_iff.mp leads
    have run : ∀ {behind : Text}, behind.head?.any Char.isDigit = false →
        (('.' :: digits ++ behind).drop 1).takeWhile Char.isDigit = digits :=
      fun ends => (Text.takeWhile_append all ends).1
    rw [run ends] at found
    cases found
    have length : ('.' :: digits).length = digits.length + 1 := List.length_cons
    obtain ⟨further, rfl, next⟩ := Text.exists_append_of_take same (by omega)
    have head : further.head? = behind.head? := Text.head?_of_take (by omega) next
    have again := leadsWithDot_iff.mpr
      ⟨alone, digits, further, rfl, nonempty, all, by rwa [head], by rwa [head]⟩
    rw [leadingReach?, if_pos again, run (by rwa [head])]
  · cases found

end Decimal

namespace Assignment

/-- Number of characters that decide about an assignment to a name at the head of a text, if
there is one. -/
def reach? (name : Text) (previous : Option Char) (rest : Text) : Option Nat :=
  if standsAt name previous rest then
    some (name.length + ((rest.drop name.length).takeWhile isBlank).length + 2)
  else none

theorem reach?_congr {name : Text} (found : reach? name previous rest = some reach)
    (same : other.take reach = rest.take reach) : reach? name previous other = some reach := by
  rw [reach?] at found
  split at found
  · next stands =>
    obtain ⟨alone, blanks, c, tail, rfl, blank, follows⟩ := standsAt_iff.mp stands
    have run : ∀ tail : Text,
        ((name ++ blanks ++ '=' :: c :: tail).drop name.length).takeWhile isBlank = blanks := by
      intro tail
      rw [List.append_assoc, List.drop_left]
      exact (Text.takeWhile_append blank rfl).1
    have divided : ∀ tail : Text,
        name ++ blanks ++ '=' :: c :: tail = (name ++ blanks ++ ['=', c]) ++ tail := by
      intro tail
      rw [List.append_assoc _ ['=', c]]
      rfl
    rw [run] at found
    cases found
    rw [divided] at same
    obtain ⟨further, rfl, _⟩ := Text.exists_append_of_take same
      (by simp only [List.length_append, List.length_cons, List.length_nil]; omega)
    rw [← divided]
    have again : standsAt name previous (name ++ blanks ++ '=' :: c :: further) = true :=
      standsAt_iff.mpr ⟨alone, blanks, c, further, rfl, blank, follows⟩
    rw [reach?, if_pos again, run]
  · cases found

end Assignment

/-- Number of characters that decide whether something that is looked for stands at the head
of a text, if it does. -/
def Target.reach? (target : Target) (previous : Option Char) (rest : Text) : Option Nat :=
  match target with
  | .sugar (.listBlocks keywords) => ListBlock.reach? keywords rest
  | .sugar (.callSpacing name) => PrefixCall.reach? name rest
  | .sugar (.symbolPaths _) => SymbolPath.reach? previous rest
  | .sugar .trailingDots => Decimal.trailingReach? previous rest
  | .sugar .leadingDots => Decimal.leadingReach? previous rest
  | .assignment name => Assignment.reach? name previous rest

/-- What is looked for is found in every text that begins alike. -/
theorem Target.reach?_congr {target : Target} (found : target.reach? previous rest = some reach)
    (same : other.take reach = rest.take reach) : target.reach? previous other = some reach := by
  match target with
  | .sugar (.listBlocks keywords) => exact ListBlock.reach?_congr found same
  | .sugar (.callSpacing name) => exact PrefixCall.reach?_congr found same
  | .sugar (.symbolPaths _) => exact SymbolPath.reach?_congr found same
  | .sugar .trailingDots => exact Decimal.trailingReach?_congr found same
  | .sugar .leadingDots => exact Decimal.leadingReach?_congr found same
  | .assignment name => exact Assignment.reach?_congr found same

/-- What is found has a first character. -/
theorem Target.one_le_reach? {target : Target}
    (found : target.reach? previous rest = some reach) : 1 ≤ reach := by
  match target with
  | .sugar (.listBlocks keywords) =>
      obtain ⟨block, _, _, rfl⟩ := ListBlock.reach?_eq_some found
      rw [ListBlock.length_written]
      omega
  | .sugar (.callSpacing name) =>
      obtain ⟨call, _, rfl⟩ := Option.map_eq_some_iff.mp found
      omega
  | .sugar (.symbolPaths _) =>
      obtain ⟨path, _, rfl⟩ := Option.map_eq_some_iff.mp found
      omega
  | .sugar .trailingDots =>
      obtain ⟨width, _, rfl⟩ := Option.map_eq_some_iff.mp found
      omega
  | .sugar .leadingDots =>
      rw [reach?, Decimal.leadingReach?] at found
      split at found <;> cases found
      omega
  | .assignment name =>
      rw [reach?, Assignment.reach?] at found
      split at found <;> cases found
      omega

end Desugar
