import Desugar.Proofs.Guard.Report
import Desugar.Proofs.Pass.Sparing

/-!
# Assignments that reach the guard

The guard does not read the source but what the passes before it leave. An assignment in
the source can be gone by then: a list block or a prefix call may take it apart, a symbol
path may swallow the name, and a path that ends in a question mark or a body with a string
may change what is read as a string behind it. `desugar_error_of_spareAll` says that this is
all: an assignment that the passes spare is refused.
-/

namespace Desugar

namespace Assignment

/-- Number of characters of an assignment to a name at a position: the name, the blanks
behind it, the equals sign and the character after that. -/
def width (text name : Text) (position : Nat) : Nat :=
  name.length + ((text.drop (position + name.length)).takeWhile isBlank).length + 2

theorem any_isWord_eq_false_iff {previous : Option Char} :
    previous.any isWord = false ↔ ∀ c, previous = some c → isWord c = false := by
  cases previous <;> simp

/-- An assignment is a piece of text that the source holds, and any text that holds this
piece has the assignment. -/
theorem Occurs.exists_holds {text name : Text} {position : Nat}
    (occurs : Occurs text name position) :
    ∃ piece, piece.length = width text name position ∧ text.Holds piece position ∧
      ∀ other place, Text.Holds other piece place → Occurs other name place := by
  obtain ⟨code, ownWord, blanks, c, rest, written, allBlank, follows⟩ := occurs
  have blanksBehind : (text.drop (position + name.length)).takeWhile isBlank = blanks := by
    rw [← List.drop_drop, written, List.append_assoc, List.drop_left,
      List.takeWhile_append_of_pos allBlank, List.takeWhile_cons_of_neg (by decide),
      List.append_nil]
  refine ⟨name ++ blanks ++ ['=', c], ?_, ⟨Text.mem_codePositions.mp code,
    any_isWord_eq_false_iff.mpr ownWord, rest, ?_⟩, ?_⟩
  · rw [width, blanksBehind, List.length_append, List.length_append]
    rfl
  · rw [written, List.append_assoc]
    rfl
  · rintro other place ⟨otherCode, otherAlone, behind, otherWritten⟩
    refine ⟨Text.mem_codePositions.mpr otherCode, any_isWord_eq_false_iff.mp otherAlone, blanks,
      c, behind, ?_, allBlank, follows⟩
    rw [← otherWritten, List.append_assoc]
    rfl

end Assignment

open Assignment

/-- An assignment to a registered name in the source is refused if the passes before the
guard spare it. -/
theorem desugar_error_of_spareAll {settings : Settings} (guarded : settings.nameGuard = true)
    {registry : List Text} {source name : Text} (member : name ∈ registry) (proper : name ≠ [])
    {position : Nat} (occurs : Occurs source name position)
    (spared : Pass.SpareAll (settings.passesBeforeGuard (properNames registry)) source position
      (Assignment.width source name position)) :
    ∃ collision, desugar settings registry source = .error collision := by
  obtain ⟨piece, length, holds, occursAgain⟩ := occurs.exists_holds
  have long : 3 ≤ piece.length := by
    have positive := List.length_pos_iff.mpr proper
    rw [length, Assignment.width]
    omega
  rw [← length] at spared
  obtain ⟨place, held⟩ := holds.runAll long spared
  exact (exists_error_iff guarded).mpr ⟨name, member, proper, place, occursAgain _ _ held⟩

/-- Ways in which an assignment in the source escapes the guard: inside a list block, as
the head of a prefix call, in a symbol path, behind a path whose question mark belonged to a
character literal, and behind a body with a `#` in a string. -/
theorem desugar_ok_of_assignment :
    (Assignment.collision? "(ing x ring = 1)".toList "ring".toList =
        some ⟨"ring".toList, 1, 7⟩ ∧
      desugar .standard ["ring".toList] "(ing x ring = 1)".toList =
        .ok "(ing x,ring,=,1)".toList) ∧
    (Assignment.collision? "(ring = 1)".toList "ring".toList = some ⟨"ring".toList, 1, 1⟩ ∧
      desugar .standard ["ring".toList] "(ring = 1)".toList = .ok " ring(= 1)".toList) ∧
    (Assignment.collision? ":a:ring = 1".toList "ring".toList = some ⟨"ring".toList, 1, 3⟩ ∧
      desugar .standard ["ring".toList] ":a:ring = 1".toList =
        .ok "::SonicPi::SPSym.new('a : ring') = 1".toList) ∧
    (Assignment.collision? ":a:?' ring = 1".toList "ring".toList = some ⟨"ring".toList, 1, 6⟩ ∧
      desugar .standard ["ring".toList] ":a:?' ring = 1".toList =
        .ok "::SonicPi::SPSym.new('a : ?')' ring = 1".toList) ∧
    (Assignment.collision? "(ing 1 \"# 2\") ring = 1".toList "ring".toList =
        some ⟨"ring".toList, 1, 14⟩ ∧
      desugar .standard ["ring".toList] "(ing 1 \"# 2\") ring = 1".toList =
        .ok "(ing 1,\") ring = 1".toList) := by
  refine ⟨⟨?_, desugar_eq_ok ?_ ?_⟩, ⟨?_, desugar_eq_ok ?_ ?_⟩, ⟨?_, desugar_eq_ok ?_ ?_⟩,
    ⟨?_, desugar_eq_ok ?_ ?_⟩, ?_, desugar_eq_ok ?_ ?_⟩ <;>
    decide +kernel

/-- An assignment behind a list block with a comment, a symbol path and a prefix call, and
before another list block: all are rewritten, and it is refused. -/
theorem desugar_error_of_spareAll_ring :
    Occurs "(ing 1 # 2\n 3) :a:b (knit 3) ring = (ing 4 5)".toList "ring".toList 29 ∧
      Pass.SpareAll (Settings.standard.passesBeforeGuard
          (properNames ["knit".toList, "ring".toList]))
        "(ing 1 # 2\n 3) :a:b (knit 3) ring = (ing 4 5)".toList 29
        (Assignment.width "(ing 1 # 2\n 3) :a:b (knit 3) ring = (ing 4 5)".toList
          "ring".toList 29) ∧
      ∃ collision, desugar .standard ["knit".toList, "ring".toList]
        "(ing 1 # 2\n 3) :a:b (knit 3) ring = (ing 4 5)".toList = .error collision := by
  have occurs : Occurs "(ing 1 # 2\n 3) :a:b (knit 3) ring = (ing 4 5)".toList "ring".toList 29 :=
    occurs_iff.mpr (by decide +kernel)
  have spared : Pass.SpareAll (Settings.standard.passesBeforeGuard
        (properNames ["knit".toList, "ring".toList]))
      "(ing 1 # 2\n 3) :a:b (knit 3) ring = (ing 4 5)".toList 29
      (Assignment.width "(ing 1 # 2\n 3) :a:b (knit 3) ring = (ing 4 5)".toList
        "ring".toList 29) := by
    decide +kernel
  have named : "ring".toList ∈ ["knit".toList, "ring".toList] := by decide
  exact ⟨occurs, spared, desugar_error_of_spareAll rfl named (by decide) occurs spared⟩

end Desugar
