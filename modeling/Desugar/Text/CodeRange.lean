/-!
# Ranges of code points

A character class beyond ASCII is a list of inclusive ranges. `CodeRange.anyContains`
is the only reader of such a list, and `CodeRange.anyContains_iff` says what it reads.
-/

namespace Desugar

/-- The code points from `first` to `last`, both included. -/
structure CodeRange where
  first : Nat
  last : Nat
  deriving DecidableEq, Repr

namespace CodeRange

/-- Whether a code point lies in the range. -/
def contains (range : CodeRange) (code : Nat) : Bool :=
  range.first.ble code && code.ble range.last

/-- Whether a code point lies in one of the ranges. -/
def anyContains (ranges : List CodeRange) (code : Nat) : Bool :=
  ranges.any fun range => range.contains code

theorem contains_iff {range : CodeRange} {code : Nat} :
    range.contains code = true ↔ range.first ≤ code ∧ code ≤ range.last := by
  simp [contains]

theorem anyContains_iff {ranges : List CodeRange} {code : Nat} :
    anyContains ranges code = true ↔
      ∃ range ∈ ranges, range.first ≤ code ∧ code ≤ range.last := by
  simp [anyContains, contains_iff]

end CodeRange

end Desugar
