import Desugar.Proofs.Lexer.InStep

/-!
# Where list blocks are found

List blocks are looked for in code, but the body of a block is jumped over unread and ends
at the next closing parenthesis, be it in a string or in a comment. From there on the scan
takes string text for code and code for string text. `ListBlock.mem_codePositions_of_inStep`
says that this is the only way to find a block outside code, and
`ListBlock.found_outside_code` that it is one.
-/

namespace Desugar

namespace ListBlock

/-- Behind a block, a reading that goes through it is in code, with the same strings open
as behind its opening parenthesis. -/
def InStep (source : Text) (found : Nat × ListBlock) : Prop :=
  source.InStep found.1 found.2.written.length

instance (source : Text) (found : Nat × ListBlock) : Decidable (InStep source found) :=
  inferInstanceAs (Decidable (source.InStep found.1 found.2.written.length))

/-- A list block that is found has its opening parenthesis in code, if the blocks found
before it are in step. -/
theorem mem_codePositions_of_inStep {keywords : List Keyword} {source : Text}
    {found : Nat × ListBlock} (member : found ∈ all keywords source)
    (inStep : ∀ earlier ∈ all keywords source, earlier.1 < found.1 → InStep source earlier) :
    found.1 ∈ source.codePositions ∧ source[found.1]? = some '(' := by
  obtain ⟨position, block⟩ := found
  refine ⟨?_, ?_⟩
  · apply Text.mem_codePositions.mpr
    exact Text.isCodeAt_of_mem_scan (fits_rule keywords) member inStep
  · obtain ⟨behind, written⟩ := written_isPrefix_of_read? (read?_of_mem_all member)
    exact Text.getElem?_of_drop written.symm

/-- A block in an interpolation, behind one with a string and a comment in its body. -/
theorem mem_codePositions_of_inStep_ing :
    (26, ⟨.ine, [' '], ['1', ' ', '2']⟩) ∈
        all Keyword.all "(ing 'a' # '\n) (nit 3) \"#\x7b(ine 1 2)\x7d\"".toList ∧
      26 ∈ Text.codePositions "(ing 'a' # '\n) (nit 3) \"#\x7b(ine 1 2)\x7d\"".toList := by
  have member : (26, ⟨.ine, [' '], ['1', ' ', '2']⟩) ∈
      all Keyword.all "(ing 'a' # '\n) (nit 3) \"#\x7b(ine 1 2)\x7d\"".toList := by
    decide +kernel
  have inStep : ∀ earlier ∈ all Keyword.all
      "(ing 'a' # '\n) (nit 3) \"#\x7b(ine 1 2)\x7d\"".toList,
      earlier.1 < 26 → InStep "(ing 'a' # '\n) (nit 3) \"#\x7b(ine 1 2)\x7d\"".toList earlier := by
    decide +kernel
  exact ⟨member, (mem_codePositions_of_inStep member inStep).1⟩

/-- A body that ends inside a string lets a block be found and expanded in the rest of the
string, and one that ends inside a comment lets it be found in the rest of the comment. -/
theorem found_outside_code :
    ((8, ⟨.ing, [' '], ['1', ' ', '2']⟩) ∈ all Keyword.all "(ing \") (ing 1 2)\"".toList ∧
      8 ∉ Text.codePositions "(ing \") (ing 1 2)\"".toList ∧
      expand Keyword.all "(ing \") (ing 1 2)\"".toList = "(ing \") (ing 1,2)\"".toList) ∧
    ((12, ⟨.ing, [' '], ['2', ' ', '3']⟩) ∈ all Keyword.all "(ing 1 # a) (ing 2 3)".toList ∧
      12 ∉ Text.codePositions "(ing 1 # a) (ing 2 3)".toList ∧
      expand Keyword.all "(ing 1 # a) (ing 2 3)".toList = "(ing 1) (ing 2,3)".toList) := by
  decide +kernel

end ListBlock

end Desugar
