import Desugar.Sugar.ListBlock

/-!
# Settings

Which kinds of sugar are replaced, whether names are guarded, which keywords
introduce a list block and which constructor a symbol path is folded into.
-/

namespace Desugar

/-- What a run of the program replaces and checks. -/
structure Settings where
  /-- Expand list blocks. -/
  listBlocks : Bool
  /-- Respace prefix calls. -/
  callSpacing : Bool
  /-- Fold symbol paths. -/
  symbolPaths : Bool
  /-- Refuse assignments to the names of built-in functions. -/
  nameGuard : Bool
  /-- Complete shorthand decimals. -/
  decimals : Bool
  /-- Keywords that introduce a list block. -/
  keywords : List Keyword
  /-- What is called with the joined segments of a symbol path. -/
  pathConstructor : Text
  deriving DecidableEq, Repr

namespace Settings

/-- Everything is on, with every keyword. -/
def standard : Settings where
  listBlocks := true
  callSpacing := true
  symbolPaths := true
  nameGuard := true
  decimals := true
  keywords := Keyword.all
  pathConstructor := "::SonicPi::SPSym.new".toList

/-- Everything is off, so that every text stays as it is. -/
def off : Settings :=
  { standard with
    listBlocks := false
    callSpacing := false
    symbolPaths := false
    nameGuard := false
    decimals := false }

end Settings

end Desugar
