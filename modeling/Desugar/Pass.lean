import Desugar.Sugar.Decimal
import Desugar.Sugar.PrefixCall
import Desugar.Sugar.SymbolPath
import Desugar.Trace

/-!
# Passes

A pass replaces one kind of sugar throughout a text. Whatever its kind, it is a list
of edits of the text it reads, and it reports how many there were.
-/

namespace Desugar

/-- A replacement of one kind of sugar throughout a text. -/
inductive Pass where
  /-- Expand the list blocks with one of the keywords. -/
  | listBlocks (keywords : List Keyword)
  /-- Respace the prefix calls to a name. -/
  | callSpacing (name : Text)
  /-- Fold symbol paths into calls of a constructor. -/
  | symbolPaths (constructor : Text)
  /-- Complete decimals that end in a dot. -/
  | trailingDots
  /-- Complete decimals that begin with a dot. -/
  | leadingDots
  deriving DecidableEq, Repr

namespace Pass

/-- The edits that a pass makes. -/
def edits : Pass → Text → List Edit
  | .listBlocks keywords => ListBlock.edits keywords
  | .callSpacing name => PrefixCall.edits name
  | .symbolPaths constructor => SymbolPath.edits constructor
  | .trailingDots => Decimal.trailingEdits
  | .leadingDots => Decimal.leadingEdits

/-- The text after a pass. -/
def run (pass : Pass) (source : Text) : Text :=
  Edit.applyAll (pass.edits source) source

/-- What a pass reports: every list block it finds, and the number of its edits. A pass
for list blocks without keywords reports nothing. -/
def events (pass : Pass) (source : Text) : List Event :=
  let count := (pass.edits source).length
  match pass with
  | .listBlocks [] => []
  | .listBlocks keywords =>
      (ListBlock.all keywords source).map (fun found => .listBlock found.2) ++
        [.listBlocksExpanded count]
  | .callSpacing name => [.callsRespaced name count]
  | .symbolPaths _ => [.symbolPathsFolded count]
  | .trailingDots => [.trailingDotsCompleted count]
  | .leadingDots => [.leadingDotsCompleted count]

/-- The text after several passes, each on what the one before it left. -/
def runAll (passes : List Pass) (source : Text) : Text :=
  passes.foldl (fun text pass => pass.run text) source

/-- What several passes report, each on what the one before it left. -/
def allEvents : List Pass → Text → List Event
  | [], _ => []
  | pass :: passes, source => pass.events source ++ allEvents passes (pass.run source)

@[simp]
theorem runAll_nil (source : Text) : runAll [] source = source := rfl

@[simp]
theorem runAll_cons (pass : Pass) (passes : List Pass) (source : Text) :
    runAll (pass :: passes) source = runAll passes (pass.run source) := rfl

end Pass

end Desugar
