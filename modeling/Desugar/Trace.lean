import Desugar.Guard
import Desugar.Sugar.ListBlock

/-!
# Trace events

A run reports what it does as a list of events. Each has a level, a message and
named details; the event that opens a run stands for the run as a whole.
-/

namespace Desugar

/-- How much attention an event deserves. -/
inductive Level where
  | trace
  | debug
  | warn
  deriving DecidableEq, Repr

/-- Name of a level. -/
def Level.name : Level → String
  | .trace => "TRACE"
  | .debug => "DEBUG"
  | .warn => "WARN"

/-- Value of a detail of an event. -/
inductive Detail where
  | text (value : Text)
  | number (value : Nat)
  deriving DecidableEq, Repr

/-- Something that a run reports. -/
inductive Event where
  /-- A run begins on a source of so many bytes with so many registered names. -/
  | opened (bytes names : Nat)
  /-- A list block was found, flat already or not. -/
  | listBlock (block : ListBlock)
  /-- List blocks were expanded, by so many edits. -/
  | listBlocksExpanded (edits : Nat)
  /-- Prefix calls to a name were respaced, by so many edits. -/
  | callsRespaced (name : Text) (edits : Nat)
  /-- Symbol paths were folded, by so many edits. -/
  | symbolPathsFolded (edits : Nat)
  /-- The guard refused an assignment. -/
  | collided (collision : Collision)
  /-- Decimals that end in a dot were completed, by so many edits. -/
  | trailingDotsCompleted (edits : Nat)
  /-- Decimals that begin with a dot were completed, by so many edits. -/
  | leadingDotsCompleted (edits : Nat)
  deriving DecidableEq, Repr

namespace Event

/-- Whether an event opens a run. -/
def opensRun : Event → Bool
  | .opened .. => true
  | _ => false

/-- Level of an event. -/
def level : Event → Level
  | .listBlock _ | .trailingDotsCompleted _ | .leadingDotsCompleted _ => .trace
  | .opened .. | .listBlocksExpanded _ | .callsRespaced .. | .symbolPathsFolded _ => .debug
  | .collided _ => .warn

/-- Message of an event. -/
def message : Event → String
  | .opened .. => "preparse_with"
  | .listBlock _ => "list macro"
  | .listBlocksExpanded _ => "list macros expanded"
  | .callsRespaced .. => "call spacing normalized"
  | .symbolPathsFolded _ => "symbol paths folded"
  | .collided _ => "builtin fn name used as a variable"
  | .trailingDotsCompleted _ => "trailing-dot literals completed"
  | .leadingDotsCompleted _ => "leading-dot literals completed"

/-- Named details of an event. -/
def details : Event → List (String × Detail)
  | .opened bytes names => [("bytes", .number bytes), ("fns", .number names)]
  | .listBlock block =>
      [("keyword", .text block.keyword.word), ("body", .text block.body),
        ("flattened", .text (flattenBody block.body))]
  | .callsRespaced name edits => [("name", .text name), ("rewrites", .number edits)]
  | .collided collision =>
      [("name", .text collision.name), ("line", .number collision.line),
        ("offset", .number collision.offset)]
  | .listBlocksExpanded edits | .symbolPathsFolded edits
  | .trailingDotsCompleted edits | .leadingDotsCompleted edits =>
      [("rewrites", .number edits)]

end Event

end Desugar
