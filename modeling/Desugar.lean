import Desugar.Command.Arguments
import Desugar.Command.Files
import Desugar.Command.Run
import Desugar.Edit
import Desugar.Guard
import Desugar.Json.Basic
import Desugar.Json.Parser
import Desugar.Json.Printer
import Desugar.Lexer.Cursor
import Desugar.Lexer.Nesting
import Desugar.Lexer.Region
import Desugar.Lexer.Scan
import Desugar.Main
import Desugar.Pass
import Desugar.Program
import Desugar.Proofs.Command.Runs
import Desugar.Proofs.Command.Storing
import Desugar.Proofs.Decimal.Alignment
import Desugar.Proofs.Decimal.Idempotence
import Desugar.Proofs.Decimal.Lines
import Desugar.Proofs.Decimal.Padding
import Desugar.Proofs.Decimal.Zeros
import Desugar.Proofs.Guard.Output
import Desugar.Proofs.Guard.Report
import Desugar.Proofs.Guard.Survival
import Desugar.Proofs.Indexed.Access
import Desugar.Proofs.Indexed.Decimals
import Desugar.Proofs.Indexed.Flattening
import Desugar.Proofs.Indexed.Passes
import Desugar.Proofs.Indexed.Program
import Desugar.Proofs.Indexed.Walking
import Desugar.Proofs.Lexer.Grammar
import Desugar.Proofs.Lexer.InStep
import Desugar.Proofs.Lexer.Lookahead
import Desugar.Proofs.Lexer.Reading
import Desugar.Proofs.Lexer.Respelling
import Desugar.Proofs.Lexer.Uses
import Desugar.Proofs.Lexer.Visits
import Desugar.Proofs.Lexer.Walks
import Desugar.Proofs.Pass.Effect
import Desugar.Proofs.Pass.Kept
import Desugar.Proofs.Pass.Neutral
import Desugar.Proofs.Pass.Order
import Desugar.Proofs.Pass.Quiet
import Desugar.Proofs.Pass.Rewriting
import Desugar.Proofs.Pass.Seam
import Desugar.Proofs.Pass.Sparing
import Desugar.Proofs.Pass.Stability
import Desugar.Proofs.Pass.Target
import Desugar.Proofs.Program.Idempotence
import Desugar.Proofs.Program.Numerals
import Desugar.Proofs.Program.Trace
import Desugar.Proofs.Program.Uninvolved
import Desugar.Proofs.Settings.Decoding
import Desugar.Proofs.Sugar.BlockPlaces
import Desugar.Proofs.Sugar.Bodies
import Desugar.Proofs.Sugar.CallPlaces
import Desugar.Proofs.Sugar.Columns
import Desugar.Proofs.Sugar.Expansion
import Desugar.Proofs.Sugar.Folding
import Desugar.Proofs.Sugar.LexicalShape
import Desugar.Proofs.Sugar.Neutrality
import Desugar.Proofs.Sugar.PathPlaces
import Desugar.Proofs.Sugar.Respacing
import Desugar.Proofs.Sugar.Shape
import Desugar.Proofs.Sugar.Unfolding
import Desugar.Settings.Basic
import Desugar.Settings.Json
import Desugar.Sugar.Decimal
import Desugar.Sugar.ListBlock
import Desugar.Sugar.PrefixCall
import Desugar.Sugar.SymbolPath
import Desugar.Text.Alphanumeric
import Desugar.Text.Basic
import Desugar.Text.Character
import Desugar.Text.CodeRange
import Desugar.Trace
