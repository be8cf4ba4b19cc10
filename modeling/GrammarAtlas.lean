import GrammarAtlas.Automaton.Basic
import GrammarAtlas.Automaton.BreadthFirst
import GrammarAtlas.Automaton.Contraction
import GrammarAtlas.Automaton.Fragment
import GrammarAtlas.Automaton.Region
import GrammarAtlas.Checksum
import GrammarAtlas.Decimal.Binary64
import GrammarAtlas.Decimal.Shortest
import GrammarAtlas.Diagnostic.Basic
import GrammarAtlas.Diagnostic.Canvas
import GrammarAtlas.Diagnostic.Report
import GrammarAtlas.Diagnostic.Snippet
import GrammarAtlas.Diagnostic.SourceLines
import GrammarAtlas.Finding.Basic
import GrammarAtlas.Finding.Record
import GrammarAtlas.Grammar.Basic
import GrammarAtlas.Grammar.Bounds
import GrammarAtlas.Grammar.Scan
import GrammarAtlas.Grammar.Session
import GrammarAtlas.Graph.Basic
import GrammarAtlas.Graph.Dump
import GrammarAtlas.Group.Assembly
import GrammarAtlas.Group.Basic
import GrammarAtlas.Group.Dump
import GrammarAtlas.Json.Fault
import GrammarAtlas.Json.Number
import GrammarAtlas.Json.Reader
import GrammarAtlas.Json.Skip
import GrammarAtlas.Json.Strings
import GrammarAtlas.Json.Writer
import GrammarAtlas.Lexeme.Basic
import GrammarAtlas.Lexeme.Delimited
import GrammarAtlas.Lexeme.Next
import GrammarAtlas.Name
import GrammarAtlas.Proofs.Automaton.BreadthFirst
import GrammarAtlas.Proofs.Automaton.Calls
import GrammarAtlas.Proofs.Automaton.Collection
import GrammarAtlas.Proofs.Automaton.Combinators
import GrammarAtlas.Proofs.Automaton.Contraction
import GrammarAtlas.Proofs.Automaton.Distance
import GrammarAtlas.Proofs.Automaton.Expression
import GrammarAtlas.Proofs.Automaton.Frame
import GrammarAtlas.Proofs.Automaton.Growth
import GrammarAtlas.Proofs.Automaton.Isolation
import GrammarAtlas.Proofs.Automaton.NormalForm
import GrammarAtlas.Proofs.Automaton.Piece
import GrammarAtlas.Proofs.Automaton.Reach
import GrammarAtlas.Proofs.Automaton.Remainder
import GrammarAtlas.Proofs.Automaton.Words
import GrammarAtlas.Proofs.Automaton.Worklist
import GrammarAtlas.Proofs.Diagnostic.Lines
import GrammarAtlas.Proofs.Finding.Record
import GrammarAtlas.Proofs.Grammar.Append
import GrammarAtlas.Proofs.Grammar.Arena
import GrammarAtlas.Proofs.Grammar.Bounds
import GrammarAtlas.Proofs.Grammar.Excerpt
import GrammarAtlas.Proofs.Grammar.Folding
import GrammarAtlas.Proofs.Grammar.Inside
import GrammarAtlas.Proofs.Grammar.Layout
import GrammarAtlas.Proofs.Grammar.Malformed
import GrammarAtlas.Proofs.Grammar.Marks
import GrammarAtlas.Proofs.Grammar.Names
import GrammarAtlas.Proofs.Grammar.Offsets
import GrammarAtlas.Proofs.Grammar.Queries
import GrammarAtlas.Proofs.Grammar.References
import GrammarAtlas.Proofs.Grammar.Regrouped
import GrammarAtlas.Proofs.Grammar.Rewritten
import GrammarAtlas.Proofs.Grammar.Rules
import GrammarAtlas.Proofs.Grammar.Scan
import GrammarAtlas.Proofs.Grammar.Section
import GrammarAtlas.Proofs.Grammar.Session
import GrammarAtlas.Proofs.Grammar.Steps
import GrammarAtlas.Proofs.Grammar.Views
import GrammarAtlas.Proofs.Graph.Drawing
import GrammarAtlas.Proofs.Graph.Dump
import GrammarAtlas.Proofs.Graph.Ranks
import GrammarAtlas.Proofs.Group.Assembly
import GrammarAtlas.Proofs.Group.Back
import GrammarAtlas.Proofs.Group.Pruning
import GrammarAtlas.Proofs.Group.Stepping
import GrammarAtlas.Proofs.Group.Visible
import GrammarAtlas.Proofs.Json.ReadBack
import GrammarAtlas.Proofs.Lexeme.Balance
import GrammarAtlas.Proofs.Lexeme.Block
import GrammarAtlas.Proofs.Lexeme.Garbage
import GrammarAtlas.Proofs.Lexeme.Parts
import GrammarAtlas.Proofs.Lexeme.Pattern
import GrammarAtlas.Proofs.Lexeme.Pieces
import GrammarAtlas.Proofs.Lexeme.Replace
import GrammarAtlas.Proofs.Lexeme.Splice
import GrammarAtlas.Proofs.Regular
import GrammarAtlas.Proofs.Rule.Alternative
import GrammarAtlas.Proofs.Rule.Blocks
import GrammarAtlas.Proofs.Rule.Body
import GrammarAtlas.Proofs.Rule.Branches
import GrammarAtlas.Proofs.Rule.Formed
import GrammarAtlas.Proofs.Rule.Inside
import GrammarAtlas.Proofs.Rule.Nesting
import GrammarAtlas.Proofs.Rule.Passages
import GrammarAtlas.Proofs.Rule.Regrouping
import GrammarAtlas.Proofs.Rule.Separators
import GrammarAtlas.Proofs.Rule.Texts
import GrammarAtlas.Proofs.Text.Joined
import GrammarAtlas.Proofs.Text.Slice
import GrammarAtlas.Proofs.Text.Utf8
import GrammarAtlas.Proofs.Token.Append
import GrammarAtlas.Proofs.Token.Diagnosis
import GrammarAtlas.Proofs.Token.Excerpt
import GrammarAtlas.Proofs.Token.Inside
import GrammarAtlas.Proofs.Token.Layout
import GrammarAtlas.Proofs.Token.LineCount
import GrammarAtlas.Proofs.Token.Lines
import GrammarAtlas.Proofs.Token.Parts
import GrammarAtlas.Proofs.Token.Placed
import GrammarAtlas.Proofs.Token.Reading
import GrammarAtlas.Proofs.Token.Reports
import GrammarAtlas.Proofs.Token.Significant
import GrammarAtlas.Proofs.Token.Tiling
import GrammarAtlas.Rule.Alternative
import GrammarAtlas.Rule.Basic
import GrammarAtlas.Rule.Branches
import GrammarAtlas.Rule.Views
import GrammarAtlas.Span
import GrammarAtlas.Text.Basic
import GrammarAtlas.Text.Columns
import GrammarAtlas.Text.Printable
import GrammarAtlas.Text.Quoted
import GrammarAtlas.Text.Uppercase
import GrammarAtlas.Token.Kind
import GrammarAtlas.Token.Lexing
import GrammarAtlas.Token.Stream
