import ElleFrontEnd.Command.Arguments
import ElleFrontEnd.Command.Basic
import ElleFrontEnd.Command.FileTree
import ElleFrontEnd.Diagnostic
import ElleFrontEnd.Dump.Basic
import ElleFrontEnd.Dump.Program
import ElleFrontEnd.Dump.Token
import ElleFrontEnd.Format
import ElleFrontEnd.Grammar.Declaration
import ElleFrontEnd.Grammar.Expr
import ElleFrontEnd.Grammar.Parser
import ElleFrontEnd.Grammar.Stmt
import ElleFrontEnd.Grammar.Type
import ElleFrontEnd.Layout.Expr
import ElleFrontEnd.Layout.Fragment
import ElleFrontEnd.Layout.Program
import ElleFrontEnd.Layout.Type
import ElleFrontEnd.Literal.Double
import ElleFrontEnd.Literal.Number
import ElleFrontEnd.Literal.Quoted
import ElleFrontEnd.Main
import ElleFrontEnd.Module.File
import ElleFrontEnd.Module.Graph
import ElleFrontEnd.Module.Store
import ElleFrontEnd.Proofs.Anywhere
import ElleFrontEnd.Proofs.Append
import ElleFrontEnd.Proofs.Arrival
import ElleFrontEnd.Proofs.Balanced
import ElleFrontEnd.Proofs.BoundValues
import ElleFrontEnd.Proofs.BreadthFirst
import ElleFrontEnd.Proofs.Castless
import ElleFrontEnd.Proofs.Cited
import ElleFrontEnd.Proofs.CitedProgram
import ElleFrontEnd.Proofs.Climbing
import ElleFrontEnd.Proofs.Congruent
import ElleFrontEnd.Proofs.Convey
import ElleFrontEnd.Proofs.ConveyExpr
import ElleFrontEnd.Proofs.ConveyProgram
import ElleFrontEnd.Proofs.ConveyStmt
import ElleFrontEnd.Proofs.Differences
import ElleFrontEnd.Proofs.Erasure
import ElleFrontEnd.Proofs.Exact
import ElleFrontEnd.Proofs.Excerpt
import ElleFrontEnd.Proofs.Formatted
import ElleFrontEnd.Proofs.Fresh
import ElleFrontEnd.Proofs.Graft
import ElleFrontEnd.Proofs.GraftChain
import ElleFrontEnd.Proofs.GraftExpr
import ElleFrontEnd.Proofs.GraftStmt
import ElleFrontEnd.Proofs.GraftTrial
import ElleFrontEnd.Proofs.Grouping
import ElleFrontEnd.Proofs.Halves
import ElleFrontEnd.Proofs.HandBuilt
import ElleFrontEnd.Proofs.Header
import ElleFrontEnd.Proofs.Height
import ElleFrontEnd.Proofs.ImportPaths
import ElleFrontEnd.Proofs.Laminar
import ElleFrontEnd.Proofs.Lawful
import ElleFrontEnd.Proofs.LayoutSpans
import ElleFrontEnd.Proofs.Lead
import ElleFrontEnd.Proofs.LeadGrammar
import ElleFrontEnd.Proofs.Legible
import ElleFrontEnd.Proofs.LegibleLayout
import ElleFrontEnd.Proofs.Levels
import ElleFrontEnd.Proofs.LineEnds
import ElleFrontEnd.Proofs.Listing
import ElleFrontEnd.Proofs.Lossless
import ElleFrontEnd.Proofs.MaximalMunch
import ElleFrontEnd.Proofs.Mirror
import ElleFrontEnd.Proofs.MirrorGrammar
import ElleFrontEnd.Proofs.MirrorProgram
import ElleFrontEnd.Proofs.MissingSemicolon
import ElleFrontEnd.Proofs.Modes
import ElleFrontEnd.Proofs.ModuleFiles
import ElleFrontEnd.Proofs.ModuleSearch
import ElleFrontEnd.Proofs.Needed
import ElleFrontEnd.Proofs.Nesting
import ElleFrontEnd.Proofs.NodeTexts
import ElleFrontEnd.Proofs.Nodes
import ElleFrontEnd.Proofs.NumberValues
import ElleFrontEnd.Proofs.Numerals
import ElleFrontEnd.Proofs.Openings
import ElleFrontEnd.Proofs.OpeningsExpr
import ElleFrontEnd.Proofs.Outline
import ElleFrontEnd.Proofs.OutlineExpr
import ElleFrontEnd.Proofs.OutlineProgram
import ElleFrontEnd.Proofs.Placed
import ElleFrontEnd.Proofs.Plain
import ElleFrontEnd.Proofs.Positions
import ElleFrontEnd.Proofs.Progress
import ElleFrontEnd.Proofs.ReadBack
import ElleFrontEnd.Proofs.ReadBackChain
import ElleFrontEnd.Proofs.ReadBackExpr
import ElleFrontEnd.Proofs.ReadBackProgram
import ElleFrontEnd.Proofs.ReadBare
import ElleFrontEnd.Proofs.ReadChain
import ElleFrontEnd.Proofs.ReadDeclaration
import ElleFrontEnd.Proofs.ReadExpr
import ElleFrontEnd.Proofs.ReadStmt
import ElleFrontEnd.Proofs.ReadType
import ElleFrontEnd.Proofs.Ready
import ElleFrontEnd.Proofs.Recovery
import ElleFrontEnd.Proofs.RecoveryProgram
import ElleFrontEnd.Proofs.Rendered
import ElleFrontEnd.Proofs.Reread
import ElleFrontEnd.Proofs.RereadChain
import ElleFrontEnd.Proofs.RereadExpr
import ElleFrontEnd.Proofs.RereadProgram
import ElleFrontEnd.Proofs.RereadStmt
import ElleFrontEnd.Proofs.Residue
import ElleFrontEnd.Proofs.Restored
import ElleFrontEnd.Proofs.RoundHeads
import ElleFrontEnd.Proofs.RoundTrip
import ElleFrontEnd.Proofs.Run
import ElleFrontEnd.Proofs.Shows
import ElleFrontEnd.Proofs.ShowsExpr
import ElleFrontEnd.Proofs.Silent
import ElleFrontEnd.Proofs.Sparing
import ElleFrontEnd.Proofs.Spelled
import ElleFrontEnd.Proofs.Stretch
import ElleFrontEnd.Proofs.StretchExpr
import ElleFrontEnd.Proofs.StretchProgram
import ElleFrontEnd.Proofs.StretchStmt
import ElleFrontEnd.Proofs.Tie
import ElleFrontEnd.Proofs.TieExpr
import ElleFrontEnd.Proofs.TieProgram
import ElleFrontEnd.Proofs.TieType
import ElleFrontEnd.Proofs.Trait
import ElleFrontEnd.Proofs.TraitGrammar
import ElleFrontEnd.Proofs.Transparent
import ElleFrontEnd.Proofs.Trial
import ElleFrontEnd.Proofs.TrialGrammar
import ElleFrontEnd.Proofs.TrialProgram
import ElleFrontEnd.Proofs.TwinGrammar
import ElleFrontEnd.Proofs.TwinProgram
import ElleFrontEnd.Proofs.TwinRun
import ElleFrontEnd.Proofs.TypeLookahead
import ElleFrontEnd.Proofs.TypeNesting
import ElleFrontEnd.Proofs.TypeRoundTrip
import ElleFrontEnd.Proofs.Unplaced
import ElleFrontEnd.Proofs.Visiting
import ElleFrontEnd.Proofs.WiderLimit
import ElleFrontEnd.Proofs.Words
import ElleFrontEnd.Session.Basic
import ElleFrontEnd.Session.Call
import ElleFrontEnd.Session.Declaration
import ElleFrontEnd.Session.Expr
import ElleFrontEnd.Session.Stmt
import ElleFrontEnd.Session.Type
import ElleFrontEnd.Text.Blank
import ElleFrontEnd.Text.Escaped
import ElleFrontEnd.Text.LineIndex
import ElleFrontEnd.Text.Printable
import ElleFrontEnd.Text.Span
import ElleFrontEnd.Token.Basic
import ElleFrontEnd.Token.Lexeme
import ElleFrontEnd.Token.Stream
import ElleFrontEnd.Tree.Declaration
import ElleFrontEnd.Tree.Expr
import ElleFrontEnd.Tree.Operation
import ElleFrontEnd.Tree.Spans
import ElleFrontEnd.Tree.Type
import ElleFrontEnd.Tree.Visit
import ElleFrontEnd.Vocabulary.Directive
import ElleFrontEnd.Vocabulary.Example
import ElleFrontEnd.Vocabulary.Keyword
import ElleFrontEnd.Vocabulary.Operator
import ElleFrontEnd.Vocabulary.Punctuation
