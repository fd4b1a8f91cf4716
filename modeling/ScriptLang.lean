import ScriptLang.Artifact
import ScriptLang.CommandLine.Options
import ScriptLang.CommandLine.Run
import ScriptLang.CommandLine.Usage
import ScriptLang.Diagnostic.Basic
import ScriptLang.Diagnostic.Code
import ScriptLang.Double.Basic
import ScriptLang.Double.Decimal
import ScriptLang.Double.Shortest
import ScriptLang.Double.Text
import ScriptLang.FrontEnd.Path
import ScriptLang.FrontEnd.Run
import ScriptLang.Host
import ScriptLang.Json.Value
import ScriptLang.Json.Writer
import ScriptLang.Literal
import ScriptLang.Main
import ScriptLang.Proofs.CommandLine.Verdict
import ScriptLang.Proofs.Double.Nearest
import ScriptLang.Proofs.Double.Ratio
import ScriptLang.Proofs.Double.Shortest
import ScriptLang.Proofs.FrontEnd.Beside
import ScriptLang.Proofs.FrontEnd.Decoding
import ScriptLang.Proofs.FrontEnd.Errors
import ScriptLang.Proofs.FrontEnd.Saved
import ScriptLang.Proofs.FrontEnd.Stages
import ScriptLang.Proofs.Grammar.Blame
import ScriptLang.Proofs.Grammar.Braces
import ScriptLang.Proofs.Grammar.Concatenation
import ScriptLang.Proofs.Grammar.Ebnf
import ScriptLang.Proofs.Grammar.EndMark
import ScriptLang.Proofs.Grammar.Excess
import ScriptLang.Proofs.Grammar.ExpressionLockstep
import ScriptLang.Proofs.Grammar.ExpressionReads
import ScriptLang.Proofs.Grammar.ExpressionRules
import ScriptLang.Proofs.Grammar.ExpressionYields
import ScriptLang.Proofs.Grammar.Forming
import ScriptLang.Proofs.Grammar.Isolation
import ScriptLang.Proofs.Grammar.Leaves
import ScriptLang.Proofs.Grammar.NodeLines
import ScriptLang.Proofs.Grammar.Parsing
import ScriptLang.Proofs.Grammar.PastLimits
import ScriptLang.Proofs.Grammar.Resumption
import ScriptLang.Proofs.Grammar.SentenceTrees
import ScriptLang.Proofs.Grammar.Sentences
import ScriptLang.Proofs.Grammar.Shape
import ScriptLang.Proofs.Grammar.Spelling
import ScriptLang.Proofs.Grammar.StatementLockstep
import ScriptLang.Proofs.Grammar.StatementReads
import ScriptLang.Proofs.Grammar.StatementRules
import ScriptLang.Proofs.Grammar.StatementYields
import ScriptLang.Proofs.Grammar.Synchronization
import ScriptLang.Proofs.Grammar.TokenKinds
import ScriptLang.Proofs.Grammar.Totality
import ScriptLang.Proofs.Grammar.Traversal
import ScriptLang.Proofs.Grammar.Unlimited
import ScriptLang.Proofs.Grammar.Unparsing
import ScriptLang.Proofs.Grammar.WholeExpression
import ScriptLang.Proofs.Json.Grammar
import ScriptLang.Proofs.Json.Numbers
import ScriptLang.Proofs.Json.Reader
import ScriptLang.Proofs.Json.Writing
import ScriptLang.Proofs.Prefix.Forms
import ScriptLang.Proofs.Prefix.Legible
import ScriptLang.Proofs.Prefix.NumberTexts
import ScriptLang.Proofs.Prefix.Printing
import ScriptLang.Proofs.Prefix.Unambiguous
import ScriptLang.Proofs.Rule.Agreement
import ScriptLang.Proofs.Rule.Leniency
import ScriptLang.Proofs.Rule.Lockstep
import ScriptLang.Proofs.Rule.Reading
import ScriptLang.Proofs.Rule.Reads
import ScriptLang.Proofs.Rule.Yields
import ScriptLang.Proofs.Scope.Arenas
import ScriptLang.Proofs.Scope.Assignment
import ScriptLang.Proofs.Scope.Atomicity
import ScriptLang.Proofs.Scope.Block
import ScriptLang.Proofs.Scope.Call
import ScriptLang.Proofs.Scope.Captured
import ScriptLang.Proofs.Scope.Chain
import ScriptLang.Proofs.Scope.Discard
import ScriptLang.Proofs.Scope.FailedCall
import ScriptLang.Proofs.Scope.History
import ScriptLang.Proofs.Scope.Invariant
import ScriptLang.Proofs.Scope.Lookup
import ScriptLang.Proofs.Scope.Operations
import ScriptLang.Proofs.Scope.Records
import ScriptLang.Proofs.Scope.SameScopes
import ScriptLang.Proofs.Scope.Soundness
import ScriptLang.Proofs.Scope.Stale
import ScriptLang.Proofs.Scope.Stepwise
import ScriptLang.Proofs.Scope.Writes
import ScriptLang.Proofs.Source.Breaks
import ScriptLang.Proofs.Source.Concatenation
import ScriptLang.Proofs.Source.Coverage
import ScriptLang.Proofs.Source.Layout
import ScriptLang.Proofs.Source.Lexeme
import ScriptLang.Proofs.Source.Lines
import ScriptLang.Proofs.Source.MaximalMunch
import ScriptLang.Proofs.Source.Places
import ScriptLang.Proofs.Text.Utf8
import ScriptLang.Scope.Arena
import ScriptLang.Scope.Script
import ScriptLang.Scope.Store
import ScriptLang.Scope.Value
import ScriptLang.Source.Scan
import ScriptLang.Source.Segment
import ScriptLang.Syntax.Grammar
import ScriptLang.Syntax.Parse
import ScriptLang.Syntax.Pass
import ScriptLang.Syntax.Prefix
import ScriptLang.Syntax.Rule
import ScriptLang.Syntax.Tree
import ScriptLang.Text.Blank
import ScriptLang.Text.DecimalDigit
import ScriptLang.Text.Lines
import ScriptLang.Text.Printable
import ScriptLang.Text.Quoted
import ScriptLang.Text.Utf8
import ScriptLang.Token
import ScriptLang.Workbench
