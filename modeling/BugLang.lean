import BugLang.Decimal
import BugLang.Binary64
import BugLang.Binary64.Shortest
import BugLang.Binary64.Text
import BugLang.Unicode.RangeTable
import BugLang.Unicode.Alphabetic
import BugLang.Unicode.Numeric
import BugLang.Unicode.WhiteSpace
import BugLang.Token
import BugLang.Piece
import BugLang.Token.Located
import BugLang.Token.Cursor
import BugLang.Tree
import BugLang.Stack
import BugLang.Failure
import BugLang.Rule
import BugLang.Recipe
import BugLang.Grammar
import BugLang.Builder
import BugLang.Parse
import BugLang.Json
import BugLang.Diagnostic
import BugLang.Listing
import BugLang.Summary
import BugLang.CommandLine.Similarity
import BugLang.CommandLine.PlainText
import BugLang.CommandLine.Request
import BugLang.CommandLine
import BugLang.Main
import BugLang.Proofs.Supply
import BugLang.Proofs.Run
import BugLang.Proofs.Adequacy
import BugLang.Proofs.Progress
import BugLang.Proofs.Lookahead
import BugLang.Proofs.Frame
import BugLang.Proofs.Sentence
import BugLang.Proofs.Acceptance
import BugLang.Proofs.Productions
import BugLang.Proofs.Soundness
import BugLang.Proofs.Completeness
import BugLang.Proofs.Prefixes
import BugLang.Proofs.Operations
import BugLang.Proofs.Programs
import BugLang.Proofs.Contract
import BugLang.Proofs.FirstWrongToken
import BugLang.Proofs.Bookmark
import BugLang.Proofs.Segmentation
import BugLang.Proofs.Foresight
import BugLang.Proofs.Printing
import BugLang.Proofs.Reprinting
import BugLang.Proofs.BlankLines
import BugLang.Proofs.LineNumbers
import BugLang.Proofs.Concatenation
import BugLang.Proofs.LineEndings
import BugLang.Proofs.Precedence
import BugLang.Proofs.Reductions
import BugLang.Proofs.FirstTokens
import BugLang.Proofs.Alternatives
import BugLang.Proofs.DefinitionCounts
import BugLang.Proofs.CurrentLine
import BugLang.Proofs.Literals
import BugLang.Proofs.Rounding
import BugLang.Proofs.NumberTexts
import BugLang.Proofs.TokenRows
import BugLang.Proofs.JsonTexts
import BugLang.Proofs.JsonStrings
import BugLang.Proofs.JsonReader
import BugLang.Proofs.TokenObjects
import BugLang.Proofs.Allowances
import BugLang.Proofs.TokensLeft
import BugLang.Proofs.Calls
