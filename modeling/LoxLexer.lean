import LoxLexer.Command.Program
import LoxLexer.Files.Tree
import LoxLexer.Main
import LoxLexer.Proofs.Grammar
import LoxLexer.Scan.Bounded
import LoxLexer.Session
import LoxLexer.Text.LineTable
import LoxLexer.Proofs.Number.Parse
import LoxLexer.Proofs.LongestMatch
import LoxLexer.Proofs.Placing
import LoxLexer.Proofs.Tiling
import LoxLexer.Proofs.LineNumbers
import LoxLexer.Proofs.LineLookup
import LoxLexer.Proofs.Cursor.Basic
import LoxLexer.Proofs.Cursor.Encoding
import LoxLexer.Proofs.Cursor.Motion
import LoxLexer.Proofs.Cursor.Turn
import LoxLexer.Proofs.Cursor.Run
import LoxLexer.Proofs.Cursor.Safety
import LoxLexer.Proofs.Cursor.Stepping
import LoxLexer.Proofs.Cursor.NestedComments
import LoxLexer.Proofs.Boundary
import LoxLexer.Proofs.Moving
import LoxLexer.Proofs.Joining
import LoxLexer.Proofs.Lookahead
import LoxLexer.Proofs.Printing
import LoxLexer.Proofs.Blanking
import LoxLexer.Proofs.Locating
import LoxLexer.Proofs.Number.Digits
import LoxLexer.Proofs.Listing
import LoxLexer.Proofs.Number.Nearest
import LoxLexer.Proofs.Number.Shortest
import LoxLexer.Proofs.Number.Layout
import LoxLexer.Proofs.Number.Rounding
import LoxLexer.Proofs.Number.Literals
import LoxLexer.Proofs.Number.ReadBack
import LoxLexer.Proofs.Json.Reader
import LoxLexer.Proofs.Json.Strings
import LoxLexer.Proofs.Json.Numbers
import LoxLexer.Proofs.Json.RoundTrip
import LoxLexer.Proofs.Json.Tokens
import LoxLexer.Proofs.Cursor.Reporting
import LoxLexer.Proofs.Accounting
import LoxLexer.Proofs.Options.Grammar
import LoxLexer.Proofs.Options.Quotes
import LoxLexer.Proofs.Options.Reading
import LoxLexer.Proofs.Command.Showing
import LoxLexer.Proofs.Command.Prompt
import LoxLexer.Proofs.Command.Program
import LoxLexer.Proofs.Filling
import LoxLexer.Proofs.Renaming
import LoxLexer.Proofs.Options.Truncation
