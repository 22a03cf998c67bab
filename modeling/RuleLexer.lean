import RuleLexer.Annotation
import RuleLexer.ArgumentList
import RuleLexer.Character
import RuleLexer.Fault
import RuleLexer.Heading
import RuleLexer.Item
import RuleLexer.Lexer
import RuleLexer.LineMode
import RuleLexer.Literal
import RuleLexer.Nesting
import RuleLexer.Piece
import RuleLexer.Position
import RuleLexer.Proofs.ArgumentGrammar
import RuleLexer.Proofs.Arguments
import RuleLexer.Proofs.BetweenReads
import RuleLexer.Proofs.BlankLines
import RuleLexer.Proofs.Cells
import RuleLexer.Proofs.CheckedReads
import RuleLexer.Proofs.Coverage
import RuleLexer.Proofs.DocumentOrder
import RuleLexer.Proofs.Ending
import RuleLexer.Proofs.FreshStart
import RuleLexer.Proofs.HeaderLine
import RuleLexer.Proofs.Indentation
import RuleLexer.Proofs.ItemSides
import RuleLexer.Proofs.Layout
import RuleLexer.Proofs.LineByLine
import RuleLexer.Proofs.LineDepth
import RuleLexer.Proofs.LineEndings
import RuleLexer.Proofs.LineGrammar
import RuleLexer.Proofs.Lines
import RuleLexer.Proofs.LiteralRuns
import RuleLexer.Proofs.PartScan
import RuleLexer.Proofs.Parts
import RuleLexer.Proofs.Place
import RuleLexer.Proofs.Positions
import RuleLexer.Proofs.Reading
import RuleLexer.Proofs.ReadingAhead
import RuleLexer.Proofs.RoundTrip
import RuleLexer.Proofs.ScannerRuns
import RuleLexer.Proofs.SourceText
import RuleLexer.Proofs.StreamPositions
import RuleLexer.Proofs.TextEnd
import RuleLexer.Proofs.TokenCount
import RuleLexer.Proofs.TokenShape
import RuleLexer.Proofs.Trivia
import RuleLexer.Proofs.Words
import RuleLexer.Proofs.WrittenLines
import RuleLexer.RuleFile
import RuleLexer.Scanner
import RuleLexer.Span
import RuleLexer.Stored
import RuleLexer.Text.Bytes
import RuleLexer.Text.Line
import RuleLexer.Token
import RuleLexer.Token.Kind
import RuleLexer.TokenStream
import RuleLexer.Unicode.Alphabetic
import RuleLexer.Unicode.Numeric
import RuleLexer.Unicode.Ranges
