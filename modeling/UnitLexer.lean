import UnitLexer.Main
import UnitLexer.Proofs.Coverage
import UnitLexer.Proofs.Answers
import UnitLexer.Proofs.OpenModes
import UnitLexer.Proofs.NumberGrammar
import UnitLexer.Proofs.Terminals
import UnitLexer.Proofs.BareNumbers
import UnitLexer.Proofs.UnitExpressions
import UnitLexer.Proofs.ReachedModes
import UnitLexer.Proofs.LineEnds
import UnitLexer.Proofs.Lines
import UnitLexer.Proofs.Steps
import UnitLexer.Proofs.Strings
import UnitLexer.Proofs.Kinds
import UnitLexer.Proofs.UnitSteps
import UnitLexer.Proofs.UnitContext
import UnitLexer.Proofs.UnitGroups
import UnitLexer.Proofs.Progress
import UnitLexer.Proofs.Sorting
import UnitLexer.Proofs.Edits
import UnitLexer.Proofs.Lookups
import UnitLexer.Proofs.Readings
import UnitLexer.Proofs.Listings
import UnitLexer.Proofs.AppliedConfigs
import UnitLexer.Proofs.AcceptedEntries
import UnitLexer.Proofs.RefusedEntries
import UnitLexer.Proofs.UnitWords
import UnitLexer.Proofs.Highlighting
import UnitLexer.Proofs.JsonGrammar
import UnitLexer.Proofs.JsonReading
import UnitLexer.Proofs.ConfigText
import UnitLexer.Proofs.JsonUnambiguous
import UnitLexer.Proofs.QuotedText
import UnitLexer.Proofs.Dumps
import UnitLexer.Proofs.Keywords
import UnitLexer.Proofs.MaximalMunch
import UnitLexer.Proofs.InvalidCharacters
import UnitLexer.Proofs.GroupLookahead
import UnitLexer.Proofs.NumberExpression
import UnitLexer.Proofs.ScopeStyles
import UnitLexer.Proofs.ByteStream
