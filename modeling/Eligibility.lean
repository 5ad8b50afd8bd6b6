import Eligibility.Condition.Basic
import Eligibility.Condition.Reading
import Eligibility.Connective
import Eligibility.Engine.Basic
import Eligibility.Engine.Cache
import Eligibility.Engine.Session
import Eligibility.Engine.Settings
import Eligibility.Engine.Sharing
import Eligibility.Fault
import Eligibility.Formula.Basic
import Eligibility.Formula.Conjunction
import Eligibility.Formula.Infix
import Eligibility.Formula.RuleText
import Eligibility.Formula.Verdict
import Eligibility.Json.Document
import Eligibility.Json.Lexeme
import Eligibility.Json.Nesting
import Eligibility.Json.Numeral
import Eligibility.Json.Reader
import Eligibility.Json.Value
import Eligibility.Keyed
import Eligibility.Number.Binary64
import Eligibility.Number.Decimal
import Eligibility.Number.Layout
import Eligibility.Number.Numeral
import Eligibility.Number.Rounding
import Eligibility.Proofs.Condition.Coercion
import Eligibility.Proofs.Condition.Coherence
import Eligibility.Proofs.Condition.Pattern
import Eligibility.Proofs.Condition.Reading
import Eligibility.Proofs.Condition.RuleText
import Eligibility.Proofs.Condition.Signs
import Eligibility.Proofs.Condition.Spelling
import Eligibility.Proofs.Condition.Survival
import Eligibility.Proofs.Engine.Cache
import Eligibility.Proofs.Engine.HandedOut
import Eligibility.Proofs.Engine.Session
import Eligibility.Proofs.Engine.Settings
import Eligibility.Proofs.Engine.Sharing
import Eligibility.Proofs.Formula.Conditions
import Eligibility.Proofs.Formula.Conjunction
import Eligibility.Proofs.Formula.ConjunctionVerdict
import Eligibility.Proofs.Formula.Evaluation
import Eligibility.Proofs.Formula.Extension
import Eligibility.Proofs.Formula.Joined
import Eligibility.Proofs.Formula.Monotone
import Eligibility.Proofs.Formula.Parentheses
import Eligibility.Proofs.Formula.Relevance
import Eligibility.Proofs.Formula.RuleText
import Eligibility.Proofs.Formula.SingleCondition
import Eligibility.Proofs.Formula.Storable
import Eligibility.Proofs.Formula.Verdict
import Eligibility.Proofs.Formula.Walks
import Eligibility.Proofs.Infix.Balance
import Eligibility.Proofs.Infix.Conservation
import Eligibility.Proofs.Infix.Faults
import Eligibility.Proofs.Infix.Grammar
import Eligibility.Proofs.Infix.Groups
import Eligibility.Proofs.Infix.Invariant
import Eligibility.Proofs.Infix.Placement
import Eligibility.Proofs.Infix.Reading
import Eligibility.Proofs.Infix.Steps
import Eligibility.Proofs.Json.Decoded
import Eligibility.Proofs.Json.Document
import Eligibility.Proofs.Json.Ending
import Eligibility.Proofs.Json.Layout
import Eligibility.Proofs.Json.Nesting
import Eligibility.Proofs.Json.NumeralText
import Eligibility.Proofs.Json.OpenContainers
import Eligibility.Proofs.Json.Scaling
import Eligibility.Proofs.Json.Significand
import Eligibility.Proofs.Json.Sorted
import Eligibility.Proofs.Json.Text
import Eligibility.Proofs.Json.Written
import Eligibility.Proofs.Number.Close
import Eligibility.Proofs.Number.DecimalValue
import Eligibility.Proofs.Number.Exact
import Eligibility.Proofs.Number.Nearest
import Eligibility.Proofs.Number.Order
import Eligibility.Proofs.Number.PlainText
import Eligibility.Proofs.Record.Inserts
import Eligibility.Proofs.Record.Listed
import Eligibility.Proofs.Record.Numbers
import Eligibility.Proofs.Stored.Ending
import Eligibility.Proofs.Stored.FirstOffence
import Eligibility.Proofs.Stored.Nesting
import Eligibility.Proofs.Stored.Node
import Eligibility.Proofs.Stored.Rewritten
import Eligibility.Proofs.Stored.RoundTrip
import Eligibility.Proofs.Stored.StoredAgain
import Eligibility.Proofs.Text.Bytes
import Eligibility.Proofs.Text.Classes
import Eligibility.Proofs.Text.Run
import Eligibility.Proofs.Token.Backtracking
import Eligibility.Proofs.Token.Comparison
import Eligibility.Proofs.Token.Cuts
import Eligibility.Proofs.Token.Gaps
import Eligibility.Proofs.Token.Pattern
import Eligibility.Proofs.Token.Places
import Eligibility.Proofs.Token.Reading
import Eligibility.Proofs.Token.Scan
import Eligibility.Proofs.Token.Spacing
import Eligibility.Proofs.Token.Structure
import Eligibility.Record.Basic
import Eligibility.Record.Reading
import Eligibility.Stored.NamedRule
import Eligibility.Stored.Node
import Eligibility.Stored.Reading
import Eligibility.Text.Blank
import Eligibility.Text.Combining
import Eligibility.Text.Digit
import Eligibility.Text.Hidden
import Eligibility.Text.Position
import Eligibility.Text.Quoted
import Eligibility.Text.Ranges
import Eligibility.Text.Word
import Eligibility.Token.Basic
import Eligibility.Token.Comparison
import Eligibility.Token.Scan
