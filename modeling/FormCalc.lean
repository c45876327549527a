import FormCalc.Text.Bytes
import FormCalc.Text.Diagnostic
import FormCalc.Number.Digits
import FormCalc.Number.Shortest
import FormCalc.Number.Text
import FormCalc.Number.Numeral
import FormCalc.Table
import FormCalc.Limits
import FormCalc.Source
import FormCalc.Json.Quoted
import FormCalc.Json.Reader
import FormCalc.Json.Record
import FormCalc.Value.Access
import FormCalc.Value.Json
import FormCalc.Error
import FormCalc.Token.Literal
import FormCalc.Token.Stream
import FormCalc.Expr.Parser
import FormCalc.Expr.Eval
import FormCalc.Session
import FormCalc.Proofs.Exactness
import FormCalc.Proofs.Ceilings
import FormCalc.Proofs.Safety
import FormCalc.Proofs.Blocked
import FormCalc.Proofs.Parse.Room
import FormCalc.Proofs.Effects
import FormCalc.Proofs.Raising
import FormCalc.Proofs.Session.History
import FormCalc.Proofs.Session.Sound
import FormCalc.Proofs.Session.Caches
import FormCalc.Proofs.Lexing
import FormCalc.Proofs.Printing
import FormCalc.Proofs.Confinement
import FormCalc.Proofs.Oversized
import FormCalc.Proofs.Lexemes
import FormCalc.Proofs.Lossless
import FormCalc.Proofs.Eval.Places
import FormCalc.Proofs.Layout
import FormCalc.Proofs.Reading
import FormCalc.Proofs.Numerals
import FormCalc.Proofs.Literals.Single
import FormCalc.Proofs.Json.Spelling
import FormCalc.Proofs.Literals.Double
import FormCalc.Proofs.Forms
import FormCalc.Proofs.Positions
import FormCalc.Proofs.Faults
import FormCalc.Proofs.Rows
import FormCalc.Proofs.LineTable
import FormCalc.Proofs.Placement
import FormCalc.Proofs.Spans
import FormCalc.Proofs.Parse.Sites
import FormCalc.Proofs.Diagnostics
import FormCalc.Proofs.Number.Whole
import FormCalc.Proofs.Values
import FormCalc.Proofs.Json.Steps
import FormCalc.Proofs.Json.Numerals
import FormCalc.Proofs.Json.Numbers
import FormCalc.Proofs.Json.Texts
import FormCalc.Proofs.Json.RoundTrip
import FormCalc.Proofs.Parse.Counters
import FormCalc.Proofs.Parse.Reuse
import FormCalc.Proofs.Eval.Additions
import FormCalc.Proofs.Eval.Aggregates
import FormCalc.Proofs.Json.Members
import FormCalc.Proofs.Json.Records
