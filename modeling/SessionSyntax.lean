import SessionSyntax.Grammar
import SessionSyntax.Json
import SessionSyntax.Json.Decode
import SessionSyntax.Lexeme
import SessionSyntax.LexemeReader
import SessionSyntax.Matcher
import SessionSyntax.Outcome
import SessionSyntax.Parse
import SessionSyntax.ParseError
import SessionSyntax.Payload
import SessionSyntax.Proofs.Advice
import SessionSyntax.Proofs.Boundaries
import SessionSyntax.Proofs.Building
import SessionSyntax.Proofs.Correspondence
import SessionSyntax.Proofs.Cutting
import SessionSyntax.Proofs.Decoding
import SessionSyntax.Proofs.Equivalence
import SessionSyntax.Proofs.Expectations
import SessionSyntax.Proofs.Frontiers
import SessionSyntax.Proofs.Leftmost
import SessionSyntax.Proofs.Leftovers
import SessionSyntax.Proofs.Limits
import SessionSyntax.Proofs.Lines
import SessionSyntax.Proofs.Matching
import SessionSyntax.Proofs.Naming
import SessionSyntax.Proofs.Nesting
import SessionSyntax.Proofs.Notes
import SessionSyntax.Proofs.Phrases
import SessionSyntax.Proofs.Places
import SessionSyntax.Proofs.Pointing
import SessionSyntax.Proofs.Producing
import SessionSyntax.Proofs.Queries
import SessionSyntax.Proofs.Reading
import SessionSyntax.Proofs.Recovery
import SessionSyntax.Proofs.Recursion
import SessionSyntax.Proofs.Respelling
import SessionSyntax.Proofs.RoundTrip
import SessionSyntax.Proofs.Seams
import SessionSyntax.Proofs.Spellings
import SessionSyntax.Proofs.Stopping
import SessionSyntax.Proofs.Tokens
import SessionSyntax.Proofs.Underlining
import SessionSyntax.Proofs.Validation
import SessionSyntax.Proofs.Verdicts
import SessionSyntax.Proofs.Viability
import SessionSyntax.Proofs.Writing
import SessionSyntax.Rule
import SessionSyntax.Session
import SessionSyntax.Shape
import SessionSyntax.Symbol
import SessionSyntax.Text
import SessionSyntax.Text.Quoted
