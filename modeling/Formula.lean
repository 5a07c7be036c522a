import Formula.Main
import Formula.Proofs.Agreement
import Formula.Proofs.Arguments.Evaluation
import Formula.Proofs.BoundNames
import Formula.Proofs.Bounds
import Formula.Proofs.Definitions
import Formula.Proofs.Dialogue
import Formula.Proofs.Ends
import Formula.Proofs.Grammar.Evaluation
import Formula.Proofs.Group.Evolution
import Formula.Proofs.Kinds
import Formula.Proofs.Lexing.Decoding
import Formula.Proofs.Lexing.Image
import Formula.Proofs.Lexing.Joining
import Formula.Proofs.Lexing.Pattern
import Formula.Proofs.Lexing.Rendering
import Formula.Proofs.Mixed.Evaluation
import Formula.Proofs.Names
import Formula.Proofs.Nested.Evaluation
import Formula.Proofs.Occurrences
import Formula.Proofs.Parentheses
import Formula.Proofs.Precedence.Evaluation
import Formula.Proofs.Replay
import Formula.Proofs.Scalars
import Formula.Proofs.Stepping
import Formula.Proofs.Stored.RoundTrip
import Formula.Stored.Reader
import Formula.Trace
