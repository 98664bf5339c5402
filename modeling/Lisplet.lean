import Lisplet.Command
import Lisplet.Command.Options
import Lisplet.Decimal.Binary64
import Lisplet.Decimal.Layout
import Lisplet.Decimal.Numeral
import Lisplet.Decimal.Shortest
import Lisplet.Eval
import Lisplet.Eval.Error
import Lisplet.Eval.Form
import Lisplet.Fault
import Lisplet.Graph
import Lisplet.Graph.Parser
import Lisplet.Interpreter
import Lisplet.Main
import Lisplet.Position
import Lisplet.Proofs.Alike
import Lisplet.Proofs.Arithmetic
import Lisplet.Proofs.Blame
import Lisplet.Proofs.Boundary
import Lisplet.Proofs.Calls
import Lisplet.Proofs.Chains
import Lisplet.Proofs.Chronicle
import Lisplet.Proofs.Completion
import Lisplet.Proofs.Congruence
import Lisplet.Proofs.Delivery
import Lisplet.Proofs.DepthLimit
import Lisplet.Proofs.Descent
import Lisplet.Proofs.Fallible
import Lisplet.Proofs.Forest
import Lisplet.Proofs.Frame
import Lisplet.Proofs.Grammar
import Lisplet.Proofs.History
import Lisplet.Proofs.Integer
import Lisplet.Proofs.Interactive
import Lisplet.Proofs.Interruption
import Lisplet.Proofs.Invariant
import Lisplet.Proofs.Kinship
import Lisplet.Proofs.Layout
import Lisplet.Proofs.Likeness
import Lisplet.Proofs.Loading
import Lisplet.Proofs.Logging
import Lisplet.Proofs.Numeral
import Lisplet.Proofs.Quotient
import Lisplet.Proofs.Reachability
import Lisplet.Proofs.Reading
import Lisplet.Proofs.Relocation
import Lisplet.Proofs.Repetition
import Lisplet.Proofs.RoundTrip
import Lisplet.Proofs.Scanner
import Lisplet.Proofs.Scoping
import Lisplet.Proofs.Soundness
import Lisplet.Proofs.Sources
import Lisplet.Proofs.Spelling
import Lisplet.Proofs.Stray
import Lisplet.Proofs.TreeMachine
import Lisplet.Proofs.Unmentioned
import Lisplet.Proofs.Utf8
import Lisplet.Proofs.Waiting
import Lisplet.Proofs.Words
import Lisplet.Proofs.Yield
import Lisplet.Session
import Lisplet.Store
import Lisplet.Text.Letter
import Lisplet.Text.Printable
import Lisplet.Text.Quoted
import Lisplet.Text.Ranges
import Lisplet.Text.Space
import Lisplet.Text.Utf8
import Lisplet.Token
import Lisplet.Token.Lexer
import Lisplet.Token.Stream
import Lisplet.Trace
import Lisplet.Tree
import Lisplet.Tree.Parser
import Lisplet.Tree.Printer
import Lisplet.Value
