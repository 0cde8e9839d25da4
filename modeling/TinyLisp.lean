import TinyLisp.Text.Blank
import TinyLisp.Text.Digit
import TinyLisp.Text.Printable
import TinyLisp.Text.Upper
import TinyLisp.Text.Quoted
import TinyLisp.Text.Ansi
import TinyLisp.Text.Utf8
import TinyLisp.Text.Lines
import TinyLisp.Number.Double
import TinyLisp.Number.Decimal
import TinyLisp.Number.Shortest
import TinyLisp.Number.Text
import TinyLisp.Expr
import TinyLisp.Fault
import TinyLisp.Render
import TinyLisp.Compare
import TinyLisp.Token
import TinyLisp.Reader
import TinyLisp.Env
import TinyLisp.Event
import TinyLisp.Action
import TinyLisp.Eval
import TinyLisp.Files
import TinyLisp.Interpreter
import TinyLisp.Repl
import TinyLisp.Session
import TinyLisp.Settings
import TinyLisp.CommandLine.Options
import TinyLisp.CommandLine.Invocation
import TinyLisp.CommandLine.Execution
import TinyLisp.Main
import TinyLisp.Proofs.Grammar
import TinyLisp.Proofs.Run
import TinyLisp.Proofs.Simulation
import TinyLisp.Proofs.Policy
import TinyLisp.Proofs.Calls
import TinyLisp.Proofs.Values
import TinyLisp.Proofs.Trail
import TinyLisp.Proofs.Confinement
import TinyLisp.Proofs.Loading
import TinyLisp.Proofs.Reading
import TinyLisp.Proofs.Joining
import TinyLisp.Proofs.RoundTrip
import TinyLisp.Proofs.Loop
import TinyLisp.Proofs.Batch
import TinyLisp.Proofs.Nesting
import TinyLisp.Proofs.Noninterference
import TinyLisp.Proofs.Levels
import TinyLisp.Proofs.Course
import TinyLisp.Proofs.Atomicity
import TinyLisp.Proofs.Failures
import TinyLisp.Proofs.Accounting
import TinyLisp.Proofs.Names
import TinyLisp.Proofs.Definitions
import TinyLisp.Proofs.Order
import TinyLisp.Proofs.Extent
import TinyLisp.Proofs.Layout
import TinyLisp.Proofs.Arithmetic
import TinyLisp.Proofs.Naming
import TinyLisp.Proofs.Strictness
import TinyLisp.Proofs.Equality
import TinyLisp.Proofs.Congruence
import TinyLisp.Proofs.OrderedMap
import TinyLisp.Proofs.Numerals
import TinyLisp.Proofs.Rendering
import TinyLisp.Proofs.Atoms
import TinyLisp.Proofs.Magnitudes
import TinyLisp.Proofs.Conversion
import TinyLisp.Proofs.Integers
import TinyLisp.Proofs.ReadBack
import TinyLisp.Proofs.Shortest
import TinyLisp.Proofs.Zeros
