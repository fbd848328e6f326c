import BraceScript.Console
import BraceScript.Eval.Arithmetic
import BraceScript.Eval.Assign
import BraceScript.Eval.Attribute
import BraceScript.Eval.Basic
import BraceScript.Eval.Branch
import BraceScript.Eval.Builtins
import BraceScript.Eval.Call
import BraceScript.Eval.Class
import BraceScript.Eval.Display
import BraceScript.Eval.Embedded
import BraceScript.Eval.Equality
import BraceScript.Eval.Exec
import BraceScript.Eval.Files
import BraceScript.Eval.Loop
import BraceScript.Eval.Machine
import BraceScript.Eval.Methods
import BraceScript.Eval.Module
import BraceScript.Eval.Operator
import BraceScript.Eval.Quoted
import BraceScript.Eval.Sequence
import BraceScript.Eval.Sort
import BraceScript.Eval.Template
import BraceScript.Fault
import BraceScript.Main
import BraceScript.Node.Basic
import BraceScript.Node.Form
import BraceScript.Number.Decimal
import BraceScript.Number.Double
import BraceScript.Number.Reading
import BraceScript.Parse.Basic
import BraceScript.Parse.Expression
import BraceScript.Parse.Statement
import BraceScript.Proofs.Call.Arguments
import BraceScript.Proofs.Call.Arity
import BraceScript.Proofs.Call.ByPlace
import BraceScript.Proofs.Call.CallArguments
import BraceScript.Proofs.Call.Capture
import BraceScript.Proofs.Call.Isolation
import BraceScript.Proofs.Call.MapCalls
import BraceScript.Proofs.Call.Surplus
import BraceScript.Proofs.Call.Variadic
import BraceScript.Proofs.Class.FieldDefaults
import BraceScript.Proofs.Class.InheritedFields
import BraceScript.Proofs.Class.Resolution
import BraceScript.Proofs.Class.Tree
import BraceScript.Proofs.Class.WrittenAttributes
import BraceScript.Proofs.Console.Restart
import BraceScript.Proofs.Console.Turns
import BraceScript.Proofs.Control.Comprehension
import BraceScript.Proofs.Control.EarlyReturn
import BraceScript.Proofs.Control.EmbeddedBindings
import BraceScript.Proofs.Control.Enclosure
import BraceScript.Proofs.Control.LogicOperators
import BraceScript.Proofs.Control.LoneExpression
import BraceScript.Proofs.Control.LoopControl
import BraceScript.Proofs.Control.LoopSignals
import BraceScript.Proofs.Control.MatchChain
import BraceScript.Proofs.Control.Placement
import BraceScript.Proofs.Control.UnknownTree
import BraceScript.Proofs.Exec.CoupledRules
import BraceScript.Proofs.Exec.Coupling
import BraceScript.Proofs.Exec.Depth
import BraceScript.Proofs.Exec.Fuel
import BraceScript.Proofs.Exec.KnownFaults
import BraceScript.Proofs.Exec.Law
import BraceScript.Proofs.Exec.Occasion
import BraceScript.Proofs.Exec.Quiet
import BraceScript.Proofs.Exec.QuietProgram
import BraceScript.Proofs.Exec.Regime
import BraceScript.Proofs.Library.Basic
import BraceScript.Proofs.Library.Cells
import BraceScript.Proofs.Library.Inclusion
import BraceScript.Proofs.Library.ModuleCalls
import BraceScript.Proofs.Parse.Agree
import BraceScript.Proofs.Parse.AgreeReaders
import BraceScript.Proofs.Parse.Alike
import BraceScript.Proofs.Parse.BlockStatements
import BraceScript.Proofs.Parse.Boundary
import BraceScript.Proofs.Parse.Brackets
import BraceScript.Proofs.Parse.ClosedTree
import BraceScript.Proofs.Parse.Nesting
import BraceScript.Proofs.Parse.Progress
import BraceScript.Proofs.Parse.Reader
import BraceScript.Proofs.Parse.Regular
import BraceScript.Proofs.Parse.StringTexts
import BraceScript.Proofs.Parse.Unfinished
import BraceScript.Proofs.Print.Collections
import BraceScript.Proofs.Print.Expr
import BraceScript.Proofs.Print.Formula
import BraceScript.Proofs.Print.NegatedOperand
import BraceScript.Proofs.Print.Operators
import BraceScript.Proofs.Print.ParsePrint
import BraceScript.Proofs.Print.Pieces
import BraceScript.Proofs.Print.Precedence
import BraceScript.Proofs.Print.SignedFraction
import BraceScript.Proofs.Simulation.Machine
import BraceScript.Proofs.Simulation.Match
import BraceScript.Proofs.Simulation.MatchFiles
import BraceScript.Proofs.Simulation.MatchText
import BraceScript.Proofs.Simulation.Pairing
import BraceScript.Proofs.Simulation.Reachable
import BraceScript.Proofs.Simulation.Rules
import BraceScript.Proofs.Simulation.Steps
import BraceScript.Proofs.Simulation.Trees
import BraceScript.Proofs.Token.Cutting
import BraceScript.Proofs.Token.Layout
import BraceScript.Proofs.Token.Literal
import BraceScript.Proofs.Token.Segments
import BraceScript.Proofs.Token.StringLiteral
import BraceScript.Session
import BraceScript.Store.ClassTable
import BraceScript.Store.Dict
import BraceScript.Store.Disk
import BraceScript.Store.Handle
import BraceScript.Store.Path
import BraceScript.Store.Reach
import BraceScript.Store.Scope
import BraceScript.Store.World
import BraceScript.Text.Case
import BraceScript.Text.Digit
import BraceScript.Text.Escape
import BraceScript.Text.Printable
import BraceScript.Text.Quoted
import BraceScript.Text.Runs
import BraceScript.Text.Split
import BraceScript.Text.Word
import BraceScript.Token.Basic
import BraceScript.Token.Comment
import BraceScript.Token.Lexer
import BraceScript.Value
import BraceScript.Value.Numeric
