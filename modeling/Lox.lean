import Lox.Bindings
import Lox.CommandLine
import Lox.Diagnostic
import Lox.Evaluation
import Lox.Grammar.Expression
import Lox.Grammar.Parser
import Lox.Grammar.Statement
import Lox.Interpreter
import Lox.Main
import Lox.Number.Decimal
import Lox.Number.Fraction
import Lox.Number.Text
import Lox.Resolution
import Lox.Session
import Lox.Sink
import Lox.Store
import Lox.Text.Quoted
import Lox.Text.Utf8
import Lox.Token
import Lox.Token.Scan
import Lox.Token.Text
import Lox.Tree
import Lox.Tree.Equality
import Lox.Tree.Text
import Lox.Value
import Lox.Proofs.Renaming.Program
import Lox.Proofs.Session.Distances
import Lox.Proofs.Session.Lines
import Lox.Proofs.Session.Methods
import Lox.Proofs.Session.Outcomes
import Lox.Proofs.Session.Program
import Lox.Proofs.Session.Rejection
import Lox.Proofs.Token.Coverage
import Lox.Proofs.Resolution.Nearest
import Lox.Proofs.Resolution.Recorded
import Lox.Proofs.Grammar.Independent
import Lox.Proofs.Grammar.WhileForm
import Lox.Proofs.Grammar.Whole
import Lox.Proofs.Grammar.ForLoops
import Lox.Proofs.Grammar.Written
import Lox.Proofs.Grammar.ForAsWhile
import Lox.Proofs.Token.Rescanned
import Lox.Proofs.Token.Apart
import Lox.Proofs.Session.Loops
import Lox.Proofs.Token.Longest
import Lox.Proofs.Cursor.Rules
import Lox.Proofs.Cursor.Steps
import Lox.Proofs.Tree.Bearers
import Lox.Proofs.Cursor.Agreement
import Lox.Proofs.Cursor.Expressions
import Lox.Proofs.Cursor.Programs
import Lox.Proofs.Session.Numbers
import Lox.Proofs.Session.Errors
import Lox.Proofs.Session.Unambiguous
import Lox.Proofs.Session.Environments
import Lox.Proofs.Chains.Walks
import Lox.Proofs.Number.ReadBack
import Lox.Proofs.Grammar.Blame
import Lox.Proofs.Token.Heads
