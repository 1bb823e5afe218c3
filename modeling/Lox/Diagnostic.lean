import Lox.Token.Scan
import Lox.Grammar.Parser
import Lox.Resolution
import Lox.Sink

/-!
# Errors and diagnostics

There is one type for the errors of all phases, and each kind of error is reported in one way. Every
error that is reported has a line and a message; errors found in the tokens or in the tree also show the
token they blame. An error of the output has only the message.
-/

set_option autoImplicit false

namespace Lox

/-- Why an operation could not be carried out. -/
inductive RuntimeCause where
  | operandNotNumber
  | operandsNotNumbers
  | operandsNotAddable
  | notCallable
  | wrongArgumentCount (expected got : Nat)
  | noProperties
  | noFields
  | undefinedProperty (name : String)
  | undefinedVariable (name : String)
  | invalidUnaryOperator
  | invalidBinaryOperator
  deriving DecidableEq, Repr

/-- The wording of a runtime error. -/
def RuntimeCause.message : RuntimeCause → String
  | .operandNotNumber => "Operand must be a number."
  | .operandsNotNumbers => "Operands must be numbers."
  | .operandsNotAddable => "Operands must be two numbers or two strings."
  | .notCallable => "Can only call functions and classes."
  | .wrongArgumentCount expected got => s!"Expected {expected} arguments but got {got}."
  | .noProperties => "Only instances have properties."
  | .noFields => "Only instances have fields."
  | .undefinedProperty name => s!"Undefined property '{name}'."
  | .undefinedVariable name => s!"Undefined variable '{name}'."
  | .invalidUnaryOperator => "Invalid unary operator."
  | .invalidBinaryOperator => "Invalid binary operator."

/-- An operation that could not be carried out, and its line. -/
structure RuntimeError where
  line : Nat
  cause : RuntimeCause
  deriving DecidableEq, Repr

/-- An error, of whichever phase. -/
inductive Failure where
  /-- Scanning has found a stretch of the source that is no token. -/
  | lexical (error : LexicalError)
  /-- Parsing has found a token that does not follow the grammar. -/
  | grammatical (error : SyntaxError)
  /-- Resolution has found a token that is out of place. -/
  | binding (error : BindingError)
  /-- Evaluation could not carry out an operation. -/
  | runtime (error : RuntimeError)
  /-- The output did not take what was printed. -/
  | output (error : SinkError)

/-- An error as it is reported. -/
inductive Diagnostic where
  /-- A stretch of the source is no token. -/
  | lexical (line : Nat) (message : String)
  /-- The tokens do not follow the grammar. -/
  | grammatical (token : Token) (message : String)
  /-- A name, `this` or `return` stands where it may not. -/
  | binding (token : Token) (message : String)
  /-- An operation could not be carried out. -/
  | runtime (line : Nat) (message : String)
  /-- The output did not take what was printed. -/
  | output (message : String)

namespace Diagnostic

/-- Where an error that blames a token says it is. -/
def placeOf (t : Token) : String := if t.isEof then " at end" else s!" at '{t.lexeme}'"

/-- The line of the error. -/
def line? : Diagnostic → Option Nat
  | lexical line _ => some line
  | grammatical token _ => some token.line
  | binding token _ => some token.line
  | runtime line _ => some line
  | output _ => none

/-- The place of the error within its line, where it blames a token. -/
def place? : Diagnostic → Option String
  | grammatical token _ => some (placeOf token)
  | binding token _ => some (placeOf token)
  | _ => none

/-- The message alone. -/
def message : Diagnostic → String
  | lexical _ message => message
  | grammatical _ message => message
  | binding _ message => message
  | runtime _ message => message
  | output message => message

/-- Whether the error is found before anything runs. -/
def isCompileTime : Diagnostic → Bool
  | lexical .. => true
  | grammatical .. => true
  | binding .. => true
  | runtime .. => false
  | output _ => false

/-- The error as it is shown. -/
def text : Diagnostic → String
  | lexical line message => s!"[line {line}] Error: {message}"
  | grammatical token message => s!"[line {token.line}] Error{placeOf token}: {message}"
  | binding token message => s!"[line {token.line}] Error{placeOf token}: {message}"
  | runtime line message => s!"{message}\n[line {line}]"
  | output message => message

end Diagnostic

/-- How an error is reported. -/
def Failure.diagnostic : Failure → Diagnostic
  | .lexical e => .lexical e.line e.cause.message
  | .grammatical e => .grammatical e.token e.cause.message
  | .binding e => .binding e.token e.cause.message
  | .runtime e => .runtime e.line e.cause.message
  | .output e => .output e.message

/-- How a lexical error is reported. -/
def LexicalError.diagnostic (e : LexicalError) : Diagnostic := (Failure.lexical e).diagnostic

/-- How a syntax error is reported. -/
def SyntaxError.diagnostic (e : SyntaxError) : Diagnostic := (Failure.grammatical e).diagnostic

/-- How a binding error is reported. -/
def BindingError.diagnostic (e : BindingError) : Diagnostic := (Failure.binding e).diagnostic

end Lox
