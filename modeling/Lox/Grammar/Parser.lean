import Lox.Tree

/-!
# Parsers and syntax errors

A parser reads tokens from the front of what is left, hands out occurrence numbers, and records
errors. It stops at an error that leaves it at a loss; an error that does not disturb the tokens is
only recorded, and parsing goes on. The token that ends the input is never read: it is what an error
blames when nothing is left.
-/

set_option autoImplicit false

namespace Lox

/-- The two places in which functions are declared, as messages call them. -/
inductive FunctionRole where
  | function
  | method
  deriving DecidableEq, Repr

/-- The word for the role in messages. -/
def FunctionRole.word : FunctionRole → String
  | .function => "function"
  | .method => "method"

/-- The largest number of parameters or arguments. -/
def maxArity : Nat := 8

/-- What is wrong with a token. -/
inductive SyntaxCause where
  | noClassName
  | noClassBody
  | noClassEnd
  | noFunctionName (role : FunctionRole)
  | noParameters (role : FunctionRole)
  | noParameterName
  | noParametersEnd
  | noFunctionBody (role : FunctionRole)
  | noVariableName
  | noVariableEnd
  | noForClauses
  | noForConditionEnd
  | noForClausesEnd
  | noIfCondition
  | noIfConditionEnd
  | noWhileCondition
  | noWhileConditionEnd
  | noPrintEnd
  | noExpressionEnd
  | noReturnEnd
  | noBlockEnd
  | noArgumentsEnd
  | noPropertyName
  | noGroupingEnd
  | noExpression
  | tooManyParameters
  | tooManyArguments
  | badAssignmentTarget
  deriving DecidableEq, Repr

/-- The wording of a syntax error. -/
def SyntaxCause.message : SyntaxCause → String
  | .noClassName => "Expect class name."
  | .noClassBody => "Expect '\x7b' before class body."
  | .noClassEnd => "Expect '\x7d' after class body."
  | .noFunctionName role => s!"Expect {role.word} name."
  | .noParameters role => s!"Expect '(' after {role.word} name."
  | .noParameterName => "Expect parameter name."
  | .noParametersEnd => "Expect ')' after parameters."
  | .noFunctionBody role => "Expect '\x7b' before " ++ role.word ++ " body."
  | .noVariableName => "Expect variable name."
  | .noVariableEnd => "Expect ';' after variable declaration."
  | .noForClauses => "Expect '(' after 'for'."
  | .noForConditionEnd => "Expect ';' after loop condition."
  | .noForClausesEnd => "Expect ')' after for clauses."
  | .noIfCondition => "Expect '(' after 'if'."
  | .noIfConditionEnd => "Expect ')' after if condition."
  | .noWhileCondition => "Expect '(' after 'while'."
  | .noWhileConditionEnd => "Expect ')' after condition."
  | .noPrintEnd => "Expect ';' after value."
  | .noExpressionEnd => "Expect ';' after expression."
  | .noReturnEnd => "Expect ';' after return value."
  | .noBlockEnd => "Expect '\x7d' after block."
  | .noArgumentsEnd => "Expect ')' after arguments."
  | .noPropertyName => "Expect property name after '.'."
  | .noGroupingEnd => "Expect ')' after expression."
  | .noExpression => "Expect expression."
  | .tooManyParameters => s!"Can't have more than {maxArity} parameters."
  | .tooManyArguments => s!"Can't have more than {maxArity} arguments."
  | .badAssignmentTarget => "Invalid assignment target."

/-- A token that does not follow the grammar. -/
structure SyntaxError where
  token : Token
  cause : SyntaxCause

/-- What a parser reads and keeps. -/
structure ParserState where
  /-- The tokens not yet read, without the one that ends the input. -/
  rest : List Token
  /-- The token that ends the input. -/
  last : Token
  /-- The number of the next occurrence. -/
  nextId : Occurrence
  /-- The errors recorded so far, in their order. -/
  errors : List SyntaxError

/-- A parser that either yields a value or stops at an error. -/
abbrev Parser := EStateM SyntaxError ParserState

namespace Parser

variable {α : Type}

/-- The next token, without reading it. -/
def peek : Parser Token := fun s => .ok (s.rest.headD s.last) s

/-- Records an error and goes on. -/
def report (token : Token) (cause : SyntaxCause) : Parser Unit := fun s =>
  .ok () { s with errors := s.errors ++ [⟨token, cause⟩] }

/-- Stops at the next token. -/
def fail (cause : SyntaxCause) : Parser α := fun s => .error ⟨s.rest.headD s.last, cause⟩ s

/-- Tells whether a token with the property `p` comes next. -/
def sees (p : Token → Bool) : Parser Bool := fun s => .ok (s.rest.head?.any p) s

/-- Tells whether nothing is left. -/
def atEnd : Parser Bool := fun s => .ok s.rest.isEmpty s

/-- Reads the next token if it has the property `p`. -/
def accept? (p : Token → Bool) : Parser (Option Token) := fun s =>
  match s.rest with
  | [] => .ok none s
  | t :: rest => if p t then .ok (some t) { s with rest } else .ok none s

/-- Reads the next token if it has the property `p`, and says whether it did. -/
def accepts (p : Token → Bool) : Parser Bool := do return (← accept? p).isSome

/-- Reads the next token, which must have the property `p`. -/
def expect (p : Token → Bool) (cause : SyntaxCause) : Parser Token := do
  match ← accept? p with
  | some t => return t
  | none => fail cause

/-- Reads the next token, if there is one. -/
def advance : Parser Unit := fun s => .ok () { s with rest := s.rest.tail }

/-- A number for an occurrence. -/
def fresh : Parser Occurrence := fun s => .ok s.nextId { s with nextId := s.nextId + 1 }

end Parser

end Lox
