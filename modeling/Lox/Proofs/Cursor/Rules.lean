import Lox.Grammar.Statement

/-!
# The grammar at a position

The parser that runs reads from the front of the tokens that are left. Here the same rules are run on all
the tokens and a position among them. Every token is looked up by its index, and a look-up out of range
stops the run; loops and nested rules stop it too, when their fuel is used up. So what is taken for granted
of tokens that are left becomes a question: whether a run ever stops like this.

A run also leaves a record of the positions it has been at, of the operands it has given numbers to, and of
where its declarations began and ended.
-/

set_option autoImplicit false

namespace Lox

/-- A name or `this` that was read as an operand. -/
structure Operand where
  position : Nat
  token : Token
  id : Occurrence

/-- A position among tokens, and the record of a run. -/
structure Cursor where
  tokens : List Token
  current : Nat
  nextId : Occurrence
  errors : List SyntaxError
  /-- The positions that the run has been at, in their order. -/
  path : List Nat
  operands : List Operand
  /-- Where declarations began and ended. -/
  declared : List (Nat × Nat)

namespace Cursor

/-- Why a run stops. -/
inductive Stop where
  | fault (e : SyntaxError)
  | outOfRange
  | unfinished

/-- The cursor at which a run starts. -/
def start (tokens : List Token) (firstId : Occurrence) : Cursor := ⟨tokens, 0, firstId, [], [0], [], []⟩

/-- One position further on. -/
def step (c : Cursor) : Cursor := { c with current := c.current + 1, path := c.path ++ [c.current + 1] }

/-- With an operand, and its number given out. -/
def numbered (c : Cursor) (token : Token) : Cursor :=
  { c with nextId := c.nextId + 1, operands := c.operands ++ [⟨c.current - 1, token, c.nextId⟩] }

/-- With an error recorded. -/
def recorded (c : Cursor) (e : SyntaxError) : Cursor := { c with errors := c.errors ++ [e] }

/-- With a declaration that began at a position and ends here. -/
def declaring (c : Cursor) (first : Nat) : Cursor :=
  { c with declared := c.declared ++ [(first, c.current)] }

end Cursor

/-- A rule that is run at a position. -/
abbrev Reading := EStateM Cursor.Stop Cursor

namespace Reading

variable {α : Type}

/-- The token at an index. -/
def tokenAt (i : Nat) : Reading Token := fun c =>
  match c.tokens[i]? with
  | some t => .ok t c
  | none => .error .outOfRange c

/-- The token at the position. -/
def peek : Reading Token := fun c => tokenAt c.current c

/-- The token before the position; there is none before the first. -/
def previous : Reading Token := fun c =>
  match c.current with
  | 0 => .error .outOfRange c
  | i + 1 => tokenAt i c

/-- Tells whether the token at the position is the one that ends the input. -/
def atEnd : Reading Bool := return (← peek).isEof

/-- Goes on by one token, unless it ends the input, and looks back at it. -/
def advance : Reading Token := do
  if !(← atEnd) then modify Cursor.step
  previous

/-- Tells whether a token with the property `p` comes next. -/
def check (p : Token → Bool) : Reading Bool := do
  if ← atEnd then return false
  else return p (← peek)

/-- Reads the next token if it has the property `p`, and says whether it did. -/
def accepts (p : Token → Bool) : Reading Bool := do
  if ← check p then
    let _ ← advance
    return true
  else return false

/-- Reads the next token if it has the property `p`, and looks back at it. -/
def accept? (p : Token → Bool) : Reading (Option Token) := do
  if ← accepts p then return some (← previous)
  else return none

/-- Stops at the next token. -/
def fail (cause : SyntaxCause) : Reading α := do
  let t ← peek
  throw (.fault ⟨t, cause⟩)

/-- Reads the next token, which must have the property `p`. -/
def expect (p : Token → Bool) (cause : SyntaxCause) : Reading Token := do
  if ← check p then advance
  else fail cause

/-- Records an error and goes on. -/
def report (token : Token) (cause : SyntaxCause) : Reading Unit := modify (·.recorded ⟨token, cause⟩)

/-- Gives a number to the token that was read last. -/
def operand (build : Occurrence → Token → Expr) : Reading Expr := do
  let id := (← get).nextId
  let token ← previous
  modify (·.numbered token)
  return build id token

/-- The fuel is used up. -/
def unfinished : Reading α := throw .unfinished

/-- Skips to what looks like the start of the next statement. -/
def skipOn : (fuel : Nat) → Reading Unit
  | 0 => unfinished
  | fuel + 1 => do
    if ← atEnd then return
    else if (← previous).isSymbol .semicolon then return
    else if Grammar.startsStatement (← peek) then return
    else
      let _ ← advance
      skipOn fuel

/-- Skips the token at which an error was found, and goes on to what looks like the start of the next
statement. -/
def synchronize (fuel : Nat) : Reading Unit := do
  let _ ← advance
  skipOn fuel

/-- Runs a rule; an error is recorded, its statement given up, and tokens are skipped. -/
def recovering (fuel : Nat) (rule : Reading Stmt) : Reading (Option Stmt) := fun c =>
  match rule c with
  | .ok stmt c => .ok (some stmt) c
  | .error (.fault e) c =>
    (do
      report e.token e.cause
      synchronize fuel
      return none : Reading (Option Stmt)) c
  | .error stop c => .error stop c

/-- Runs a rule, and records where it began and ended. -/
def declaring (rule : Reading α) : Reading α := do
  let first := (← get).current
  let result ← rule
  modify (·.declaring first)
  return result

section Expressions

/-- An operand that is read, and the infix operators of one level that follow it. -/
def chainFrom (isOperator : Token → Bool) (build : Expr → Token → Expr → Expr)
    (operand : Reading Expr) : Nat → Expr → Reading Expr
  | 0, _ => unfinished
  | fuel + 1, left => do
    match ← accept? isOperator with
    | none => return left
    | some operator =>
      let right ← operand
      chainFrom isOperator build operand fuel (build left operator right)

/-- An operand and the infix operators of one level that follow it. -/
def chain (fuel : Nat) (isOperator : Token → Bool) (build : Expr → Token → Expr → Expr)
    (operand : Reading Expr) : Reading Expr := do
  let left ← operand
  chainFrom isOperator build operand fuel left

/-- The arguments of a call, at least one, of which `count` are already read. -/
def arguments (nested : Reading Expr) : (fuel count : Nat) → Reading (List Expr)
  | 0, _ => unfinished
  | fuel + 1, count => do
    if maxArity ≤ count then report (← peek) .tooManyArguments
    let argument ← nested
    if ← accepts (·.isSymbol .comma) then
      return argument :: (← arguments nested fuel (count + 1))
    else return [argument]

/-- A name, `this`, or an expression between parentheses. -/
def named (nested : Reading Expr) : Reading Expr := do
  if ← accepts (·.isKeyword .this) then operand .this
  else if ← accepts (·.isIdentifier) then operand .variable
  else if ← accepts (·.isSymbol .leftParen) then
    let inner ← nested
    let _ ← expect (·.isSymbol .rightParen) .noGroupingEnd
    return .grouping inner
  else fail .noExpression

/-- A constant, a name, `this`, or an expression between parentheses. -/
def primary (nested : Reading Expr) : Reading Expr := do
  if ← accepts (·.isKeyword .false) then return .literal .false
  else if ← accepts (·.isKeyword .true) then return .literal .true
  else if ← accepts (·.isKeyword .nil) then return .literal .nil
  else
    match (← peek).kind with
    | .number value =>
      let _ ← advance
      return .literal (.number value)
    | .string text =>
      let _ ← advance
      return .literal (.string text)
    | _ => named nested

/-- The calls and properties that follow an expression. -/
def callFrom (nested : Reading Expr) : Nat → Expr → Reading Expr
  | 0, _ => unfinished
  | fuel + 1, callee => do
    if ← accepts (·.isSymbol .leftParen) then
      let args ← if ← check (·.isSymbol .rightParen) then pure []
        else arguments nested (fuel + 1) 0
      let paren ← expect (·.isSymbol .rightParen) .noArgumentsEnd
      callFrom nested fuel (.call callee paren args)
    else if ← accepts (·.isSymbol .dot) then
      let name ← expect (·.isIdentifier) .noPropertyName
      callFrom nested fuel (.get callee name)
    else return callee

/-- A primary expression and the calls and properties that follow it. -/
def call (fuel : Nat) (nested : Reading Expr) : Reading Expr := do
  let callee ← primary nested
  callFrom nested fuel callee

/-- Prefix operators in front of an operand. -/
def unary (operand : Reading Expr) : Nat → Reading Expr
  | 0 => unfinished
  | fuel + 1 => do
    match ← accept? Grammar.isUnaryOperator with
    | some operator => return .unary operator (← unary operand fuel)
    | none => operand

/-- Products. -/
def factor (fuel : Nat) (nested : Reading Expr) : Reading Expr :=
  chain fuel Grammar.isFactorOperator .binary (unary (call fuel nested) fuel)

/-- Sums. -/
def term (fuel : Nat) (nested : Reading Expr) : Reading Expr :=
  chain fuel Grammar.isTermOperator .binary (factor fuel nested)

/-- Comparisons. -/
def comparison (fuel : Nat) (nested : Reading Expr) : Reading Expr :=
  chain fuel Grammar.isComparisonOperator .binary (term fuel nested)

/-- Equalities. -/
def equality (fuel : Nat) (nested : Reading Expr) : Reading Expr :=
  chain fuel Grammar.isEqualityOperator .binary (comparison fuel nested)

/-- Conjunctions. -/
def conjunction (fuel : Nat) (nested : Reading Expr) : Reading Expr :=
  chain fuel (·.isKeyword .and) .logical (equality fuel nested)

/-- Disjunctions. -/
def disjunction (fuel : Nat) (nested : Reading Expr) : Reading Expr :=
  chain fuel (·.isKeyword .or) .logical (conjunction fuel nested)

/-- An assignment, or an expression without one. -/
def assignment (fuel : Nat) (nested : Reading Expr) : Reading Expr := do
  let target ← disjunction fuel nested
  match ← accept? (·.isSymbol .equal) with
  | none => return target
  | some equals =>
    let value ← nested
    match Grammar.assignmentTo? value target with
    | some result => return result
    | none =>
      report equals .badAssignmentTarget
      return target

/-- An expression. -/
def expression : (fuel : Nat) → Reading Expr
  | 0 => unfinished
  | fuel + 1 => assignment (fuel + 1) (expression fuel)

end Expressions

section Statements

/-- Declarations as long as there are more; those given up are left out. -/
def declarationsWhile (more : Reading Bool) (declaration : Reading (Option Stmt)) :
    (fuel : Nat) → Reading (List Stmt)
  | 0 => unfinished
  | fuel + 1 => do
    if ← more then
      let first ← declaration
      let others ← declarationsWhile more declaration fuel
      return first.toList ++ others
    else return []

/-- Tells whether the position is before neither a closing brace nor the end. -/
def beforeBrace : Reading Bool := do
  if ← check (·.isSymbol .rightBrace) then return false
  else return !(← atEnd)

/-- The rest of a block whose opening brace is read. -/
def block (fuel : Nat) (declaration : Reading (Option Stmt)) : Reading (List Stmt) := do
  let body ← declarationsWhile beforeBrace declaration fuel
  let _ ← expect (·.isSymbol .rightBrace) .noBlockEnd
  return body

/-- Parameter names, at least one, of which `count` are already read. -/
def parameters : (fuel count : Nat) → Reading (List Token)
  | 0, _ => unfinished
  | fuel + 1, count => do
    if maxArity ≤ count then report (← peek) .tooManyParameters
    let parameter ← expect (·.isIdentifier) .noParameterName
    if ← accepts (·.isSymbol .comma) then
      return parameter :: (← parameters fuel (count + 1))
    else return [parameter]

/-- A function from its name on. -/
def function (fuel : Nat) (role : FunctionRole) (declaration : Reading (Option Stmt)) :
    Reading FunctionDecl := do
  let name ← expect (·.isIdentifier) (.noFunctionName role)
  let _ ← expect (·.isSymbol .leftParen) (.noParameters role)
  let params ← if ← check (·.isSymbol .rightParen) then pure [] else parameters fuel 0
  let _ ← expect (·.isSymbol .rightParen) .noParametersEnd
  let _ ← expect (·.isSymbol .leftBrace) (.noFunctionBody role)
  let body ← block fuel declaration
  return ⟨name, params, body⟩

/-- Methods up to a closing brace or the end. -/
def methods (method : Reading FunctionDecl) : (fuel : Nat) → Reading (List FunctionDecl)
  | 0 => unfinished
  | fuel + 1 => do
    if ← beforeBrace then
      let first ← method
      return first :: (← methods method fuel)
    else return []

/-- A class from its name on. -/
def classDeclaration (fuel : Nat) (declaration : Reading (Option Stmt)) : Reading Stmt := do
  let name ← expect (·.isIdentifier) .noClassName
  let _ ← expect (·.isSymbol .leftBrace) .noClassBody
  let ms ← methods (function fuel .method declaration) fuel
  let _ ← expect (·.isSymbol .rightBrace) .noClassEnd
  return .class name ms

/-- A variable from its name on. -/
def variableDeclaration (fuel : Nat) : Reading Stmt := do
  let name ← expect (·.isIdentifier) .noVariableName
  let initial ← if ← accepts (·.isSymbol .equal) then some <$> expression fuel else pure none
  let _ ← expect (·.isSymbol .semicolon) .noVariableEnd
  return .variable name initial

/-- An expression as a statement. -/
def expressionStatement (fuel : Nat) : Reading Stmt := do
  let expr ← expression fuel
  let _ ← expect (·.isSymbol .semicolon) .noExpressionEnd
  return .expression expr

/-- A print statement behind its keyword. -/
def printStatement (fuel : Nat) : Reading Stmt := do
  let expr ← expression fuel
  let _ ← expect (·.isSymbol .semicolon) .noPrintEnd
  return .print expr

/-- A return statement behind its keyword. -/
def returnStatement (fuel : Nat) : Reading Stmt := do
  let keyword ← previous
  let value ← if ← check (·.isSymbol .semicolon) then pure none else some <$> expression fuel
  let _ ← expect (·.isSymbol .semicolon) .noReturnEnd
  return .return keyword value

/-- A conditional behind its keyword. -/
def ifStatement (fuel : Nat) (nested : Reading Stmt) : Reading Stmt := do
  let _ ← expect (·.isSymbol .leftParen) .noIfCondition
  let condition ← expression fuel
  let _ ← expect (·.isSymbol .rightParen) .noIfConditionEnd
  let thenBranch ← nested
  let elseBranch ← if ← accepts (·.isKeyword .else) then some <$> nested else pure none
  return .conditional condition thenBranch elseBranch

/-- A while loop behind its keyword. -/
def whileStatement (fuel : Nat) (nested : Reading Stmt) : Reading Stmt := do
  let _ ← expect (·.isSymbol .leftParen) .noWhileCondition
  let condition ← expression fuel
  let _ ← expect (·.isSymbol .rightParen) .noWhileConditionEnd
  let body ← nested
  return .loop condition body

/-- The initial clause of a for loop, with its semicolon. -/
def initialClause (fuel : Nat) : Reading (Option Stmt) := do
  if ← accepts (·.isSymbol .semicolon) then return none
  else if ← accepts (·.isKeyword .var) then some <$> variableDeclaration fuel
  else some <$> expressionStatement fuel

/-- A for loop behind its keyword; without a condition it runs for ever. -/
def forStatement (fuel : Nat) (nested : Reading Stmt) : Reading Stmt := do
  let _ ← expect (·.isSymbol .leftParen) .noForClauses
  let initial ← initialClause fuel
  let condition ← if ← check (·.isSymbol .semicolon) then pure (.literal .true)
    else expression fuel
  let _ ← expect (·.isSymbol .semicolon) .noForConditionEnd
  let increment ← if ← check (·.isSymbol .rightParen) then pure none
    else some <$> expression fuel
  let _ ← expect (·.isSymbol .rightParen) .noForClausesEnd
  let body ← nested
  return Grammar.forLoop initial condition increment body

/-- A statement, from rules for the statements and declarations in it. -/
def statementWith (fuel : Nat) (nested : Reading Stmt) (declaration : Reading (Option Stmt)) :
    Reading Stmt := do
  if ← accepts (·.isKeyword .for) then forStatement fuel nested
  else if ← accepts (·.isKeyword .if) then ifStatement fuel nested
  else if ← accepts (·.isKeyword .while) then whileStatement fuel nested
  else if ← accepts (·.isKeyword .return) then returnStatement fuel
  else if ← accepts (·.isSymbol .leftBrace) then .block <$> block fuel declaration
  else if ← accepts (·.isKeyword .print) then printStatement fuel
  else expressionStatement fuel

/-- A declaration, from a rule for the declarations in it and one for statements. -/
def declarationWith (fuel : Nat) (statement : Reading Stmt) (declaration : Reading (Option Stmt)) :
    Reading Stmt := do
  if ← accepts (·.isKeyword .class) then classDeclaration fuel declaration
  else if ← accepts (·.isKeyword .fun) then .function <$> function fuel .function declaration
  else if ← accepts (·.isKeyword .var) then variableDeclaration fuel
  else statement

mutual

/-- A statement. -/
def statement : (fuel : Nat) → Reading Stmt
  | 0 => unfinished
  | fuel + 1 => statementWith (fuel + 1) (statement fuel) (declaration fuel)

/-- A declaration. -/
def declaration : (fuel : Nat) → Reading (Option Stmt)
  | 0 => unfinished
  | fuel + 1 =>
    declaring <| recovering (fuel + 1) <| declarationWith (fuel + 1)
      (statementWith (fuel + 1) (statement fuel) (declaration fuel)) (declaration fuel)

end

/-- All declarations to the end of the input. -/
def program (fuel : Nat) : Reading (List Stmt) :=
  declarationsWhile (do return !(← atEnd)) (declaration fuel) fuel

end Statements

end Reading

end Lox
