import Lox.Grammar.Expression

/-!
# Statements and programs

    program     = { declaration }
    declaration = "class" name "{" { function } "}"
                | "fun" function
                | variable
                | statement
    function    = name "(" [ name { "," name } ] ")" block
    variable    = "var" name [ "=" expression ] ";"
    statement   = block
                | "print" expression ";"
                | "return" [ expression ] ";"
                | "if" "(" expression ")" statement [ "else" statement ]
                | "while" "(" expression ")" statement
                | "for" "(" ( variable | expression ";" | ";" ) [ expression ] ";"
                  [ expression ] ")" statement
                | expression ";"
    block       = "{" { declaration } "}"

An `else` belongs to the nearest `if`, and a function has at most eight parameters.

A declaration that fails records its error, skips to what looks like the start of the next
statement, and yields nothing; so one parse reports every error. As for expressions, rules that hold
statements or declarations take the parsers for these as arguments, and a bound for the number of
tokens left drives the recursion.
-/

set_option autoImplicit false

namespace Lox.Grammar

open Lox.Parser

/-- A keyword that begins a statement. -/
def startsStatement (t : Token) : Bool :=
  t.isKeyword .class || t.isKeyword .fun || t.isKeyword .var || t.isKeyword .for
    || t.isKeyword .if || t.isKeyword .while || t.isKeyword .print || t.isKeyword .return

/-- What is left after skipping from behind the token `previous` to a statement boundary: behind a
semicolon, before a keyword that begins a statement, or at the end. -/
def skipFrom (previous : Token) : List Token → List Token
  | [] => []
  | t :: rest =>
    if previous.isSymbol .semicolon || startsStatement t then t :: rest else skipFrom t rest

/-- What is left after recovering from an error at the first token: that token is always skipped. -/
def skip : List Token → List Token
  | [] => []
  | t :: rest => skipFrom t rest

/-- Runs a parser; an error is recorded, its statement given up, and tokens are skipped. -/
def recovering (parser : Parser Stmt) : Parser (Option Stmt) := fun s =>
  match parser s with
  | .ok stmt s => .ok (some stmt) s
  | .error e s => .ok none { s with rest := skip s.rest, errors := s.errors ++ [e] }

/-- Declarations up to a token with the property `stop` or the end; those given up are left out. -/
def declarationsUntil (stop : Token → Bool) (declaration : Parser (Option Stmt)) :
    (bound : Nat) → Parser (List Stmt)
  | 0 => return []
  | bound + 1 => do
    if (← atEnd) || (← sees stop) then return []
    else
      let first ← declaration
      let others ← declarationsUntil stop declaration bound
      return first.toList ++ others

/-- The rest of a block whose opening brace is read. -/
def block (bound : Nat) (declaration : Parser (Option Stmt)) : Parser (List Stmt) := do
  let body ← declarationsUntil (·.isSymbol .rightBrace) declaration bound
  let _ ← expect (·.isSymbol .rightBrace) .noBlockEnd
  return body

/-- Parameter names, at least one, of which `count` are already read. -/
def parameters : (bound count : Nat) → Parser (List Token)
  | 0, _ => fail .noParameterName
  | bound + 1, count => do
    if maxArity ≤ count then report (← peek) .tooManyParameters
    let parameter ← expect (·.isIdentifier) .noParameterName
    if ← accepts (·.isSymbol .comma) then
      return parameter :: (← parameters bound (count + 1))
    else return [parameter]

/-- A function from its name on. -/
def function (bound : Nat) (role : FunctionRole) (declaration : Parser (Option Stmt)) :
    Parser FunctionDecl := do
  let name ← expect (·.isIdentifier) (.noFunctionName role)
  let _ ← expect (·.isSymbol .leftParen) (.noParameters role)
  let params ← if ← sees (·.isSymbol .rightParen) then pure [] else parameters bound 0
  let _ ← expect (·.isSymbol .rightParen) .noParametersEnd
  let _ ← expect (·.isSymbol .leftBrace) (.noFunctionBody role)
  let body ← block bound declaration
  return ⟨name, params, body⟩

/-- Methods up to a closing brace or the end. -/
def methods (method : Parser FunctionDecl) : (bound : Nat) → Parser (List FunctionDecl)
  | 0 => return []
  | bound + 1 => do
    if (← atEnd) || (← sees (·.isSymbol .rightBrace)) then return []
    else
      let first ← method
      return first :: (← methods method bound)

/-- A class from its name on. -/
def classDeclaration (bound : Nat) (declaration : Parser (Option Stmt)) : Parser Stmt := do
  let name ← expect (·.isIdentifier) .noClassName
  let _ ← expect (·.isSymbol .leftBrace) .noClassBody
  let ms ← methods (function bound .method declaration) bound
  let _ ← expect (·.isSymbol .rightBrace) .noClassEnd
  return .class name ms

/-- A variable from its name on. -/
def variableDeclaration (bound : Nat) : Parser Stmt := do
  let name ← expect (·.isIdentifier) .noVariableName
  let initial ← if ← accepts (·.isSymbol .equal) then some <$> expression bound else pure none
  let _ ← expect (·.isSymbol .semicolon) .noVariableEnd
  return .variable name initial

/-- An expression as a statement. -/
def expressionStatement (bound : Nat) : Parser Stmt := do
  let expr ← expression bound
  let _ ← expect (·.isSymbol .semicolon) .noExpressionEnd
  return .expression expr

/-- A print statement behind its keyword. -/
def printStatement (bound : Nat) : Parser Stmt := do
  let expr ← expression bound
  let _ ← expect (·.isSymbol .semicolon) .noPrintEnd
  return .print expr

/-- A return statement behind its keyword. -/
def returnStatement (bound : Nat) (keyword : Token) : Parser Stmt := do
  let value ← if ← sees (·.isSymbol .semicolon) then pure none else some <$> expression bound
  let _ ← expect (·.isSymbol .semicolon) .noReturnEnd
  return .return keyword value

/-- A conditional behind its keyword. -/
def ifStatement (bound : Nat) (nested : Parser Stmt) : Parser Stmt := do
  let _ ← expect (·.isSymbol .leftParen) .noIfCondition
  let condition ← expression bound
  let _ ← expect (·.isSymbol .rightParen) .noIfConditionEnd
  let thenBranch ← nested
  let elseBranch ← if ← accepts (·.isKeyword .else) then some <$> nested else pure none
  return .conditional condition thenBranch elseBranch

/-- A while loop behind its keyword. -/
def whileStatement (bound : Nat) (nested : Parser Stmt) : Parser Stmt := do
  let _ ← expect (·.isSymbol .leftParen) .noWhileCondition
  let condition ← expression bound
  let _ ← expect (·.isSymbol .rightParen) .noWhileConditionEnd
  let body ← nested
  return .loop condition body

/-- The loop that a `for` with these clauses stands for. The increment runs behind the body, in a
block with it; an initial clause makes a block around the loop. -/
def forLoop (initial : Option Stmt) (condition : Expr) (increment : Option Expr) (body : Stmt) :
    Stmt :=
  let body := match increment with
    | some increment => .block [body, .expression increment]
    | none => body
  let loop := .loop condition body
  match initial with
  | some initial => .block [initial, loop]
  | none => loop

/-- The initial clause of a for loop, with its semicolon. -/
def initialClause (bound : Nat) : Parser (Option Stmt) := do
  if ← accepts (·.isSymbol .semicolon) then return none
  else if ← accepts (·.isKeyword .var) then some <$> variableDeclaration bound
  else some <$> expressionStatement bound

/-- A for loop behind its keyword; without a condition it runs for ever. -/
def forStatement (bound : Nat) (nested : Parser Stmt) : Parser Stmt := do
  let _ ← expect (·.isSymbol .leftParen) .noForClauses
  let initial ← initialClause bound
  let condition ← if ← sees (·.isSymbol .semicolon) then pure (.literal .true)
    else expression bound
  let _ ← expect (·.isSymbol .semicolon) .noForConditionEnd
  let increment ← if ← sees (·.isSymbol .rightParen) then pure none
    else some <$> expression bound
  let _ ← expect (·.isSymbol .rightParen) .noForClausesEnd
  let body ← nested
  return forLoop initial condition increment body

/-- A statement, from parsers for the statements and declarations in it. -/
def statementWith (bound : Nat) (nested : Parser Stmt) (declaration : Parser (Option Stmt)) :
    Parser Stmt := do
  let t ← peek
  match t.kind with
  | .keyword .for => advance; forStatement bound nested
  | .keyword .if => advance; ifStatement bound nested
  | .keyword .while => advance; whileStatement bound nested
  | .keyword .return => advance; returnStatement bound t
  | .symbol .leftBrace => advance; .block <$> block bound declaration
  | .keyword .print => advance; printStatement bound
  | _ => expressionStatement bound

/-- A declaration, from a parser for the declarations in it and one for statements. -/
def declarationWith (bound : Nat) (statement : Parser Stmt) (declaration : Parser (Option Stmt)) :
    Parser Stmt := do
  let t ← peek
  match t.kind with
  | .keyword .class => advance; classDeclaration bound declaration
  | .keyword .fun =>
    advance
    .function <$> function bound .function declaration
  | .keyword .var => advance; variableDeclaration bound
  | _ => statement

mutual

/-- A statement, where at most `bound` tokens are left. -/
def statement : (bound : Nat) → Parser Stmt
  | 0 => fail .noExpression
  | bound + 1 => statementWith (bound + 1) (statement bound) (declaration bound)

/-- A declaration, where at most `bound` tokens are left. -/
def declaration : (bound : Nat) → Parser (Option Stmt)
  | 0 => recovering (fail .noExpression)
  | bound + 1 =>
    recovering <| declarationWith (bound + 1)
      (statementWith (bound + 1) (statement bound) (declaration bound)) (declaration bound)

end

/-- All declarations to the end of the input. -/
def program (bound : Nat) : Parser (List Stmt) :=
  declarationsUntil (fun _ => false) (declaration bound) bound

/-- What a parse yields: the statements, the errors, and the number of the next occurrence. The
statements are of use only if there are no errors. -/
structure Parsed where
  statements : List Stmt
  errors : List SyntaxError
  nextId : Occurrence

/-- Parses tokens up to the first one that ends the input, numbering occurrences from `firstId`. -/
def parse (tokens : List Token) (firstId : Occurrence) : Parsed :=
  let rest := tokens.takeWhile (!·.isEof)
  let last := (tokens.find? (·.isEof)).getD (.eofAt 1)
  match program rest.length ⟨rest, last, firstId, []⟩ with
  | .ok statements s => ⟨statements, s.errors, s.nextId⟩
  | .error e s => ⟨[], s.errors ++ [e], s.nextId⟩

namespace Parsed

/-- The statements, or the errors if there are any. -/
def result (p : Parsed) : Except (List SyntaxError) (List Stmt) :=
  if p.errors.isEmpty then .ok p.statements else .error p.errors

end Parsed

end Lox.Grammar
