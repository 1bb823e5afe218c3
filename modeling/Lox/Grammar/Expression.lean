import Lox.Grammar.Parser

/-!
# Expressions

    expression  = disjunction [ "=" expression ]
    disjunction = conjunction { "or" conjunction }
    conjunction = equality { "and" equality }
    equality    = comparison { ( "!=" | "==" ) comparison }
    comparison  = term { ( ">" | ">=" | "<" | "<=" ) term }
    term        = factor { ( "-" | "+" ) factor }
    factor      = unary { ( "*" | "/" ) unary }
    unary       = { "!" | "-" } call
    call        = primary { "(" [ expression { "," expression } ] ")" | "." name }
    primary     = number | string | "true" | "false" | "nil" | "this" | name
                | "(" expression ")"

Only a name or a property may stand before an equals sign, and a call has at most eight arguments.

Each rule is a parser built from the next one. The rules that hold expressions again take the parser
for these as an argument; a token is always read before it is used, so `expression` is defined by
recursion on a bound for the number of tokens left. Loops take the same bound.
-/

set_option autoImplicit false

namespace Lox.Grammar

open Lox.Parser

/-- One level of infix operators: operands with operators between them, grouped to the left. -/
def chainFrom (isOperator : Token → Bool) (build : Expr → Token → Expr → Expr)
    (operand : Parser Expr) : Nat → Expr → Parser Expr
  | 0, left => return left
  | bound + 1, left => do
    match ← accept? isOperator with
    | none => return left
    | some operator =>
      let right ← operand
      chainFrom isOperator build operand bound (build left operator right)

/-- An operand and the infix operators of one level that follow it. -/
def chain (bound : Nat) (isOperator : Token → Bool) (build : Expr → Token → Expr → Expr)
    (operand : Parser Expr) : Parser Expr := do
  let left ← operand
  chainFrom isOperator build operand bound left

/-- The arguments of a call, at least one, of which `count` are already read. -/
def arguments (nested : Parser Expr) : (bound count : Nat) → Parser (List Expr)
  | 0, _ => fail .noExpression
  | bound + 1, count => do
    if maxArity ≤ count then report (← peek) .tooManyArguments
    let argument ← nested
    if ← accepts (·.isSymbol .comma) then
      return argument :: (← arguments nested bound (count + 1))
    else return [argument]

/-- A constant, a name, `this`, or an expression between parentheses. -/
def primary (nested : Parser Expr) : Parser Expr := do
  let t ← peek
  match t.kind with
  | .keyword .false => advance; return .literal .false
  | .keyword .true => advance; return .literal .true
  | .keyword .nil => advance; return .literal .nil
  | .number value => advance; return .literal (.number value)
  | .string text => advance; return .literal (.string text)
  | .keyword .this => advance; return .this (← fresh) t
  | .identifier => advance; return .variable (← fresh) t
  | .symbol .leftParen =>
    advance
    let inner ← nested
    let _ ← expect (·.isSymbol .rightParen) .noGroupingEnd
    return .grouping inner
  | _ => fail .noExpression

/-- The calls and properties that follow an expression. -/
def callFrom (nested : Parser Expr) : Nat → Expr → Parser Expr
  | 0, callee => return callee
  | bound + 1, callee => do
    if ← accepts (·.isSymbol .leftParen) then
      let args ← if ← sees (·.isSymbol .rightParen) then pure []
        else arguments nested (bound + 1) 0
      let paren ← expect (·.isSymbol .rightParen) .noArgumentsEnd
      callFrom nested bound (.call callee paren args)
    else if ← accepts (·.isSymbol .dot) then
      let name ← expect (·.isIdentifier) .noPropertyName
      callFrom nested bound (.get callee name)
    else return callee

/-- A primary expression and the calls and properties that follow it. -/
def call (bound : Nat) (nested : Parser Expr) : Parser Expr := do
  let callee ← primary nested
  callFrom nested bound callee

/-- A prefix operator. -/
def isUnaryOperator (t : Token) : Bool := t.isSymbol .bang || t.isSymbol .minus

/-- Prefix operators in front of an operand. -/
def unary (operand : Parser Expr) : Nat → Parser Expr
  | 0 => operand
  | bound + 1 => do
    match ← accept? isUnaryOperator with
    | some operator => return .unary operator (← unary operand bound)
    | none => operand

/-- An operator of products. -/
def isFactorOperator (t : Token) : Bool := t.isSymbol .star || t.isSymbol .slash

/-- An operator of sums. -/
def isTermOperator (t : Token) : Bool := t.isSymbol .minus || t.isSymbol .plus

/-- An operator that compares sizes. -/
def isComparisonOperator (t : Token) : Bool :=
  t.isSymbol .greater || t.isSymbol .greaterEqual || t.isSymbol .less || t.isSymbol .lessEqual

/-- An operator that tests equality. -/
def isEqualityOperator (t : Token) : Bool := t.isSymbol .bangEqual || t.isSymbol .equalEqual

/-- Products. -/
def factor (bound : Nat) (nested : Parser Expr) : Parser Expr :=
  chain bound isFactorOperator .binary (unary (call bound nested) bound)

/-- Sums. -/
def term (bound : Nat) (nested : Parser Expr) : Parser Expr :=
  chain bound isTermOperator .binary (factor bound nested)

/-- Comparisons. -/
def comparison (bound : Nat) (nested : Parser Expr) : Parser Expr :=
  chain bound isComparisonOperator .binary (term bound nested)

/-- Equalities. -/
def equality (bound : Nat) (nested : Parser Expr) : Parser Expr :=
  chain bound isEqualityOperator .binary (comparison bound nested)

/-- Conjunctions. -/
def conjunction (bound : Nat) (nested : Parser Expr) : Parser Expr :=
  chain bound (·.isKeyword .and) .logical (equality bound nested)

/-- Disjunctions. -/
def disjunction (bound : Nat) (nested : Parser Expr) : Parser Expr :=
  chain bound (·.isKeyword .or) .logical (conjunction bound nested)

/-- The assignment to an expression, if values can be assigned to it. -/
def assignmentTo? (value : Expr) : Expr → Option Expr
  | .variable id name => some (.assign id name value)
  | .get object name => some (.set object name value)
  | _ => none

/-- An assignment, or an expression without one. A target that takes no value is reported at the
equals sign, and the target alone is kept. -/
def assignment (bound : Nat) (nested : Parser Expr) : Parser Expr := do
  let target ← disjunction bound nested
  match ← accept? (·.isSymbol .equal) with
  | none => return target
  | some equals =>
    let value ← nested
    match assignmentTo? value target with
    | some result => return result
    | none =>
      report equals .badAssignmentTarget
      return target

/-- An expression, where at most `bound` tokens are left. -/
def expression : (bound : Nat) → Parser Expr
  | 0 => fail .noExpression
  | bound + 1 => assignment (bound + 1) (expression bound)

end Lox.Grammar
