import Lox.Interpreter

/-!
# Evaluation

Expressions yield values, statements run and say how they ended, calls do both. The three are
defined together by recursion on an allotted depth, so that every run ends; a run that ends within
its allotment does not depend on it.
-/

set_option autoImplicit false

namespace Lox

open Eval

/-- How a statement ended, over what functions remember. -/
inductive FlowOver (E : Type) where
  | normal
  | returned (value : ValueOver E)

/-- How a statement of a running program ended. -/
abbrev Flow := FlowOver Environment

section Operators

variable {E S : Type}

/-- Applies a prefix operator. -/
def applyUnary (operator : Token) (right : ValueOver E) : EStateM Halt S (ValueOver E) :=
  match operator.kind with
  | .symbol .minus =>
    match right with
    | .number x => return .number (-x)
    | _ => fail operator .operandNotNumber
  | .symbol .bang => return .bool !right.isTruthy
  | _ => fail operator .invalidUnaryOperator

/-- Applies a function to two numbers. -/
def onNumbers (operator : Token) (left right : ValueOver E) (f : Float → Float → ValueOver E) :
    EStateM Halt S (ValueOver E) :=
  match left, right with
  | .number a, .number b => return f a b
  | _, _ => fail operator .operandsNotNumbers

/-- Adds two numbers, or joins two strings. -/
def add (operator : Token) (left right : ValueOver E) : EStateM Halt S (ValueOver E) :=
  match left, right with
  | .number a, .number b => return .number (a + b)
  | .string a, .string b => return .string (a ++ b)
  | _, _ => fail operator .operandsNotAddable

/-- Applies an infix operator. -/
def applyBinary (operator : Token) (left right : ValueOver E) : EStateM Halt S (ValueOver E) :=
  match operator.kind with
  | .symbol .plus => add operator left right
  | .symbol .minus => onNumbers operator left right fun a b => .number (a - b)
  | .symbol .star => onNumbers operator left right fun a b => .number (a * b)
  | .symbol .slash => onNumbers operator left right fun a b => .number (a / b)
  | .symbol .greater => onNumbers operator left right fun a b => .bool (decide (a > b))
  | .symbol .greaterEqual => onNumbers operator left right fun a b => .bool (decide (a ≥ b))
  | .symbol .less => onNumbers operator left right fun a b => .bool (decide (a < b))
  | .symbol .lessEqual => onNumbers operator left right fun a b => .bool (decide (a ≤ b))
  | .symbol .equalEqual => return .bool (left.equals right)
  | .symbol .bangEqual => return .bool !(left.equals right)
  | _ => fail operator .invalidBinaryOperator

/-- Whether the left operand of a logical operator decides the result. -/
def decides (operator : Token) (left : ValueOver E) : Bool :=
  if operator.isKeyword .or then left.isTruthy else !left.isTruthy

/-- Evaluates expressions from left to right. -/
def evaluateAll (evaluate : Expr → EStateM Halt S (ValueOver E)) :
    List Expr → EStateM Halt S (List (ValueOver E))
  | [] => return []
  | e :: rest => do
    let value ← evaluate e
    return value :: (← evaluateAll evaluate rest)

end Operators

/-- Runs statements until one of them returns. -/
def executeAll (execute : Stmt → Eval Flow) : List Stmt → Eval Flow
  | [] => return .normal
  | s :: rest => do
    match ← execute s with
    | .normal => executeAll execute rest
    | .returned value => return .returned value

/-- The parameters of a function with their arguments. Parameters without an argument stay unbound,
and arguments without a parameter are dropped. -/
def parameterBindings (params : List Token) (arguments : List Value) : Bindings Value :=
  (params.zip arguments).foldl (fun names p => names.put p.1.lexeme p.2) []

/-- Runs a function on arguments. An initializer yields its instance, whatever it returns. -/
def invoke (execute : Stmt → Eval Flow) (c : Closure) (arguments : List Value) : Eval Value := do
  let env ← enclose c.environment (parameterBindings c.declaration.params arguments)
  let flow ← within env (executeAll execute c.declaration.body)
  if c.isInitializer then return c.environment.getAt (← get).store 0 thisName
  else match flow with
    | .normal => return .nil
    | .returned value => return value

/-- The methods of a class, each closed over the current environment; of two with one name the later
counts. -/
def closeMethods : List FunctionDecl → Bindings Closure → Eval (Bindings Closure)
  | [], methods => return methods
  | d :: rest, methods => do
    let c ← newClosure d (← get).current d.isInitializer
    closeMethods rest (methods.put d.name.lexeme c)

mutual

/-- The value of an expression. -/
def evaluate : (depth : Nat) → Expr → Eval Value
  | 0, _ => exhausted
  | depth + 1, e =>
    match e with
    | .literal value => return .ofLiteral value
    | .grouping inner => evaluate depth inner
    | .unary operator right => do
      let value ← evaluate depth right
      applyUnary operator value
    | .binary left operator right => do
      let a ← evaluate depth left
      let b ← evaluate depth right
      applyBinary operator a b
    | .logical left operator right => do
      let value ← evaluate depth left
      if decides operator value then return value else evaluate depth right
    | .variable id name => lookUp id name
    | .assign id name value => do
      let value ← evaluate depth value
      assign id name value
      return value
    | .call callee paren arguments => do
      let f ← evaluate depth callee
      let args ← evaluateAll (evaluate depth) arguments
      match f.arity? with
      | none => fail paren .notCallable
      | some arity =>
        if args.length ≠ arity then fail paren (.wrongArgumentCount arity args.length)
        else apply depth f args
    | .get object name => do
      match ← evaluate depth object with
      | .instance i => property i name
      | _ => fail name .noProperties
    | .set object name value => do
      match ← evaluate depth object with
      | .instance i =>
        let value ← evaluate depth value
        setField i name.lexeme value
        return value
      | _ => fail name .noFields
    | .this id keyword => lookUp id keyword

/-- Runs a statement. -/
def execute : (depth : Nat) → Stmt → Eval Flow
  | 0, _ => exhausted
  | depth + 1, s =>
    match s with
    | .expression expr => do
      let _ ← evaluate depth expr
      return .normal
    | .print expr => do
      let value ← evaluate depth expr
      printLine value.text
      return .normal
    | .variable name initial => do
      let value ← match initial with
        | some expr => evaluate depth expr
        | none => pure .nil
      define name.lexeme value
      return .normal
    | .block body => do
      let env ← enclose (← get).current []
      within env (executeAll (execute depth) body)
    | .conditional condition thenBranch elseBranch => do
      if (← evaluate depth condition).isTruthy then execute depth thenBranch
      else match elseBranch with
        | some elseBranch => execute depth elseBranch
        | none => return .normal
    | .loop condition body => do
      if (← evaluate depth condition).isTruthy then
        match ← execute depth body with
        | .normal => execute depth (.loop condition body)
        | .returned value => return .returned value
      else return .normal
    | .function declaration => do
      let c ← newClosure declaration (← get).current false
      define declaration.name.lexeme (.function c)
      return .normal
    | .return _ value => do
      match value with
      | some expr => return .returned (← evaluate depth expr)
      | none => return .returned .nil
    | .class name methods => do
      let c ← newClass name.lexeme (← closeMethods methods [])
      define name.lexeme (.class c)
      return .normal

/-- Calls a value, without checking how many arguments it takes. A value that cannot be called yields
`nil`. -/
def apply : (depth : Nat) → Value → List Value → Eval Value
  | 0, _, _ => exhausted
  | depth + 1, f, arguments =>
    match f with
    | .clock => readClock
    | .function c => invoke (execute depth) c arguments
    | .class c => do
      let i ← newInstance c
      match c.initializer? with
      | some method =>
        let _ ← invoke (execute depth) (← bindMethod method i) arguments
        return .instance i
      | none => return .instance i
    | _ => return .nil

end

/-- Runs top-level statements until one fails. -/
def executeProgram (execute : Stmt → Eval Flow) : List Stmt → Eval Unit
  | [] => return ()
  | s :: rest => do
    let _ ← execute s
    executeProgram execute rest

/-- Runs a program from the top level and flushes the output, also after a failure. A failure to
flush takes the place of the failure before it. -/
def interpret (depth : Nat) (program : List Stmt) : Eval Unit := fun m =>
  match executeProgram (execute depth) program { m with current := m.topLevel } with
  | .ok () m' => flush m'
  | .error .exhausted m' => .error .exhausted m'
  | .error e m' =>
    match flush { m' with current := m'.topLevel } with
    | .ok () m'' => .error e m''
    | .error e' m'' => .error e' m''

end Lox
