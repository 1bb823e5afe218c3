import Lox.Evaluation
import Lox.Session
import Lox.Proofs.Lexical.Machine

/-!
# The reference interpreter

Evaluation with lexical scopes: every use of a name is looked up in the scope of the place where it
stands. A local declaration is visible from its own statement on to the end of the statements around
it, so an initializer may already assign to the variable, and a function or class sees its own name.
Depths are allotted as in `evaluate`, so that runs can be compared step by step.
-/

set_option autoImplicit false

namespace Lox.Lexical

/-- How a statement of the reference interpreter ended. -/
abbrev Flow := FlowOver Scope

/-- Runs local statements until one of them returns. Each is run with the declarations before it and
its own in scope. -/
def executeAll (execute : Scope → Stmt → Eval Flow) (scope : Scope) : List Stmt → Eval Flow
  | [] => return .normal
  | s :: rest => do
    let scope ← declare scope s
    match ← execute scope s with
    | .normal => executeAll execute scope rest
    | .returned value => return .returned value

/-- Runs a function on arguments. An initializer yields its instance, whatever it returns. -/
def invoke (execute : Scope → Stmt → Eval Flow) (c : Closure) (arguments : List Value) :
    Eval Value := do
  let scope ← bindAll c.environment (c.declaration.params.zip arguments)
  let flow ← executeAll execute scope c.declaration.body
  if c.isInitializer then
    match c.environment.get? thisName with
    | some l => return (← get).cell l
    | none => return .nil
  else match flow with
    | .normal => return .nil
    | .returned value => return value

/-- The methods of a class declared where `scope` is visible; of two with one name the later counts. -/
def closeMethods (scope : Scope) : List FunctionDecl → Bindings Closure → Eval (Bindings Closure)
  | [], methods => return methods
  | d :: rest, methods => do
    let c ← newClosure d scope d.isInitializer
    closeMethods scope rest (methods.put d.name.lexeme c)

mutual

/-- The value of an expression where `scope` is visible. -/
def evaluate : (depth : Nat) → Scope → Expr → Eval Value
  | 0, _, _ => Eval.exhausted
  | depth + 1, scope, e =>
    match e with
    | .literal value => return .ofLiteral value
    | .grouping inner => evaluate depth scope inner
    | .unary operator right => do
      let value ← evaluate depth scope right
      applyUnary operator value
    | .binary left operator right => do
      let a ← evaluate depth scope left
      let b ← evaluate depth scope right
      applyBinary operator a b
    | .logical left operator right => do
      let value ← evaluate depth scope left
      if decides operator value then return value else evaluate depth scope right
    | .variable _ name => lookUp scope name
    | .assign _ name value => do
      let value ← evaluate depth scope value
      assign scope name value
      return value
    | .call callee paren arguments => do
      let f ← evaluate depth scope callee
      let args ← evaluateAll (evaluate depth scope) arguments
      match f.arity? with
      | none => Eval.fail paren .notCallable
      | some arity =>
        if args.length ≠ arity then Eval.fail paren (.wrongArgumentCount arity args.length)
        else apply depth f args
    | .get object name => do
      match ← evaluate depth scope object with
      | .instance i => property i name
      | _ => Eval.fail name .noProperties
    | .set object name value => do
      match ← evaluate depth scope object with
      | .instance i =>
        let value ← evaluate depth scope value
        setField i name.lexeme value
        return value
      | _ => Eval.fail name .noFields
    | .this _ keyword => lookUp scope keyword

/-- Runs a statement where `scope`, with the name that the statement declares, is visible. -/
def execute : (depth : Nat) → Scope → Stmt → Eval Flow
  | 0, _, _ => Eval.exhausted
  | depth + 1, scope, s =>
    match s with
    | .expression expr => do
      let _ ← evaluate depth scope expr
      return .normal
    | .print expr => do
      let value ← evaluate depth scope expr
      printLine value.text
      return .normal
    | .variable name initial => do
      let value ← match initial with
        | some expr => evaluate depth scope expr
        | none => pure .nil
      define scope name.lexeme value
      return .normal
    | .block body => executeAll (execute depth) scope body
    | .conditional condition thenBranch elseBranch => do
      if (← evaluate depth scope condition).isTruthy then execute depth scope thenBranch
      else match elseBranch with
        | some elseBranch => execute depth scope elseBranch
        | none => return .normal
    | .loop condition body => do
      if (← evaluate depth scope condition).isTruthy then
        match ← execute depth scope body with
        | .normal => execute depth scope (.loop condition body)
        | .returned value => return .returned value
      else return .normal
    | .function declaration => do
      let c ← newClosure declaration scope false
      define scope declaration.name.lexeme (.function c)
      return .normal
    | .return _ value => do
      match value with
      | some expr => return .returned (← evaluate depth scope expr)
      | none => return .returned .nil
    | .class name methods => do
      let c ← newClass name.lexeme (← closeMethods scope methods [])
      define scope name.lexeme (.class c)
      return .normal

/-- Calls a value, without checking how many arguments it takes. A value that cannot be called yields
`nil`. -/
def apply : (depth : Nat) → Value → List Value → Eval Value
  | 0, _, _ => Eval.exhausted
  | depth + 1, f, arguments =>
    match f with
    | .clock => readClock
    | .function c => invoke (execute depth) c arguments
    | .class c => do
      let i ← newInstance c
      match c.initializer? with
      | some method =>
        let _ ← invoke (execute depth) (← bindMethod method i) arguments
        return .instance i
      | none => return .instance i
    | _ => return .nil

end

/-- Runs top-level statements until one fails. Their declarations are global. -/
def executeProgram (execute : Stmt → Eval Flow) : List Stmt → Eval Unit
  | [] => return ()
  | s :: rest => do
    let _ ← execute s
    executeProgram execute rest

/-- Runs a program and flushes the output, also after a failure. A failure to flush takes the place of
the failure before it. -/
def interpret (depth : Nat) (program : List Stmt) : Eval Unit := fun n =>
  match executeProgram (execute depth []) program n with
  | .ok () n' => flush n'
  | .error .exhausted n' => .error .exhausted n'
  | .error e n' =>
    match flush n' with
    | .ok () n'' => .error e n''
    | .error e' n'' => .error e' n''

/-- Runs a source on a fresh machine. A source is rejected for the same reasons as by `runProgram`. -/
def runProgram (depth : Nat) (clock : Nat → Float) (output : Sink) (source : String) :
    Option Outcome :=
  let parsed := Grammar.parse (Scan.tokens source) 0
  let found := frontDiagnostics source parsed
  let errors := (resolve parsed.statements).errors
  if !found.isEmpty then some ⟨.rejected found, .empty⟩
  else if !errors.isEmpty then some ⟨.rejected (errors.map (·.diagnostic)), .empty⟩
  else
    match interpret depth parsed.statements (.fresh clock output.emptied) with
    | .ok () n => some ⟨.completed, n.output.written⟩
    | .error (.failed failure) n => some ⟨.failed failure, n.output.written⟩
    | .error .exhausted _ => none

end Lox.Lexical
