import Lox.Proofs.Output.Limited

/-!
# Traces

What happens during a run, moment by moment, each with the state in which it happens. A trace has the
beginning and the end of everything that is evaluated, the moments at which a method is taken from an
instance, by a property access or by the call of a class, and those at which a value is stored. It follows
evaluation through the results of its parts, so a run that fails, or that goes deeper than allotted, has a
trace up to there.
-/

set_option autoImplicit false

namespace Lox

/-- The runtime error that a failure is, if it is one. -/
def Failure.runtime? : Failure → Option RuntimeError
  | .runtime error => some error
  | _ => none

/-- A failure that is a runtime error is known by it. -/
theorem Failure.eq_of_runtime? {failure : Failure} {error : RuntimeError} (h : failure.runtime? = some error) :
    failure = .runtime error := by
  cases failure with
  | runtime error' =>
    cases h
    rfl
  | _ => cases h

/-- What happens at a moment of a run. -/
inductive Event where
  /-- The evaluation of an expression begins. -/
  | expression (depth : Nat) (e : Expr)
  /-- A statement begins to run. -/
  | statement (depth : Nat) (s : Stmt)
  /-- A value is called. -/
  | call (depth : Nat) (f : Value) (arguments : List Value)
  /-- The body of a function begins to run. -/
  | invocation (depth : Nat) (c : Closure) (arguments : List Value)
  /-- A method has been taken from an instance, under its name, and bound to the instance. -/
  | taken (i : Instance) (name : String) (bound : Closure)
  /-- The value of an assignment is there to be stored. -/
  | storing (id : Occurrence) (name : String)
  /-- Something has ended. -/
  | ended

/-- The values that an event is about. -/
def Event.values : Event → List Value
  | .call _ f arguments => f :: arguments
  | .invocation _ c arguments => .function c :: arguments
  | .taken i _ bound => [.instance i, .function bound]
  | _ => []

/-- A moment of a run. -/
structure Moment where
  event : Event
  state : Interpreter

namespace Trace

variable {α β : Type}

/-- What comes behind a step, if the step yields a value. -/
def behind (result : EStateM.Result Halt Interpreter α) (next : α → Interpreter → List Moment) :
    List Moment :=
  match result with
  | .ok a m => next a m
  | .error _ _ => []

/-- The trace of a step, from its beginning to its end. -/
def around (event : Event) (step : Eval α) (parts : Interpreter → List Moment) (m : Interpreter) :
    List Moment :=
  ⟨event, m⟩ :: (parts m ++ [⟨.ended, endState (step m)⟩])

/-- The trace of expressions that are evaluated from left to right. -/
def evaluateAll (trace : Expr → Interpreter → List Moment) (evaluate : Expr → Eval Value) :
    List Expr → Interpreter → List Moment
  | [], _ => []
  | e :: rest, m => trace e m ++ behind (evaluate e m) fun _ => evaluateAll trace evaluate rest

/-- The trace of statements that run until one of them returns. -/
def executeAll (trace : Stmt → Interpreter → List Moment) (execute : Stmt → Eval Flow) :
    List Stmt → Interpreter → List Moment
  | [], _ => []
  | s :: rest, m =>
    trace s m ++ behind (execute s m) fun flow m =>
      match flow with
      | .normal => executeAll trace execute rest m
      | .returned _ => []

/-- The trace of statements in a new scope inside an environment. -/
def enclosed (env : Environment) (names : Bindings Value) (trace : Interpreter → List Moment)
    (m : Interpreter) : List Moment :=
  behind (Eval.enclose env names m) fun inner m => trace { m with current := inner }

/-- The trace of a function that runs on arguments. -/
def invoke (trace : List Stmt → Interpreter → List Moment) (depth : Nat) (c : Closure)
    (arguments : List Value) (m : Interpreter) : List Moment :=
  ⟨.invocation depth c arguments, m⟩ ::
    enclosed c.environment (parameterBindings c.declaration.params arguments)
      (trace c.declaration.body) m

/-- The moment at which a method has been bound to an instance. -/
def bindMethod (name : String) (method : Closure) (i : Instance) (m : Interpreter) : List Moment :=
  behind (Eval.bindMethod method i m) fun bound m => [⟨.taken i name bound, m⟩]

/-- The trace of a property access: a method is taken if no field has its name. -/
def property (i : Instance) (name : String) (m : Interpreter) : List Moment :=
  match m.store.field? i name with
  | some _ => []
  | none =>
    match i.blueprint.methods.get? name with
    | some method => bindMethod name method i m
    | none => []

mutual

/-- The trace of an expression. -/
def evaluate : (depth : Nat) → Expr → Interpreter → List Moment
  | 0, _ => fun _ => []
  | depth + 1, e => around (.expression (depth + 1) e) (Lox.evaluate (depth + 1) e) fun m =>
    match e with
    | .literal _ => []
    | .grouping inner => evaluate depth inner m
    | .unary _ right => evaluate depth right m
    | .binary left _ right =>
      evaluate depth left m ++ behind (Lox.evaluate depth left m) fun _ => evaluate depth right
    | .logical left operator right =>
      evaluate depth left m ++ behind (Lox.evaluate depth left m) fun value m =>
        if decides operator value then [] else evaluate depth right m
    | .variable _ _ => []
    | .assign id name value =>
      evaluate depth value m ++ behind (Lox.evaluate depth value m) fun _ m => [⟨.storing id name.lexeme, m⟩]
    | .call callee _ arguments =>
      evaluate depth callee m ++ behind (Lox.evaluate depth callee m) fun f m =>
        evaluateAll (evaluate depth) (Lox.evaluate depth) arguments m ++
          behind (Lox.evaluateAll (Lox.evaluate depth) arguments m) fun args m =>
            if f.arity? = some args.length then apply depth f args m else []
    | .get object name =>
      evaluate depth object m ++ behind (Lox.evaluate depth object m) fun o m =>
        match o with
        | .instance i => property i name.lexeme m
        | _ => []
    | .set object _ value =>
      evaluate depth object m ++ behind (Lox.evaluate depth object m) fun o m =>
        match o with
        | .instance _ => evaluate depth value m
        | _ => []
    | .this _ _ => []

/-- The trace of a statement. -/
def execute : (depth : Nat) → Stmt → Interpreter → List Moment
  | 0, _ => fun _ => []
  | depth + 1, s => around (.statement (depth + 1) s) (Lox.execute (depth + 1) s) fun m =>
    match s with
    | .expression expr => evaluate depth expr m
    | .print expr => evaluate depth expr m
    | .variable _ none => []
    | .variable _ (some initial) => evaluate depth initial m
    | .block body => enclosed m.current [] (executeAll (execute depth) (Lox.execute depth) body) m
    | .conditional condition thenBranch elseBranch =>
      evaluate depth condition m ++ behind (Lox.evaluate depth condition m) fun value m =>
        if value.isTruthy then execute depth thenBranch m
        else match elseBranch with
          | some elseBranch => execute depth elseBranch m
          | none => []
    | .loop condition body =>
      evaluate depth condition m ++ behind (Lox.evaluate depth condition m) fun value m =>
        if value.isTruthy then
          execute depth body m ++ behind (Lox.execute depth body m) fun flow m =>
            match flow with
            | .normal => execute depth (.loop condition body) m
            | .returned _ => []
        else []
    | .function _ => []
    | .return _ none => []
    | .return _ (some value) => evaluate depth value m
    | .class _ _ => []

/-- The trace of a call. -/
def apply : (depth : Nat) → Value → List Value → Interpreter → List Moment
  | 0, _, _ => fun _ => []
  | depth + 1, f, arguments =>
    around (.call (depth + 1) f arguments) (Lox.apply (depth + 1) f arguments) fun m =>
    match f with
    | .function c => invoke (executeAll (execute depth) (Lox.execute depth)) depth c arguments m
    | .class c =>
      behind (Eval.newInstance c m) fun i m =>
        match c.initializer? with
        | some method =>
          bindMethod initializerName method i m ++ behind (Eval.bindMethod method i m) fun bound =>
            invoke (executeAll (execute depth) (Lox.execute depth)) depth bound arguments
        | none => []
    | _ => []

end

/-- The trace of top-level statements that run until one fails. -/
def executeProgram (depth : Nat) : List Stmt → Interpreter → List Moment
  | [], _ => []
  | s :: rest, m =>
    execute depth s m ++ behind (Lox.execute depth s m) fun _ => executeProgram depth rest

/-- The trace of a program that runs from the top level. -/
def interpret (depth : Nat) (program : List Stmt) (m : Interpreter) : List Moment :=
  executeProgram depth program { m with current := m.topLevel } ++
    [⟨.ended, endState (Lox.interpret depth program m)⟩]

end Trace

end Lox
