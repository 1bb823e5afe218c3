import Lox.Bindings
import Lox.Tree

/-!
# Resolution of names

Before a program runs, every use of a local name is given its distance: how many scopes lie between
the use and the scope that declares the name. Uses that no local scope declares get none; they are
global. On the way, the rules that need no run are checked: a local scope declares a name once, a
local variable is not read in its own initializer, `return` stands in a function and gives no value
in an initializer, and `this` stands in a class. All violations are reported.
-/

set_option autoImplicit false

namespace Lox

/-- How a name, `return` or `this` is out of place. -/
inductive BindingCause where
  | alreadyDeclared
  | ownInitializer
  | returnAtTopLevel
  | returnFromInitializer
  | thisOutsideClass
  deriving DecidableEq, Repr

/-- The wording of a binding error. -/
def BindingCause.message : BindingCause → String
  | .alreadyDeclared => "Already a variable with this name in this scope."
  | .ownInitializer => "Can't read local variable in its own initializer."
  | .returnAtTopLevel => "Can't return from top-level code."
  | .returnFromInitializer => "Can't return a value from an initializer."
  | .thisOutsideClass => "Can't use 'this' outside of a class."

/-- A token that is out of place. -/
structure BindingError where
  token : Token
  cause : BindingCause

/-- The innermost body around a statement. -/
inductive Body where
  | program
  | function
  | initializer
  deriving DecidableEq, Repr

/-- What surrounds a statement or expression, apart from its scopes. -/
structure Surroundings where
  body : Body
  inClass : Bool

/-- The surroundings of a top-level statement. -/
def Surroundings.topLevel : Surroundings := ⟨.program, false⟩

/-- Local scopes, the innermost first. A name is bound to whether its declaration is complete. -/
abbrev LocalScopes := List (Bindings Bool)

/-- The state and the results of resolution. -/
structure Resolution where
  scopes : LocalScopes
  /-- The errors found so far, in their order. -/
  errors : List BindingError
  /-- The distances found so far, in their order. -/
  distances : List (Occurrence × Nat)

namespace Resolution

/-- Nothing resolved yet. -/
def empty : Resolution := ⟨[], [], []⟩

/-- Reports an error. -/
def report (token : Token) (cause : BindingCause) (r : Resolution) : Resolution :=
  { r with errors := r.errors ++ [⟨token, cause⟩] }

/-- Opens a scope with the given names. -/
def enter (names : Bindings Bool) (r : Resolution) : Resolution :=
  { r with scopes := names :: r.scopes }

/-- Closes the innermost scope. -/
def leave (r : Resolution) : Resolution := { r with scopes := r.scopes.tail }

/-- Declares a name in the innermost scope; global names may be declared again and again. -/
def declare (name : Token) (r : Resolution) : Resolution :=
  match r.scopes with
  | [] => r
  | scope :: outer =>
    if scope.binds name.lexeme then r.report name .alreadyDeclared
    else { r with scopes := scope.put name.lexeme false :: outer }

/-- Completes the declaration of a name. -/
def define (name : Token) (r : Resolution) : Resolution :=
  match r.scopes with
  | [] => r
  | scope :: outer => { r with scopes := scope.put name.lexeme true :: outer }

/-- Declares a name and completes its declaration. -/
def introduce (name : Token) (r : Resolution) : Resolution := (r.declare name).define name

/-- The number of scopes between the innermost one and the nearest that binds the name. -/
def distance? (name : String) (scopes : LocalScopes) : Option Nat :=
  scopes.findIdx? (·.binds name)

/-- Records the distance of an occurrence of a name, unless it is global. -/
def locate (id : Occurrence) (name : Token) (r : Resolution) : Resolution :=
  match distance? name.lexeme r.scopes with
  | some distance => { r with distances := r.distances ++ [(id, distance)] }
  | none => r

/-- Whether the name is declared in the innermost scope, but its declaration not complete. -/
def isPending (name : String) (r : Resolution) : Bool :=
  match r.scopes with
  | [] => false
  | scope :: _ => scope.get? name == some false

end Resolution

open Resolution

mutual

/-- Resolves the names in an expression. -/
def Expr.resolve (around : Surroundings) : Expr → Resolution → Resolution
  | .literal _, r => r
  | .grouping inner, r => inner.resolve around r
  | .unary _ right, r => right.resolve around r
  | .binary left _ right, r => right.resolve around (left.resolve around r)
  | .logical left _ right, r => right.resolve around (left.resolve around r)
  | .variable id name, r =>
    locate id name (if r.isPending name.lexeme then r.report name .ownInitializer else r)
  | .assign id name value, r => locate id name (value.resolve around r)
  | .call callee _ arguments, r =>
    Expr.resolveAll around arguments (callee.resolve around r)
  | .get object _, r => object.resolve around r
  | .set object _ value, r => object.resolve around (value.resolve around r)
  | .this id keyword, r =>
    if around.inClass then locate id keyword r else r.report keyword .thisOutsideClass

/-- Resolves the names in expressions, one after the other. -/
def Expr.resolveAll (around : Surroundings) : List Expr → Resolution → Resolution
  | [], r => r
  | e :: rest, r => Expr.resolveAll around rest (e.resolve around r)

end

/-- Resolves the names in an expression that may be missing. -/
def Expr.resolveOption (around : Surroundings) (e : Option Expr) (r : Resolution) : Resolution :=
  match e with
  | none => r
  | some e => e.resolve around r

/-- Checks that a return statement may stand where it does. -/
def checkReturn (around : Surroundings) (keyword : Token) (hasValue : Bool) (r : Resolution) :
    Resolution :=
  match around.body with
  | .program => r.report keyword .returnAtTopLevel
  | .initializer => if hasValue then r.report keyword .returnFromInitializer else r
  | .function => r

mutual

/-- Resolves the names in a statement. -/
def Stmt.resolve (around : Surroundings) : Stmt → Resolution → Resolution
  | .expression expr, r => expr.resolve around r
  | .print expr, r => expr.resolve around r
  | .variable name initial, r =>
    (Expr.resolveOption around initial (r.declare name)).define name
  | .block body, r => (Stmt.resolveAll around body (r.enter [])).leave
  | .conditional condition thenBranch none, r =>
    thenBranch.resolve around (condition.resolve around r)
  | .conditional condition thenBranch (some elseBranch), r =>
    elseBranch.resolve around (thenBranch.resolve around (condition.resolve around r))
  | .loop condition body, r => body.resolve around (condition.resolve around r)
  | .function declaration, r =>
    declaration.resolve { around with body := .function } (r.introduce declaration.name)
  | .return keyword value, r =>
    Expr.resolveOption around value (checkReturn around keyword value.isSome r)
  | .class name methods, r =>
    (FunctionDecl.resolveMethods { around with inClass := true } methods
      ((r.introduce name).enter [(thisName, true)])).leave

/-- Resolves the names in statements, one after the other. -/
def Stmt.resolveAll (around : Surroundings) : List Stmt → Resolution → Resolution
  | [], r => r
  | s :: rest, r => Stmt.resolveAll around rest (s.resolve around r)

/-- Resolves the names in a function; its parameters and its body are one scope. -/
def FunctionDecl.resolve (around : Surroundings) : FunctionDecl → Resolution → Resolution
  | ⟨_, params, body⟩, r =>
    (Stmt.resolveAll around body (params.foldl (fun r p => r.introduce p) (r.enter []))).leave

/-- Resolves the names in the methods of a class. -/
def FunctionDecl.resolveMethods (around : Surroundings) :
    List FunctionDecl → Resolution → Resolution
  | [], r => r
  | d :: rest, r =>
    let body := if d.isInitializer then .initializer else .function
    FunctionDecl.resolveMethods around rest (d.resolve { around with body } r)

end

/-- Resolves the names in a program. -/
def resolve (program : List Stmt) : Resolution :=
  Stmt.resolveAll .topLevel program .empty

end Lox
