import Lox.Token

/-!
# Syntax trees

Expressions and statements keep the tokens that errors may blame. Every use of a name or of `this`
is an occurrence with a number of its own, so that two uses that look alike can be bound apart.
A tree knows no `for`: such a loop is built from the other forms.
-/

set_option autoImplicit false

namespace Lox

/-- The number of a use of a name or of `this`. -/
abbrev Occurrence := Nat

/-- A constant written in the program. -/
inductive Literal where
  | number (value : Float)
  | string (text : String)
  | true
  | false
  | nil
  deriving BEq

/-- Expressions. -/
inductive Expr where
  | literal (value : Literal)
  | grouping (inner : Expr)
  | unary (operator : Token) (right : Expr)
  | binary (left : Expr) (operator : Token) (right : Expr)
  | logical (left : Expr) (operator : Token) (right : Expr)
  | variable (id : Occurrence) (name : Token)
  | assign (id : Occurrence) (name : Token) (value : Expr)
  /-- A call; `paren` is its closing parenthesis. -/
  | call (callee : Expr) (paren : Token) (arguments : List Expr)
  | get (object : Expr) (name : Token)
  | set (object : Expr) (name : Token) (value : Expr)
  | this (id : Occurrence) (keyword : Token)

mutual

/-- Statements and declarations. -/
inductive Stmt where
  | expression (expr : Expr)
  | print (expr : Expr)
  | variable (name : Token) (initial : Option Expr)
  | block (body : List Stmt)
  | conditional (condition : Expr) (thenBranch : Stmt) (elseBranch : Option Stmt)
  | loop (condition : Expr) (body : Stmt)
  | function (declaration : FunctionDecl)
  /-- A return; `keyword` is blamed when it is out of place. -/
  | return (keyword : Token) (value : Option Expr)
  | class (name : Token) (methods : List FunctionDecl)

/-- A named function or method. -/
structure FunctionDecl where
  name : Token
  params : List Token
  body : List Stmt

end

/-- The name that a statement declares, if it is a declaration. -/
def Stmt.declared? : Stmt → Option Token
  | .variable name _ => some name
  | .function declaration => some declaration.name
  | .class name _ => some name
  | _ => none

/-- The name that makes a method the initializer of its class. -/
def initializerName : String := "init"

/-- Whether a method of this declaration initializes instances. -/
def FunctionDecl.isInitializer (d : FunctionDecl) : Bool := d.name.lexeme == initializerName

/-- The name under which a method finds its instance. -/
def thisName : String := "this"

end Lox
