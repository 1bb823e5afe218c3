import Lox.Interpreter
import Lox.Proofs.Tree.Names

/-!
# Renaming a local variable

A local variable is renamed where it is declared and in all uses that resolution has bound to this
declaration. A use is bound to a scope by its distance, so renaming goes through a tree with marks on the
open scopes: the scope of the declaration is marked, and a use of the old name is renamed if its distance
leads to the marked scope. Nothing else in the tree changes.

Only variables and parameters are renamed this way. A function or a class that is renamed is printed
under its new name.
-/

set_option autoImplicit false

namespace Lox

/-- A change of the name of one variable in a program for which these distances were recorded. -/
structure Renaming where
  distances : Distances
  old : String
  new : String

/-- Which of the open scopes declares the variable, by their distance. -/
abbrev Marks := Nat → Bool

namespace Marks

/-- None of them. -/
def none : Marks := fun _ => false

/-- The marks in a new scope. -/
def enter (marks : Marks) (marked : Bool) : Marks
  | 0 => marked
  | distance + 1 => marks distance

end Marks

namespace Renaming

variable (r : Renaming)

/-- The name as it is called then, if it is the variable. -/
def token (marked : Bool) (name : Token) : Token :=
  if marked && name.lexeme == r.old then { name with lexeme := r.new } else name

/-- The name of a use. -/
def use (marks : Marks) (id : Occurrence) (name : Token) : Token :=
  r.token ((r.distances.get? id).any marks) name

end Renaming

section Trees

variable (r : Renaming)

mutual

/-- The expression with the variable renamed that a marked scope declares. -/
def Expr.rename (marks : Marks) : Expr → Expr
  | .literal value => .literal value
  | .grouping inner => .grouping (inner.rename marks)
  | .unary operator right => .unary operator (right.rename marks)
  | .binary left operator right => .binary (left.rename marks) operator (right.rename marks)
  | .logical left operator right => .logical (left.rename marks) operator (right.rename marks)
  | .variable id name => .variable id (r.use marks id name)
  | .assign id name value => .assign id (r.use marks id name) (value.rename marks)
  | .call callee paren arguments =>
    .call (callee.rename marks) paren (Expr.renameAll marks arguments)
  | .get object name => .get (object.rename marks) name
  | .set object name value => .set (object.rename marks) name (value.rename marks)
  | .this id keyword => .this id keyword

/-- The expressions with the variable renamed. -/
def Expr.renameAll (marks : Marks) : List Expr → List Expr
  | [] => []
  | e :: rest => e.rename marks :: Expr.renameAll marks rest

end

mutual

/-- The statement with the variable renamed that a marked scope declares. -/
def Stmt.rename : (marks : Marks) → Stmt → Stmt
  | marks, .expression expr => .expression (expr.rename r marks)
  | marks, .print expr => .print (expr.rename r marks)
  | marks, .variable name initial =>
    .variable (r.token (marks 0) name) (initial.map (·.rename r marks))
  | marks, .block body => .block (Stmt.renameAll (marks.enter false) body)
  | marks, .conditional condition thenBranch none =>
    .conditional (condition.rename r marks) (thenBranch.rename marks) none
  | marks, .conditional condition thenBranch (some elseBranch) =>
    .conditional (condition.rename r marks) (thenBranch.rename marks) (some (elseBranch.rename marks))
  | marks, .loop condition body => .loop (condition.rename r marks) (body.rename marks)
  | marks, .function declaration => .function (declaration.rename marks)
  | marks, .return keyword value => .return keyword (value.map (·.rename r marks))
  | marks, .class name methods => .class name (FunctionDecl.renameAll (marks.enter false) methods)

/-- The statements with the variable renamed. -/
def Stmt.renameAll : (marks : Marks) → List Stmt → List Stmt
  | _, [] => []
  | marks, s :: rest => s.rename marks :: Stmt.renameAll marks rest

/-- The function with the variable renamed, which is none of its own. -/
def FunctionDecl.rename : (marks : Marks) → FunctionDecl → FunctionDecl
  | marks, ⟨name, params, body⟩ => ⟨name, params, Stmt.renameAll (marks.enter false) body⟩

/-- The functions with the variable renamed. -/
def FunctionDecl.renameAll : (marks : Marks) → List FunctionDecl → List FunctionDecl
  | _, [] => []
  | marks, d :: rest => d.rename marks :: FunctionDecl.renameAll marks rest

end

/-- The variable is declared by one of the statements. -/
def Declares (ss : List Stmt) : Prop :=
  ∃ name initial, .variable name initial ∈ ss ∧ name.lexeme = r.old

mutual

/-- One variable is renamed, which is declared in one of the scopes of a statement. -/
inductive Stmt.Renames : Stmt → Stmt → Prop where
  | here {body} : Declares r body →
    Stmt.Renames (.block body) (.block (Stmt.renameAll r (Marks.none.enter true) body))
  | block {body body'} : Stmt.AllRenames body body' → Stmt.Renames (.block body) (.block body')
  | thenBranch {condition thenBranch thenBranch' elseBranch} : Stmt.Renames thenBranch thenBranch' →
    Stmt.Renames (.conditional condition thenBranch elseBranch)
      (.conditional condition thenBranch' elseBranch)
  | elseBranch {condition thenBranch elseBranch elseBranch'} : Stmt.Renames elseBranch elseBranch' →
    Stmt.Renames (.conditional condition thenBranch (some elseBranch))
      (.conditional condition thenBranch (some elseBranch'))
  | loop {condition body body'} : Stmt.Renames body body' →
    Stmt.Renames (.loop condition body) (.loop condition body')
  | function {declaration declaration'} : FunctionDecl.Renames declaration declaration' →
    Stmt.Renames (.function declaration) (.function declaration')
  | class {name methods methods'} : FunctionDecl.AllRenames methods methods' →
    Stmt.Renames (.class name methods) (.class name methods')

/-- One variable is renamed, which is declared in a scope of one of the statements. -/
inductive Stmt.AllRenames : List Stmt → List Stmt → Prop where
  | head {s s' rest} : Stmt.Renames s s' → Stmt.AllRenames (s :: rest) (s' :: rest)
  | tail {s rest rest'} : Stmt.AllRenames rest rest' → Stmt.AllRenames (s :: rest) (s :: rest')

/-- One variable is renamed, which is a parameter of a function or declared in a scope of its body. -/
inductive FunctionDecl.Renames : FunctionDecl → FunctionDecl → Prop where
  | here {name params body} : (∃ p ∈ params, p.lexeme = r.old) ∨ Declares r body →
    FunctionDecl.Renames ⟨name, params, body⟩
      ⟨name, params.map (r.token true), Stmt.renameAll r (Marks.none.enter true) body⟩
  | body {name params body body'} : Stmt.AllRenames body body' →
    FunctionDecl.Renames ⟨name, params, body⟩ ⟨name, params, body'⟩

/-- One variable is renamed, which is declared in a scope of one of the functions. -/
inductive FunctionDecl.AllRenames : List FunctionDecl → List FunctionDecl → Prop where
  | head {d d' rest} : FunctionDecl.Renames d d' → FunctionDecl.AllRenames (d :: rest) (d' :: rest)
  | tail {d rest rest'} : FunctionDecl.AllRenames rest rest' →
    FunctionDecl.AllRenames (d :: rest) (d :: rest')

end

end Trees

end Lox
