import Lox.Tree

/-!
# Equality of trees

Two trees are the same if they are built alike, with equal tokens, equal occurrence numbers and equal
constants. Numbers are compared as the language compares them.
-/

set_option autoImplicit false

namespace Lox

/-- Whether two optional parts agree: both are missing, or both are there and the same. -/
def sameOption {α : Type} (same : α → α → Bool) : Option α → Option α → Bool
  | none, none => true
  | some a, some b => same a b
  | _, _ => false

mutual

/-- Whether two expressions are the same. -/
def Expr.same : Expr → Expr → Bool
  | .literal a, .literal b => a == b
  | .grouping a, .grouping b => a.same b
  | .unary op a, .unary op' b => op == op' && a.same b
  | .binary l op r, .binary l' op' r' => l.same l' && op == op' && r.same r'
  | .logical l op r, .logical l' op' r' => l.same l' && op == op' && r.same r'
  | .variable id name, .variable id' name' => id == id' && name == name'
  | .assign id name v, .assign id' name' v' => id == id' && name == name' && v.same v'
  | .call f paren args, .call f' paren' args' =>
    f.same f' && paren == paren' && Expr.sameAll args args'
  | .get o name, .get o' name' => o.same o' && name == name'
  | .set o name v, .set o' name' v' => o.same o' && name == name' && v.same v'
  | .this id keyword, .this id' keyword' => id == id' && keyword == keyword'
  | _, _ => false

/-- Whether two lists of expressions are the same. -/
def Expr.sameAll : List Expr → List Expr → Bool
  | [], [] => true
  | a :: as, b :: bs => a.same b && Expr.sameAll as bs
  | _, _ => false

end

mutual

/-- Whether two statements are the same. -/
def Stmt.same : Stmt → Stmt → Bool
  | .expression a, .expression b => a.same b
  | .print a, .print b => a.same b
  | .variable name a, .variable name' b => name == name' && sameOption Expr.same a b
  | .block as, .block bs => Stmt.sameAll as bs
  | .conditional c t none, .conditional c' t' none => c.same c' && t.same t'
  | .conditional c t (some e), .conditional c' t' (some e') =>
    c.same c' && t.same t' && e.same e'
  | .loop c body, .loop c' body' => c.same c' && body.same body'
  | .function d, .function d' => d.same d'
  | .return keyword a, .return keyword' b => keyword == keyword' && sameOption Expr.same a b
  | .class name ms, .class name' ms' => name == name' && FunctionDecl.sameAll ms ms'
  | _, _ => false

/-- Whether two functions are the same. -/
def FunctionDecl.same : FunctionDecl → FunctionDecl → Bool
  | ⟨name, params, body⟩, ⟨name', params', body'⟩ =>
    name == name' && params == params' && Stmt.sameAll body body'

/-- Whether two lists of statements are the same. -/
def Stmt.sameAll : List Stmt → List Stmt → Bool
  | [], [] => true
  | a :: as, b :: bs => a.same b && Stmt.sameAll as bs
  | _, _ => false

/-- Whether two lists of functions are the same. -/
def FunctionDecl.sameAll : List FunctionDecl → List FunctionDecl → Bool
  | [], [] => true
  | a :: as, b :: bs => a.same b && FunctionDecl.sameAll as bs
  | _, _ => false

end

end Lox
