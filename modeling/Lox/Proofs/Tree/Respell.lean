import Lox.Proofs.Tree.Relabel

/-!
# Trees with other spellings

A parser looks at the kinds of tokens only, no more at how they are spelled than at occurrence numbers and lines.
So what a relabeling says of trees, a respelling says of trees in which the tokens may also be spelled in another
way, names above all. A relabeling is a respelling that leaves all tokens spelled as they are.
-/

set_option autoImplicit false

namespace Lox

/-- A change of occurrence numbers, of lines, and of the spelling of tokens. -/
structure Respelling extends Relabeling where
  spelling : String → String

/-- A relabeling leaves tokens spelled as they are. -/
def Relabeling.respelling (R : Relabeling) : Respelling := ⟨R, fun x => x⟩

/-- Takes away the spelling of tokens, and nothing else. -/
def Respelling.unspelled : Respelling := ⟨.id, fun _ => ""⟩

/-- The token on its new line, with its new spelling. -/
def Token.respell (V : Respelling) (t : Token) : Token := ⟨t.kind, V.spelling t.lexeme, V.line t.line⟩

mutual

/-- The expression with its new spellings and labels. -/
def Expr.respell (V : Respelling) : Expr → Expr
  | .literal value => .literal value
  | .grouping inner => .grouping (inner.respell V)
  | .unary operator right => .unary (operator.respell V) (right.respell V)
  | .binary left operator right => .binary (left.respell V) (operator.respell V) (right.respell V)
  | .logical left operator right => .logical (left.respell V) (operator.respell V) (right.respell V)
  | .variable id name => .variable (V.occurrence id) (name.respell V)
  | .assign id name value => .assign (V.occurrence id) (name.respell V) (value.respell V)
  | .call callee paren arguments =>
    .call (callee.respell V) (paren.respell V) (Expr.respellAll V arguments)
  | .get object name => .get (object.respell V) (name.respell V)
  | .set object name value => .set (object.respell V) (name.respell V) (value.respell V)
  | .this id keyword => .this (V.occurrence id) (keyword.respell V)

/-- The expressions with their new spellings and labels. -/
def Expr.respellAll (V : Respelling) : List Expr → List Expr
  | [] => []
  | e :: rest => e.respell V :: Expr.respellAll V rest

end

mutual

/-- The statement with its new spellings and labels. -/
def Stmt.respell (V : Respelling) : Stmt → Stmt
  | .expression expr => .expression (expr.respell V)
  | .print expr => .print (expr.respell V)
  | .variable name initial => .variable (name.respell V) (initial.map (·.respell V))
  | .block body => .block (Stmt.respellAll V body)
  | .conditional condition thenBranch none =>
    .conditional (condition.respell V) (thenBranch.respell V) none
  | .conditional condition thenBranch (some elseBranch) =>
    .conditional (condition.respell V) (thenBranch.respell V) (some (elseBranch.respell V))
  | .loop condition body => .loop (condition.respell V) (body.respell V)
  | .function declaration => .function (declaration.respell V)
  | .return keyword value => .return (keyword.respell V) (value.map (·.respell V))
  | .class name methods => .class (name.respell V) (FunctionDecl.respellAll V methods)

/-- The statements with their new spellings and labels. -/
def Stmt.respellAll (V : Respelling) : List Stmt → List Stmt
  | [] => []
  | s :: rest => s.respell V :: Stmt.respellAll V rest

/-- The function with its new spellings and labels. -/
def FunctionDecl.respell (V : Respelling) : FunctionDecl → FunctionDecl
  | ⟨name, params, body⟩ =>
    ⟨name.respell V, params.map (·.respell V), Stmt.respellAll V body⟩

/-- The functions with their new spellings and labels. -/
def FunctionDecl.respellAll (V : Respelling) : List FunctionDecl → List FunctionDecl
  | [] => []
  | d :: rest => d.respell V :: FunctionDecl.respellAll V rest

end

/-- Statements are respelled one by one. -/
theorem Stmt.respellAll_eq_map (V : Respelling) (ss : List Stmt) :
    Stmt.respellAll V ss = ss.map (·.respell V) := by
  induction ss with
  | nil => rfl
  | cons s rest ih => simp [Stmt.respellAll, ih]

section Labels

variable (R : Relabeling)

/-- A relabeling that keeps all spellings is this relabeling. -/
@[simp] theorem Relabeling.respelling_toRelabeling : R.respelling.toRelabeling = R := rfl

/-- Respelling a token by a relabeling relabels it. -/
@[simp] theorem Token.respell_respelling (t : Token) : t.respell R.respelling = t.relabel R := rfl

mutual

/-- Respelling an expression by a relabeling relabels it. -/
@[simp] theorem Expr.respell_respelling : (e : Expr) → e.respell R.respelling = e.relabel R
  | .literal _ => rfl
  | .grouping inner => by simp [Expr.respell, Expr.relabel, inner.respell_respelling]
  | .unary _ right => by simp [Expr.respell, Expr.relabel, right.respell_respelling]
  | .binary left _ right => by
    simp [Expr.respell, Expr.relabel, left.respell_respelling, right.respell_respelling]
  | .logical left _ right => by
    simp [Expr.respell, Expr.relabel, left.respell_respelling, right.respell_respelling]
  | .variable _ _ => rfl
  | .assign _ _ value => by simp [Expr.respell, Expr.relabel, value.respell_respelling]
  | .call callee _ arguments => by
    simp [Expr.respell, Expr.relabel, callee.respell_respelling, Expr.respellAll_respelling arguments]
  | .get object _ => by simp [Expr.respell, Expr.relabel, object.respell_respelling]
  | .set object _ value => by
    simp [Expr.respell, Expr.relabel, object.respell_respelling, value.respell_respelling]
  | .this _ _ => rfl

/-- Respelling expressions by a relabeling relabels them. -/
@[simp] theorem Expr.respellAll_respelling : (es : List Expr) →
    Expr.respellAll R.respelling es = Expr.relabelAll R es
  | [] => rfl
  | e :: rest => by
    simp [Expr.respellAll, Expr.relabelAll, e.respell_respelling, Expr.respellAll_respelling rest]

end

mutual

/-- Respelling a statement by a relabeling relabels it. -/
@[simp] theorem Stmt.respell_respelling : (s : Stmt) → s.respell R.respelling = s.relabel R
  | .expression _ => by simp [Stmt.respell, Stmt.relabel]
  | .print _ => by simp [Stmt.respell, Stmt.relabel]
  | .variable _ _ => by simp [Stmt.respell, Stmt.relabel]
  | .block body => by simp [Stmt.respell, Stmt.relabel, Stmt.respellAll_respelling body]
  | .conditional _ thenBranch none => by
    simp [Stmt.respell, Stmt.relabel, thenBranch.respell_respelling]
  | .conditional _ thenBranch (some elseBranch) => by
    simp [Stmt.respell, Stmt.relabel, thenBranch.respell_respelling, elseBranch.respell_respelling]
  | .loop _ body => by simp [Stmt.respell, Stmt.relabel, body.respell_respelling]
  | .function declaration => by simp [Stmt.respell, Stmt.relabel, declaration.respell_respelling]
  | .return _ _ => by simp [Stmt.respell, Stmt.relabel]
  | .class _ methods => by
    simp [Stmt.respell, Stmt.relabel, FunctionDecl.respellAll_respelling methods]

/-- Respelling statements by a relabeling relabels them. -/
@[simp] theorem Stmt.respellAll_respelling : (ss : List Stmt) →
    Stmt.respellAll R.respelling ss = Stmt.relabelAll R ss
  | [] => rfl
  | s :: rest => by
    simp [Stmt.respellAll, Stmt.relabelAll, s.respell_respelling, Stmt.respellAll_respelling rest]

/-- Respelling a function by a relabeling relabels it. -/
@[simp] theorem FunctionDecl.respell_respelling : (d : FunctionDecl) →
    d.respell R.respelling = d.relabel R
  | ⟨_, _, body⟩ => by simp [FunctionDecl.respell, FunctionDecl.relabel, Stmt.respellAll_respelling body]

/-- Respelling functions by a relabeling relabels them. -/
@[simp] theorem FunctionDecl.respellAll_respelling : (ds : List FunctionDecl) →
    FunctionDecl.respellAll R.respelling ds = FunctionDecl.relabelAll R ds
  | [] => rfl
  | d :: rest => by
    simp [FunctionDecl.respellAll, FunctionDecl.relabelAll, d.respell_respelling,
      FunctionDecl.respellAll_respelling rest]

end

end Labels

end Lox
