import Lox.Tree

/-!
# What trees are made of

The numbers of the uses in a tree, and the two rules about trees that scopes depend on. A declaration
stands in a list of statements, never alone as a branch of a conditional or as the body of a loop; so
it is reached exactly once in each run of the statements around it. And no variable has the name under
which methods find their instance.
-/

set_option autoImplicit false

namespace Lox

mutual

/-- The numbers of the uses in an expression. -/
def Expr.occurrences : Expr → List Occurrence
  | .literal _ => []
  | .grouping inner => inner.occurrences
  | .unary _ right => right.occurrences
  | .binary left _ right => left.occurrences ++ right.occurrences
  | .logical left _ right => left.occurrences ++ right.occurrences
  | .variable id _ => [id]
  | .assign id _ value => value.occurrences ++ [id]
  | .call callee _ arguments => callee.occurrences ++ Expr.occurrencesAll arguments
  | .get object _ => object.occurrences
  | .set object _ value => value.occurrences ++ object.occurrences
  | .this id _ => [id]

/-- The numbers of the uses in expressions. -/
def Expr.occurrencesAll : List Expr → List Occurrence
  | [] => []
  | e :: rest => e.occurrences ++ Expr.occurrencesAll rest

end

/-- The numbers of the uses in an expression that may be missing. -/
def Expr.occurrencesOption : Option Expr → List Occurrence
  | none => []
  | some e => e.occurrences

mutual

/-- The numbers of the uses in a statement. -/
def Stmt.occurrences : Stmt → List Occurrence
  | .expression expr => expr.occurrences
  | .print expr => expr.occurrences
  | .variable _ initial => Expr.occurrencesOption initial
  | .block body => Stmt.occurrencesAll body
  | .conditional condition thenBranch none => condition.occurrences ++ thenBranch.occurrences
  | .conditional condition thenBranch (some elseBranch) =>
    condition.occurrences ++ thenBranch.occurrences ++ elseBranch.occurrences
  | .loop condition body => condition.occurrences ++ body.occurrences
  | .function declaration => declaration.occurrences
  | .return _ value => Expr.occurrencesOption value
  | .class _ methods => FunctionDecl.occurrencesAll methods

/-- The numbers of the uses in statements. -/
def Stmt.occurrencesAll : List Stmt → List Occurrence
  | [] => []
  | s :: rest => s.occurrences ++ Stmt.occurrencesAll rest

/-- The numbers of the uses in a function. -/
def FunctionDecl.occurrences : FunctionDecl → List Occurrence
  | ⟨_, _, body⟩ => Stmt.occurrencesAll body

/-- The numbers of the uses in functions. -/
def FunctionDecl.occurrencesAll : List FunctionDecl → List Occurrence
  | [] => []
  | d :: rest => d.occurrences ++ FunctionDecl.occurrencesAll rest

end

mutual

/-- Every `this` in an expression is spelled as such. -/
def Expr.WellFormed : Expr → Prop
  | .literal _ => True
  | .grouping inner => inner.WellFormed
  | .unary _ right => right.WellFormed
  | .binary left _ right => left.WellFormed ∧ right.WellFormed
  | .logical left _ right => left.WellFormed ∧ right.WellFormed
  | .variable _ _ => True
  | .assign _ _ value => value.WellFormed
  | .call callee _ arguments => callee.WellFormed ∧ Expr.AllWellFormed arguments
  | .get object _ => object.WellFormed
  | .set object _ value => object.WellFormed ∧ value.WellFormed
  | .this _ keyword => keyword.lexeme = thisName

/-- Every `this` in expressions is spelled as such. -/
def Expr.AllWellFormed : List Expr → Prop
  | [] => True
  | e :: rest => e.WellFormed ∧ Expr.AllWellFormed rest

end

mutual

/-- No variable in a statement takes the name of `this`, and every declaration in it stands in a list of statements. -/
def Stmt.WellFormed : Stmt → Prop
  | .expression expr => expr.WellFormed
  | .print expr => expr.WellFormed
  | .variable name initial => name.lexeme ≠ thisName ∧ ∀ e ∈ initial, e.WellFormed
  | .block body => Stmt.AllWellFormed body
  | .conditional condition thenBranch none =>
    condition.WellFormed ∧ thenBranch.declared? = none ∧ thenBranch.WellFormed
  | .conditional condition thenBranch (some elseBranch) =>
    condition.WellFormed ∧ (thenBranch.declared? = none ∧ thenBranch.WellFormed) ∧
      elseBranch.declared? = none ∧ elseBranch.WellFormed
  | .loop condition body => condition.WellFormed ∧ body.declared? = none ∧ body.WellFormed
  | .function declaration => declaration.WellFormed
  | .return _ value => ∀ e ∈ value, e.WellFormed
  | .class _ methods => FunctionDecl.AllWellFormed methods

/-- All statements are well-formed. -/
def Stmt.AllWellFormed : List Stmt → Prop
  | [] => True
  | s :: rest => s.WellFormed ∧ Stmt.AllWellFormed rest

/-- The body of a function is well-formed. -/
def FunctionDecl.WellFormed : FunctionDecl → Prop
  | ⟨_, _, body⟩ => Stmt.AllWellFormed body

/-- The bodies of all functions are well-formed. -/
def FunctionDecl.AllWellFormed : List FunctionDecl → Prop
  | [] => True
  | d :: rest => d.WellFormed ∧ FunctionDecl.AllWellFormed rest

end

end Lox
