import Lox.Proofs.Tree.Relabel

/-!
# The names in a tree

All tokens of a tree that are names of variables, functions, classes or parameters, where they are
declared and where they are used. The names of properties are not among them.
-/

set_option autoImplicit false

namespace Lox

mutual

/-- The names that an expression uses. -/
def Expr.names : Expr → List Token
  | .literal _ => []
  | .grouping inner => inner.names
  | .unary _ right => right.names
  | .binary left _ right => left.names ++ right.names
  | .logical left _ right => left.names ++ right.names
  | .variable _ name => [name]
  | .assign _ name value => name :: value.names
  | .call callee _ arguments => callee.names ++ Expr.namesAll arguments
  | .get object _ => object.names
  | .set object _ value => object.names ++ value.names
  | .this _ _ => []

/-- The names that expressions use. -/
def Expr.namesAll : List Expr → List Token
  | [] => []
  | e :: rest => e.names ++ Expr.namesAll rest

end

/-- The names that an expression uses that may be missing. -/
def Expr.namesOption : Option Expr → List Token
  | none => []
  | some e => e.names

mutual

/-- The names that a statement declares and uses. -/
def Stmt.names : Stmt → List Token
  | .expression expr => expr.names
  | .print expr => expr.names
  | .variable name initial => name :: Expr.namesOption initial
  | .block body => Stmt.namesAll body
  | .conditional condition thenBranch none => condition.names ++ thenBranch.names
  | .conditional condition thenBranch (some elseBranch) =>
    condition.names ++ thenBranch.names ++ elseBranch.names
  | .loop condition body => condition.names ++ body.names
  | .function declaration => declaration.names
  | .return _ value => Expr.namesOption value
  | .class name methods => name :: FunctionDecl.namesAll methods

/-- The names that statements declare and use. -/
def Stmt.namesAll : List Stmt → List Token
  | [] => []
  | s :: rest => s.names ++ Stmt.namesAll rest

/-- The names in a function, its own included. -/
def FunctionDecl.names : FunctionDecl → List Token
  | ⟨name, params, body⟩ => name :: (params ++ Stmt.namesAll body)

/-- The names in functions. -/
def FunctionDecl.namesAll : List FunctionDecl → List Token
  | [] => []
  | d :: rest => d.names ++ FunctionDecl.namesAll rest

end

mutual

/-- Names have no numbers to lose. -/
theorem Expr.names_anonymous : (e : Expr) → (e.relabel .anonymous).names = e.names
  | .literal _ => rfl
  | .grouping inner => inner.names_anonymous
  | .unary _ right => right.names_anonymous
  | .binary left _ right => by
    simp only [Expr.relabel, Expr.names, left.names_anonymous, right.names_anonymous]
  | .logical left _ right => by
    simp only [Expr.relabel, Expr.names, left.names_anonymous, right.names_anonymous]
  | .variable _ _ => rfl
  | .assign _ name value => congrArg (name :: ·) value.names_anonymous
  | .call callee _ arguments => by
    simp only [Expr.relabel, Expr.names, callee.names_anonymous, Expr.namesAll_anonymous arguments]
  | .get object _ => object.names_anonymous
  | .set object _ value => by
    simp only [Expr.relabel, Expr.names, object.names_anonymous, value.names_anonymous]
  | .this _ _ => rfl

/-- The names in expressions do not depend on numbers. -/
theorem Expr.namesAll_anonymous : (es : List Expr) →
    Expr.namesAll (Expr.relabelAll .anonymous es) = Expr.namesAll es
  | [] => rfl
  | e :: rest => by
    simp only [Expr.relabelAll, Expr.namesAll, e.names_anonymous, Expr.namesAll_anonymous rest]

end

/-- The names in an optional expression do not depend on numbers. -/
theorem Expr.namesOption_anonymous (e : Option Expr) :
    Expr.namesOption (e.map (·.relabel .anonymous)) = Expr.namesOption e := by
  cases e with
  | none => rfl
  | some e => exact e.names_anonymous

mutual

/-- The names in a statement do not depend on numbers. -/
theorem Stmt.names_anonymous : (s : Stmt) → (s.relabel .anonymous).names = s.names
  | .expression expr => expr.names_anonymous
  | .print expr => expr.names_anonymous
  | .variable name initial => congrArg (name :: ·) (Expr.namesOption_anonymous initial)
  | .block body => Stmt.namesAll_anonymous body
  | .conditional condition thenBranch none => by
    simp only [Stmt.relabel, Stmt.names, condition.names_anonymous, thenBranch.names_anonymous]
  | .conditional condition thenBranch (some elseBranch) => by
    simp only [Stmt.relabel, Stmt.names, condition.names_anonymous, thenBranch.names_anonymous,
      elseBranch.names_anonymous]
  | .loop condition body => by
    simp only [Stmt.relabel, Stmt.names, condition.names_anonymous, body.names_anonymous]
  | .function declaration => declaration.names_anonymous
  | .return _ value => Expr.namesOption_anonymous value
  | .class name methods => congrArg (name :: ·) (FunctionDecl.namesAll_anonymous methods)

/-- The names in statements do not depend on numbers. -/
theorem Stmt.namesAll_anonymous : (ss : List Stmt) →
    Stmt.namesAll (Stmt.relabelAll .anonymous ss) = Stmt.namesAll ss
  | [] => rfl
  | s :: rest => by
    simp only [Stmt.relabelAll, Stmt.namesAll, s.names_anonymous, Stmt.namesAll_anonymous rest]

/-- The names in a function do not depend on numbers. -/
theorem FunctionDecl.names_anonymous : (d : FunctionDecl) → (d.relabel .anonymous).names = d.names
  | ⟨name, params, body⟩ => by
    have hparams : params.map (·.relabel .anonymous) = params := List.map_id' params
    rw [FunctionDecl.relabel, FunctionDecl.names, FunctionDecl.names, hparams,
      Stmt.namesAll_anonymous body]
    rfl

/-- The names in functions do not depend on numbers. -/
theorem FunctionDecl.namesAll_anonymous : (ds : List FunctionDecl) →
    FunctionDecl.namesAll (FunctionDecl.relabelAll .anonymous ds) = FunctionDecl.namesAll ds
  | [] => rfl
  | d :: rest => by
    simp only [FunctionDecl.relabelAll, FunctionDecl.namesAll, d.names_anonymous,
      FunctionDecl.namesAll_anonymous rest]

end

end Lox
