import Lox.Proofs.Resolution.Sites

/-!
# Sites and occurrences

The sites of a tree carry exactly the occurrence numbers of the tree, whatever scopes are open around
it. So where the numbers of a tree are all different, a number determines its site.
-/

set_option autoImplicit false

namespace Lox

mutual

/-- The sites of an expression are those of its occurrences, in their order. -/
theorem Expr.sites_map_id (scopes : LocalScopes) (pending : Option String) :
    (e : Expr) → (e.sites scopes pending).map Site.id = e.occurrences
  | .literal _ => rfl
  | .grouping inner => inner.sites_map_id scopes pending
  | .unary _ right => right.sites_map_id scopes pending
  | .binary left _ right => by
    simp [Expr.sites, Expr.occurrences, left.sites_map_id scopes pending,
      right.sites_map_id scopes pending]
  | .logical left _ right => by
    simp [Expr.sites, Expr.occurrences, left.sites_map_id scopes pending,
      right.sites_map_id scopes pending]
  | .variable _ _ => rfl
  | .assign _ _ value => by simp [Expr.sites, Expr.occurrences, value.sites_map_id scopes pending]
  | .call callee _ arguments => by
    simp [Expr.sites, Expr.occurrences, callee.sites_map_id scopes pending,
      Expr.sitesAll_map_id scopes pending arguments]
  | .get object _ => object.sites_map_id scopes pending
  | .set object _ value => by
    simp [Expr.sites, Expr.occurrences, value.sites_map_id scopes pending,
      object.sites_map_id scopes pending]
  | .this _ _ => rfl

/-- The sites of expressions are those of their occurrences, in their order. -/
theorem Expr.sitesAll_map_id (scopes : LocalScopes) (pending : Option String) :
    (es : List Expr) → (Expr.sitesAll scopes pending es).map Site.id = Expr.occurrencesAll es
  | [] => rfl
  | e :: rest => by
    simp [Expr.sitesAll, Expr.occurrencesAll, e.sites_map_id scopes pending,
      Expr.sitesAll_map_id scopes pending rest]

end

/-- The sites of an optional expression are those of its occurrences, in their order. -/
theorem Expr.sitesOption_map_id (scopes : LocalScopes) (pending : Option String) (e : Option Expr) :
    (Expr.sitesOption scopes pending e).map Site.id = Expr.occurrencesOption e := by
  cases e with
  | none => rfl
  | some e => exact e.sites_map_id scopes pending

mutual

/-- The sites of a statement are those of its occurrences, in their order. -/
theorem Stmt.sites_map_id : (s : Stmt) → (scopes : LocalScopes) →
    (s.sites scopes).map Site.id = s.occurrences
  | .expression expr, scopes => expr.sites_map_id scopes none
  | .print expr, scopes => expr.sites_map_id scopes none
  | .variable name initial, scopes => Expr.sitesOption_map_id _ _ initial
  | .block body, scopes => Stmt.sitesAll_map_id body _
  | .conditional condition thenBranch none, scopes => by
    simp [Stmt.sites, Stmt.occurrences, condition.sites_map_id scopes none,
      thenBranch.sites_map_id scopes]
  | .conditional condition thenBranch (some elseBranch), scopes => by
    simp [Stmt.sites, Stmt.occurrences, condition.sites_map_id scopes none,
      thenBranch.sites_map_id scopes, elseBranch.sites_map_id scopes]
  | .loop condition body, scopes => by
    simp [Stmt.sites, Stmt.occurrences, condition.sites_map_id scopes none, body.sites_map_id scopes]
  | .function declaration, scopes => declaration.sites_map_id _
  | .return _ value, scopes => Expr.sitesOption_map_id scopes none value
  | .class _ methods, scopes => FunctionDecl.sitesAll_map_id methods _

/-- The sites of statements are those of their occurrences, in their order. -/
theorem Stmt.sitesAll_map_id : (ss : List Stmt) → (scopes : LocalScopes) →
    (Stmt.sitesAll ss scopes).map Site.id = Stmt.occurrencesAll ss
  | [], _ => rfl
  | s :: rest, scopes => by
    simp [Stmt.sitesAll, Stmt.occurrencesAll, s.sites_map_id scopes, Stmt.sitesAll_map_id rest]

/-- The sites of a function are those of its occurrences, in their order. -/
theorem FunctionDecl.sites_map_id : (d : FunctionDecl) → (scopes : LocalScopes) →
    (d.sites scopes).map Site.id = d.occurrences
  | ⟨_, _, body⟩, _ => Stmt.sitesAll_map_id body _

/-- The sites of functions are those of their occurrences, in their order. -/
theorem FunctionDecl.sitesAll_map_id : (ds : List FunctionDecl) → (scopes : LocalScopes) →
    (FunctionDecl.sitesAll ds scopes).map Site.id = FunctionDecl.occurrencesAll ds
  | [], _ => rfl
  | d :: rest, scopes => by
    simp [FunctionDecl.sitesAll, FunctionDecl.occurrencesAll, d.sites_map_id scopes,
      FunctionDecl.sitesAll_map_id rest scopes]

end

end Lox
