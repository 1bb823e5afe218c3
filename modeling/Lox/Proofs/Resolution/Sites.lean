import Lox.Resolution
import Lox.Proofs.Tree.Shape

/-!
# Where names are used

A site is a use of a name or of `this` together with the local scopes that are open there. Listing the
sites of a tree separates the two parts of resolution: which scopes are open at a use is read off the
tree alone, and the distance of a use is read off its scopes. `Resolved` is what a program relies on
after it has been resolved without errors: all its sites are on a given list, no scope declares a name
twice, and every declaration stands in a list of statements.
-/

set_option autoImplicit false

namespace Lox

namespace LocalScopes

/-- Declares a name in the innermost scope, with its declaration not complete. A name that is there
already stays as it is. -/
def declare (name : String) : LocalScopes → LocalScopes
  | [] => []
  | scope :: outer => (if scope.binds name then scope else scope.put name false) :: outer

/-- Completes the declaration of a name in the innermost scope. -/
def complete (name : String) : LocalScopes → LocalScopes
  | [] => []
  | scope :: outer => scope.put name true :: outer

/-- Whether the declaration of a name is complete, in the nearest scope that binds it. -/
def status? (name : String) : LocalScopes → Option Bool
  | [] => none
  | scope :: outer =>
    match scope.get? name with
    | some status => some status
    | none => status? name outer

/-- The innermost scope leaves the name free. -/
def Lacks (name : String) : LocalScopes → Prop
  | [] => True
  | scope :: _ => scope.get? name = none

/-- All declarations are complete. -/
def Complete (scopes : LocalScopes) : Prop :=
  ∀ scope ∈ scopes, ∀ name, scope.get? name ≠ some false

/-- All declarations are complete, but that of the variable `pending` in the innermost scope. -/
def CompleteBut (pending : Option String) : LocalScopes → Prop
  | [] => True
  | scope :: outer => (∀ name, scope.get? name = some false → pending = some name) ∧ Complete outer

/-- The scopes in which a statement runs: a declaration has its own name in them. -/
def entering (s : Stmt) (scopes : LocalScopes) : LocalScopes :=
  match s.declared? with
  | some name => declare name.lexeme scopes
  | none => scopes

/-- The scopes behind a statement. -/
def after (s : Stmt) (scopes : LocalScopes) : LocalScopes :=
  match s.declared? with
  | some name => complete name.lexeme scopes
  | none => scopes

end LocalScopes

/-- The scope of a function's parameters. -/
def parameterScope (params : List Token) : Bindings Bool :=
  params.foldl (fun scope p => scope.put p.lexeme true) []

/-- A use of a name or of `this`. -/
structure Site where
  id : Occurrence
  name : String
  /-- The local scopes that are open at the use, the innermost first. -/
  scopes : LocalScopes
  /-- The variable in whose initializer the use stands. -/
  initializing : Option String
  /-- Whether the use is an assignment. -/
  assigns : Bool

namespace Site

/-- The distance that resolution records for the use, if it is local. -/
def distance? (site : Site) : Option Nat := Resolution.distance? site.name site.scopes

/-- The entry of the use in the table of distances. -/
def entry? (site : Site) : Option (Occurrence × Nat) := site.distance?.map fun d => (site.id, d)

/-- A use of a variable whose declaration is not complete is an assignment in its own initializer. -/
def Settled (site : Site) : Prop :=
  site.scopes.status? site.name = some false →
    site.assigns = true ∧ site.initializing = some site.name

end Site

mutual

/-- The uses in an expression within the given scopes, in the order in which they are resolved. -/
def Expr.sites (scopes : LocalScopes) (initializing : Option String) : Expr → List Site
  | .literal _ => []
  | .grouping inner => inner.sites scopes initializing
  | .unary _ right => right.sites scopes initializing
  | .binary left _ right => left.sites scopes initializing ++ right.sites scopes initializing
  | .logical left _ right => left.sites scopes initializing ++ right.sites scopes initializing
  | .variable id name => [⟨id, name.lexeme, scopes, initializing, false⟩]
  | .assign id name value =>
    value.sites scopes initializing ++ [⟨id, name.lexeme, scopes, initializing, true⟩]
  | .call callee _ arguments =>
    callee.sites scopes initializing ++ Expr.sitesAll scopes initializing arguments
  | .get object _ => object.sites scopes initializing
  | .set object _ value => value.sites scopes initializing ++ object.sites scopes initializing
  | .this id keyword => [⟨id, keyword.lexeme, scopes, initializing, false⟩]

/-- The uses in expressions. -/
def Expr.sitesAll (scopes : LocalScopes) (initializing : Option String) : List Expr → List Site
  | [] => []
  | e :: rest => e.sites scopes initializing ++ Expr.sitesAll scopes initializing rest

end

/-- The uses in an expression that may be missing. -/
def Expr.sitesOption (scopes : LocalScopes) (initializing : Option String) : Option Expr → List Site
  | none => []
  | some e => e.sites scopes initializing

mutual

/-- The uses in a statement within the given scopes. -/
def Stmt.sites : Stmt → LocalScopes → List Site
  | .expression expr, scopes => expr.sites scopes none
  | .print expr, scopes => expr.sites scopes none
  | .variable name initial, scopes =>
    Expr.sitesOption (scopes.declare name.lexeme) (some name.lexeme) initial
  | .block body, scopes => Stmt.sitesAll body ([] :: scopes)
  | .conditional condition thenBranch none, scopes =>
    condition.sites scopes none ++ thenBranch.sites scopes
  | .conditional condition thenBranch (some elseBranch), scopes =>
    condition.sites scopes none ++ thenBranch.sites scopes ++ elseBranch.sites scopes
  | .loop condition body, scopes => condition.sites scopes none ++ body.sites scopes
  | .function declaration, scopes => declaration.sites (scopes.complete declaration.name.lexeme)
  | .return _ value, scopes => Expr.sitesOption scopes none value
  | .class name methods, scopes =>
    FunctionDecl.sitesAll methods ([(thisName, true)] :: scopes.complete name.lexeme)

/-- The uses in statements, each behind those before it. -/
def Stmt.sitesAll : List Stmt → LocalScopes → List Site
  | [], _ => []
  | s :: rest, scopes => s.sites scopes ++ Stmt.sitesAll rest (scopes.after s)

/-- The uses in a function. -/
def FunctionDecl.sites : FunctionDecl → LocalScopes → List Site
  | ⟨_, params, body⟩, scopes => Stmt.sitesAll body (parameterScope params :: scopes)

/-- The uses in functions. -/
def FunctionDecl.sitesAll : List FunctionDecl → LocalScopes → List Site
  | [], _ => []
  | d :: rest, scopes => d.sites scopes ++ FunctionDecl.sitesAll rest scopes

end

mutual

/-- A statement is resolved within the given scopes, all its uses being on the list `plan`. -/
def Stmt.Resolved (plan : List Site) : Stmt → LocalScopes → Prop
  | .expression expr, scopes => expr.sites scopes none ⊆ plan
  | .print expr, scopes => expr.sites scopes none ⊆ plan
  | .variable name initial, scopes =>
    scopes.Lacks name.lexeme ∧
      Expr.sitesOption (scopes.declare name.lexeme) (some name.lexeme) initial ⊆ plan
  | .block body, scopes => Stmt.AllResolved plan body ([] :: scopes)
  | .conditional condition thenBranch none, scopes =>
    condition.sites scopes none ⊆ plan ∧ thenBranch.declared? = none ∧
      thenBranch.Resolved plan scopes
  | .conditional condition thenBranch (some elseBranch), scopes =>
    condition.sites scopes none ⊆ plan ∧
      (thenBranch.declared? = none ∧ thenBranch.Resolved plan scopes) ∧
      elseBranch.declared? = none ∧ elseBranch.Resolved plan scopes
  | .loop condition body, scopes =>
    condition.sites scopes none ⊆ plan ∧ body.declared? = none ∧ body.Resolved plan scopes
  | .function declaration, scopes =>
    scopes.Lacks declaration.name.lexeme ∧
      declaration.Resolved plan (scopes.complete declaration.name.lexeme)
  | .return _ value, scopes => Expr.sitesOption scopes none value ⊆ plan
  | .class name methods, scopes =>
    scopes.Lacks name.lexeme ∧
      FunctionDecl.AllResolved plan methods ([(thisName, true)] :: scopes.complete name.lexeme)

/-- Statements are resolved, each behind those before it. -/
def Stmt.AllResolved (plan : List Site) : List Stmt → LocalScopes → Prop
  | [], _ => True
  | s :: rest, scopes => s.Resolved plan scopes ∧ Stmt.AllResolved plan rest (scopes.after s)

/-- A function is resolved, in a scope with its parameters. -/
def FunctionDecl.Resolved (plan : List Site) : FunctionDecl → LocalScopes → Prop
  | ⟨_, params, body⟩, scopes => Stmt.AllResolved plan body (parameterScope params :: scopes)

/-- Functions are resolved, one by one. -/
def FunctionDecl.AllResolved (plan : List Site) : List FunctionDecl → LocalScopes → Prop
  | [], _ => True
  | d :: rest, scopes => d.Resolved plan scopes ∧ FunctionDecl.AllResolved plan rest scopes

end

namespace LocalScopes

/-- Completing a declaration leaves no trace of its beginning. -/
theorem complete_declare (name : String) (scopes : LocalScopes) :
    (scopes.declare name).complete name = scopes.complete name := by
  have overwritten (scope : Bindings Bool) :
      (scope.put name false).put name true = scope.put name true := by
    induction scope with
    | nil => simp [Bindings.put]
    | cons entry rest ih =>
      obtain ⟨n, old⟩ := entry
      by_cases h : n = name <;> simp [Bindings.put, h, ih]
  cases scopes with
  | nil => rfl
  | cons scope outer =>
    simp only [declare, complete]
    split
    · rfl
    · rw [overwritten]

/-- A name is found in the innermost scope, or else one scope farther than from outside. -/
theorem distance?_cons (name : String) (scope : Bindings Bool) (outer : LocalScopes) :
    Resolution.distance? name (scope :: outer) =
      if scope.binds name then some 0 else (Resolution.distance? name outer).map (· + 1) := by
  simp only [Resolution.distance?, List.findIdx?_cons]

/-- Scopes in which all declarations are complete stay so behind a declaration. -/
theorem Complete.complete {scopes : LocalScopes} (h : scopes.Complete) (name : String) :
    (scopes.complete name).Complete := by
  cases scopes with
  | nil => exact h
  | cons scope outer =>
    obtain ⟨hscope, houter⟩ := List.forall_mem_cons.mp h
    refine List.forall_mem_cons.mpr ⟨fun n => ?_, houter⟩
    rw [Bindings.get?_put]
    split
    · simp
    · exact hscope n

/-- Behind any statement all declarations are complete. -/
theorem Complete.after {scopes : LocalScopes} (h : scopes.Complete) (s : Stmt) :
    (scopes.after s).Complete := by
  unfold LocalScopes.after
  split
  · exact h.complete _
  · exact h

/-- A new scope in which all declarations are complete changes nothing. -/
theorem Complete.cons {scope : Bindings Bool} {scopes : LocalScopes} (h : scopes.Complete)
    (hscope : ∀ name, scope.get? name ≠ some false) : LocalScopes.Complete (scope :: scopes) :=
  List.forall_mem_cons.mpr ⟨hscope, h⟩

/-- Where all declarations are complete, no exception is needed. -/
theorem Complete.completeBut {scopes : LocalScopes} (h : scopes.Complete) (pending : Option String) :
    scopes.CompleteBut pending := by
  cases scopes with
  | nil => trivial
  | cons scope outer =>
    obtain ⟨hscope, houter⟩ := List.forall_mem_cons.mp h
    exact ⟨fun name hname => absurd hname (hscope name), houter⟩

/-- Only the variable that is being declared has no complete declaration. -/
theorem Complete.declare {scopes : LocalScopes} (h : scopes.Complete) (name : String) :
    (scopes.declare name).CompleteBut (some name) := by
  cases scopes with
  | nil => trivial
  | cons scope outer =>
    obtain ⟨hscope, houter⟩ := List.forall_mem_cons.mp h
    refine ⟨fun n hn => ?_, houter⟩
    split at hn
    · exact absurd hn (hscope n)
    · rw [Bindings.get?_put] at hn
      by_cases heq : name = n
      · rw [heq]
      · rw [if_neg heq] at hn
        exact absurd hn (hscope n)

/-- Where all declarations are complete, every bound name has the status of a complete one. -/
theorem Complete.status?_ne {scopes : LocalScopes} (h : scopes.Complete) (name : String) :
    scopes.status? name ≠ some false := by
  induction scopes with
  | nil => simp [status?]
  | cons scope outer ih =>
    obtain ⟨hscope, houter⟩ := List.forall_mem_cons.mp h
    cases hget : scope.get? name with
    | none => simpa [status?, hget] using ih houter
    | some status =>
      have := hscope name
      rw [hget] at this
      simpa [status?, hget] using this

end LocalScopes

/-- The declarations of parameters are complete. -/
theorem parameterScope_complete (params : List Token) (name : String) :
    (parameterScope params).get? name ≠ some false := by
  have general (scope : Bindings Bool) (h : scope.get? name ≠ some false) :
      Bindings.get? name (params.foldl (fun scope p => scope.put p.lexeme true) scope) ≠ some false := by
    induction params generalizing scope with
    | nil => exact h
    | cons p rest ih =>
      apply ih
      rw [Bindings.get?_put]
      split
      · simp
      · exact h
  exact general [] (by simp [Bindings.get?])

/-- A declaration finds its name free. -/
theorem Stmt.Resolved.lacks {plan : List Site} {scopes : LocalScopes} {s : Stmt} {name : Token}
    (h : s.Resolved plan scopes) (hname : s.declared? = some name) : scopes.Lacks name.lexeme := by
  cases s with
  | «variable» _ _ => cases hname; exact h.1
  | function _ => cases hname; exact h.1
  | «class» _ _ => cases hname; exact h.1
  | _ => cases hname

/-- The names of a scope behind a statement in it. -/
def Bindings.behind (names : Bindings Bool) (s : Stmt) : Bindings Bool :=
  match s.declared? with
  | some name => names.put name.lexeme true
  | none => names

/-- A scope changes only by the name that is declared in it. -/
theorem LocalScopes.after_cons (s : Stmt) (names : Bindings Bool) (outer : LocalScopes) :
    LocalScopes.after s (names :: outer) = names.behind s :: outer := by
  unfold LocalScopes.after Bindings.behind
  cases s.declared? <;> rfl

/-- A statement that declares nothing leaves the scopes alone. -/
theorem LocalScopes.after_of_not_declared {s : Stmt} (h : s.declared? = none)
    (scopes : LocalScopes) : scopes.after s = scopes := by
  rw [LocalScopes.after, h]

/-- Parameters are names of their scope. -/
theorem parameterScope_binds {params : List Token} {p : Token} (hp : p ∈ params) :
    (parameterScope params).binds p.lexeme = true := by
  have general (rest : List Token) (scope : Bindings Bool) (h : scope.binds p.lexeme = true ∨ p ∈ rest) :
      Bindings.binds (rest.foldl (fun scope p => scope.put p.lexeme true) scope) p.lexeme = true := by
    induction rest generalizing scope with
    | nil => exact h.resolve_right (by simp)
    | cons q rest ih =>
      refine ih (scope.put q.lexeme true) ?_
      rw [Bindings.binds, Bindings.get?_put]
      rcases h with h | h
      · refine .inl ?_
        split
        · rfl
        · exact h
      · rcases List.mem_cons.mp h with rfl | h
        · exact .inl (by rw [if_pos rfl]; rfl)
        · exact .inr h
  exact general params [] (.inr hp)

/-- Statements that run in one scope declare different names, and none that the scope has already. -/
theorem Stmt.AllResolved.distinct {plan : List Site} {ss : List Stmt} {names : Bindings Bool}
    {outer : LocalScopes} (h : Stmt.AllResolved plan ss (names :: outer)) :
    (∀ s ∈ ss, ∀ name, s.declared? = some name → names.get? name.lexeme = none) ∧
      ss.Pairwise fun s t => ∀ name name', s.declared? = some name → t.declared? = some name' →
        name.lexeme ≠ name'.lexeme := by
  induction ss generalizing names with
  | nil => exact ⟨by simp, .nil⟩
  | cons s rest ih =>
    obtain ⟨hs, hrest⟩ := h
    rw [LocalScopes.after_cons] at hrest
    obtain ⟨hfree, hdistinct⟩ := ih hrest
    have hbehind {name : Token} (hname : names.get? name.lexeme ≠ none) :
        (names.behind s).get? name.lexeme ≠ none := by
      unfold Bindings.behind
      split
      · rw [Bindings.get?_put]
        split
        · simp
        · exact hname
      · exact hname
    refine ⟨List.forall_mem_cons.mpr ⟨fun name hname => hs.lacks hname, fun t ht name hname => ?_⟩,
      List.pairwise_cons.mpr ⟨fun t ht name name' hname hname' hsame => ?_, hdistinct⟩⟩
    · exact Classical.not_not.mp fun hbound => hbehind hbound (hfree t ht name hname)
    · have hnew := hfree t ht name' hname'
      rw [Bindings.behind, hname, Bindings.get?_put, if_pos hsame] at hnew
      cases hnew

end Lox
