import Lox.Proofs.Resolution.Record

/-!
# Accepted programs are resolved

The statement level of what resolution without errors says. A well-formed statement that is resolved
where all declarations are complete records its sites, makes the scopes of its declaration, and is
resolved on every list that holds its sites.
-/

set_option autoImplicit false

namespace Lox

namespace Resolution

/-- Records the distances of sites and goes on in other scopes. -/
def advance (sites : List Site) (scopes : LocalScopes) (r : Resolution) : Resolution :=
  ⟨scopes, r.errors, r.distances ++ sites.filterMap Site.entry?⟩

/-- A resolution without errors has come from `r` to `r'` through the given sites into the given scopes, by a tree
that is then resolved. -/
structure Yields (r r' : Resolution) (sites : List Site) (scopes : LocalScopes)
    (resolved : List Site → Prop) : Prop where
  eq : r' = r.advance sites scopes
  settled : ∀ site ∈ sites, site.Settled
  resolved : ∀ plan, sites ⊆ plan → resolved plan

variable {r r₁ r₂ : Resolution} {sites sites' : List Site} {scopes scopes' : LocalScopes}
  {resolved resolved' : List Site → Prop}

/-- A step that only records yields its sites. -/
theorem yields_of_records {pending : Option String} {step : Resolution → Resolution}
    {sites : LocalScopes → List Site} (h : Records pending step sites)
    (hscopes : r.scopes.CompleteBut pending) (hclean : (step r).errors = r.errors) :
    Yields r (step r) (sites r.scopes) r.scopes (fun plan => sites r.scopes ⊆ plan) :=
  ⟨(h r hscopes hclean).1, (h r hscopes hclean).2, fun _ hplan => hplan⟩

/-- A tree behind another one yields its sites behind those of the first. -/
theorem Yields.then {second : Resolution → Resolution} (h : Yields r r₁ sites scopes resolved)
    (hclean : (second r₁).errors = r.errors)
    (h' : (second (r.advance sites scopes)).errors = r.errors →
      Yields (r.advance sites scopes) (second (r.advance sites scopes)) sites' scopes' resolved') :
    Yields r (second r₁) (sites ++ sites') scopes' (fun plan => resolved plan ∧ resolved' plan) := by
  rw [h.eq] at hclean ⊢
  obtain ⟨heq, hsettled, hresolved⟩ := h' hclean
  refine ⟨by rw [heq]; simp [advance], List.forall_mem_append.mpr ⟨h.settled, hsettled⟩, ?_⟩
  intro plan hplan
  obtain ⟨hleft, hright⟩ := List.append_subset.mp hplan
  exact ⟨h.resolved plan hleft, hresolved plan hright⟩

/-- What is known of a tree may be replaced by what follows from it. -/
theorem Yields.imp (h : Yields r r₁ sites scopes resolved)
    (himp : ∀ plan, resolved plan → resolved' plan) : Yields r r₁ sites scopes resolved' :=
  ⟨h.eq, h.settled, fun plan hplan => himp plan (h.resolved plan hplan)⟩

/-- A tree that is resolved within scopes of its own yields the same sites. -/
theorem Yields.within {inner : LocalScopes}
    (h : Yields { r with scopes := inner } r₁ sites scopes resolved) (outer : LocalScopes) :
    Yields r { r₁ with scopes := outer } sites outer resolved :=
  ⟨by simp [h.eq, advance], h.settled, h.resolved⟩

end Resolution

open Resolution

/-- The scopes behind statements. -/
def LocalScopes.afterAll (ss : List Stmt) (scopes : LocalScopes) : LocalScopes :=
  ss.foldl (fun scopes s => scopes.after s) scopes

/-- Statements change the innermost scope at most. -/
theorem LocalScopes.afterAll_cons (ss : List Stmt) (scope : Bindings Bool) (outer : LocalScopes) :
    ∃ scope', LocalScopes.afterAll ss (scope :: outer) = scope' :: outer := by
  induction ss generalizing scope with
  | nil => exact ⟨scope, rfl⟩
  | cons s rest ih =>
    rw [LocalScopes.afterAll, List.foldl_cons, LocalScopes.after]
    split
    · exact ih _
    · exact ih scope

/-- Leaving a scope comes back to those outside, if it was entered from there. -/
theorem Resolution.leave_eq {r : Resolution} {scope : Bindings Bool} {outer : LocalScopes}
    (h : r.scopes = scope :: outer) : r.leave = { r with scopes := outer } := by
  rw [Resolution.leave, h, List.tail_cons]

mutual

/-- A statement that is resolved without errors yields its sites. -/
theorem Stmt.resolve_yields (around : Surroundings) : (s : Stmt) → s.WellFormed →
    (r : Resolution) → r.scopes.Complete → (s.resolve around r).errors = r.errors →
    Yields r (s.resolve around r) (s.sites r.scopes) (r.scopes.after s)
      (fun plan => s.Resolved plan r.scopes)
  | .expression expr, hwf, r, hscopes, h =>
    yields_of_records (expr.resolve_records around none (by simp) hwf) (hscopes.completeBut none) h
  | .print expr, hwf, r, hscopes, h =>
    yields_of_records (expr.resolve_records around none (by simp) hwf) (hscopes.completeBut none) h
  | .variable name initial, ⟨hname, hinitial⟩, r, hscopes, h => by
    rw [Stmt.resolve, define_eq] at h ⊢
    have hdeclared := (declare_extends r [] name).errors_eq
      (Expr.resolveOption_extends around initial _) h
    obtain ⟨hlacks, heq⟩ := declare_clean r name hdeclared
    rw [heq] at h ⊢
    have hinit := yields_of_records (Expr.resolveOption_records around (some name.lexeme)
      (by simpa using hname) initial hinitial) (hscopes.declare name.lexeme) h
    have hscope := congrArg Resolution.scopes hinit.eq
    rw [hscope]
    simp only [advance, LocalScopes.complete_declare]
    exact (hinit.within _).imp (fun _ hplan => ⟨hlacks, hplan⟩)
  | .block body, hwf, r, hscopes, h => by
    have hbody := Stmt.resolveAll_yields around body hwf (r.enter [])
      (hscopes.cons (by simp [Bindings.get?])) h
    obtain ⟨scope, hscope⟩ := LocalScopes.afterAll_cons body [] r.scopes
    rw [Stmt.resolve, leave_eq ((congrArg Resolution.scopes hbody.eq).trans hscope)]
    exact hbody.within r.scopes
  | .conditional condition thenBranch none, ⟨hcondition, hdeclared, hthen⟩, r, hscopes, h => by
    have hfirst := yields_of_records
      (condition.resolve_records around none (by simp) hcondition) (hscopes.completeBut none)
      ((condition.resolve_extends around r).errors_eq (thenBranch.resolve_extends around _) h)
    have hboth := hfirst.then h (thenBranch.resolve_yields around hthen _ hscopes)
    simp only [LocalScopes.after_of_not_declared hdeclared] at hboth
    exact hboth.imp (fun _ hplan => ⟨hplan.1, hdeclared, hplan.2⟩)
  | .conditional condition thenBranch (some elseBranch),
      ⟨hcondition, ⟨hdeclared, hthen⟩, hdeclared', helse⟩, r, hscopes, h => by
    have hgrown := (condition.resolve_extends around r).trans
      (thenBranch.resolve_extends around (condition.resolve around r))
    have hclean := hgrown.errors_eq (elseBranch.resolve_extends around _) h
    have hfirst := yields_of_records
      (condition.resolve_records around none (by simp) hcondition) (hscopes.completeBut none)
      ((condition.resolve_extends around r).errors_eq (thenBranch.resolve_extends around _) hclean)
    have hboth := hfirst.then hclean (thenBranch.resolve_yields around hthen _ hscopes)
    simp only [LocalScopes.after_of_not_declared hdeclared] at hboth
    have hall := hboth.then h (elseBranch.resolve_yields around helse _ hscopes)
    simp only [LocalScopes.after_of_not_declared hdeclared'] at hall
    exact hall.imp (fun _ hplan => ⟨hplan.1.1, ⟨hdeclared, hplan.1.2⟩, hdeclared', hplan.2⟩)
  | .loop condition body, ⟨hcondition, hdeclared, hbody⟩, r, hscopes, h => by
    have hfirst := yields_of_records
      (condition.resolve_records around none (by simp) hcondition) (hscopes.completeBut none)
      ((condition.resolve_extends around r).errors_eq (body.resolve_extends around _) h)
    have hboth := hfirst.then h (body.resolve_yields around hbody _ hscopes)
    simp only [LocalScopes.after_of_not_declared hdeclared] at hboth
    exact hboth.imp (fun _ hplan => ⟨hplan.1, hdeclared, hplan.2⟩)
  | .function declaration, hwf, r, hscopes, h => by
    obtain ⟨hlacks, heq⟩ := introduce_clean r declaration.name
      ((introduce_extends r [] declaration.name).errors_eq (declaration.resolve_extends _ _) h)
    rw [Stmt.resolve, heq] at h ⊢
    have hbody := declaration.resolve_yields _ hwf _ (hscopes.complete _) h
    have hbody' := hbody.within (r.scopes.complete declaration.name.lexeme)
    rw [hbody.eq] at hbody' ⊢
    exact hbody'.imp (fun _ hplan => ⟨hlacks, hplan⟩)
  | .return keyword value, hwf, r, hscopes, h => by
    have hcheck := checkReturn_clean r around keyword value.isSome
      ((checkReturn_extends r [] around keyword _).errors_eq
        (Expr.resolveOption_extends around value _) h)
    rw [Stmt.resolve, hcheck] at h ⊢
    exact yields_of_records (Expr.resolveOption_records around none (by simp) value hwf)
      (hscopes.completeBut none) h
  | .class name methods, hwf, r, hscopes, h => by
    obtain ⟨hlacks, heq⟩ := introduce_clean r name
      ((introduce_extends r [] name).errors_eq
        (((enter_extends (r.introduce name) [] [(thisName, true)]).trans
          (FunctionDecl.resolveMethods_extends _ methods _)).trans (leave_extends _ [])) h)
    rw [Stmt.resolve, heq] at h ⊢
    have hmethods := FunctionDecl.resolveMethods_yields { around with inClass := true } methods hwf
      { r with scopes := [(thisName, true)] :: r.scopes.complete name.lexeme }
      ((hscopes.complete _).cons (by simp [Bindings.get?])) h
    have hscope := congrArg Resolution.scopes hmethods.eq
    have hmethods' := hmethods.within (r.scopes.complete name.lexeme)
    exact (leave_eq hscope ▸ hmethods').imp (fun _ hplan => ⟨hlacks, hplan⟩)

/-- Statements that are resolved without errors yield their sites. -/
theorem Stmt.resolveAll_yields (around : Surroundings) : (ss : List Stmt) → Stmt.AllWellFormed ss →
    (r : Resolution) → r.scopes.Complete → (Stmt.resolveAll around ss r).errors = r.errors →
    Yields r (Stmt.resolveAll around ss r) (Stmt.sitesAll ss r.scopes)
      (r.scopes.afterAll ss) (fun plan => Stmt.AllResolved plan ss r.scopes)
  | [], _, r, _, _ => ⟨by simp [Stmt.resolveAll, Stmt.sitesAll, LocalScopes.afterAll, advance], by simp [Stmt.sitesAll],
      fun _ _ => trivial⟩
  | s :: rest, ⟨hs, hrest⟩, r, hscopes, h => by
    have hfirst := s.resolve_yields around hs r hscopes
      ((s.resolve_extends around r).errors_eq (Stmt.resolveAll_extends around rest _) h)
    exact hfirst.then h (Stmt.resolveAll_yields around rest hrest _ (hscopes.after s))

/-- A function that is resolved without errors yields its sites. -/
theorem FunctionDecl.resolve_yields (around : Surroundings) : (d : FunctionDecl) → d.WellFormed →
    (r : Resolution) → r.scopes.Complete → (d.resolve around r).errors = r.errors →
    Yields r (d.resolve around r) (d.sites r.scopes) r.scopes (fun plan => d.Resolved plan r.scopes)
  | ⟨name, params, body⟩, hwf, r, hscopes, h => by
    have hparams := introduceAll_clean (r.enter []) params [] r.scopes rfl
      ((introduceAll_extends (r.enter []) [] params).errors_eq
        ((Stmt.resolveAll_extends around body _).trans (leave_extends _ [])) h)
    rw [FunctionDecl.resolve, hparams] at h ⊢
    have hbody := Stmt.resolveAll_yields around body hwf
      { r with scopes := parameterScope params :: r.scopes }
      (hscopes.cons (parameterScope_complete params)) h
    obtain ⟨scope, hscope⟩ := LocalScopes.afterAll_cons body (parameterScope params) r.scopes
    have hbody' := hbody.within r.scopes
    exact leave_eq ((congrArg Resolution.scopes hbody.eq).trans hscope) ▸ hbody'

/-- Methods that are resolved without errors yield their sites. -/
theorem FunctionDecl.resolveMethods_yields (around : Surroundings) : (ds : List FunctionDecl) →
    FunctionDecl.AllWellFormed ds → (r : Resolution) → r.scopes.Complete →
    (FunctionDecl.resolveMethods around ds r).errors = r.errors →
    Yields r (FunctionDecl.resolveMethods around ds r) (FunctionDecl.sitesAll ds r.scopes) r.scopes
      (fun plan => FunctionDecl.AllResolved plan ds r.scopes)
  | [], _, r, _, _ =>
    ⟨by simp [FunctionDecl.resolveMethods, FunctionDecl.sitesAll, advance],
      by simp [FunctionDecl.sitesAll], fun _ _ => trivial⟩
  | d :: rest, ⟨hd, hrest⟩, r, hscopes, h => by
    have hfirst := d.resolve_yields _ hd r hscopes
      ((d.resolve_extends _ r).errors_eq (FunctionDecl.resolveMethods_extends around rest _) h)
    exact hfirst.then h (FunctionDecl.resolveMethods_yields around rest hrest _ hscopes)

end

namespace LocalScopes

/-- Outside all scopes a declaration leaves no trace. -/
theorem after_nil (s : Stmt) : LocalScopes.after s [] = [] := by
  unfold after
  cases s.declared? <;> rfl

/-- At the top level, a statement is resolved in no scopes. -/
theorem entering_nil (s : Stmt) : LocalScopes.entering s [] = [] := by
  unfold entering
  cases s.declared? <;> rfl

/-- At the top level, statements are resolved in no scopes. -/
theorem afterAll_nil (ss : List Stmt) : LocalScopes.afterAll ss [] = [] := by
  induction ss with
  | nil => rfl
  | cons s rest ih =>
    rw [afterAll, List.foldl_cons, after_nil]
    exact ih

end LocalScopes

/-- A well-formed program that is resolved without errors records its sites, and is resolved. -/
theorem resolve_yields (program : List Stmt) (hwf : Stmt.AllWellFormed program)
    (h : (resolve program).errors = []) :
    Yields .empty (resolve program) (Stmt.sitesAll program []) []
      (fun plan => Stmt.AllResolved plan program []) := by
  have hyields := Stmt.resolveAll_yields .topLevel program hwf .empty (fun _ h => by cases h) h
  rwa [show Resolution.empty.scopes = [] from rfl, LocalScopes.afterAll_nil] at hyields

end Lox
