import Lox.Proofs.Renaming.Resolution
import Lox.Proofs.Resolution.Verdict

/-!
# Alike trees are resolved alike

If a tree is resolved without errors, then so is a tree that is like it, and the same distances are
recorded. The uses of the first tree must have been recorded with the distances that they have in it,
because by these they are renamed.
-/

set_option autoImplicit false
-- the theorems of a mutual block share their assumptions, also where one passes them on only
set_option linter.unusedSectionVars false

namespace Lox

open Resolution

/-- Every site has the distance that it was renamed by. -/
def Renaming.Knows (r : Renaming) (sites : List Site) : Prop :=
  ∀ site ∈ sites, r.distances.get? site.id = site.distance?

/-- The sites of two lists are known together if those of both are. -/
theorem Renaming.knows_append {r : Renaming} {sites sites' : List Site} :
    r.Knows (sites ++ sites') ↔ r.Knows sites ∧ r.Knows sites' := List.forall_mem_append

variable {r : Renaming} {marks : Marks}

section Expressions

variable (around : Surroundings) (pending : Option String) (hthis : r.SparesThis)
include hthis

mutual

/-- An expression that is resolved without errors is so under the other names as well, at the same distances. -/
theorem Expr.resolve_renamed : (e : Expr) → e.Clear r → {r₁ r₂ : Resolution} → Renamed r marks r₁ r₂ →
    (e.resolve around r₁).errors = [] → r.Knows (e.sites r₁.scopes pending) →
    Renamed r marks (e.resolve around r₁) ((e.rename r marks).resolve around r₂)
  | .literal _, _, _, _, h, _, _ => h
  | .grouping inner, hclear, _, _, h, hclean, hknows => inner.resolve_renamed hclear h hclean hknows
  | .unary _ right, hclear, _, _, h, hclean, hknows => right.resolve_renamed hclear h hclean hknows
  | .binary left _ right, hclear, r₁, _, h, hclean, hknows => by
    obtain ⟨hleft, hright⟩ := Renaming.knows_append.mp hknows
    rw [← left.resolve_scopes around r₁] at hright
    exact right.resolve_renamed hclear.2 (left.resolve_renamed hclear.1 h
      ((right.resolve_extends around _).clean hclean) hleft) hclean hright
  | .logical left _ right, hclear, r₁, _, h, hclean, hknows => by
    obtain ⟨hleft, hright⟩ := Renaming.knows_append.mp hknows
    rw [← left.resolve_scopes around r₁] at hright
    exact right.resolve_renamed hclear.2 (left.resolve_renamed hclear.1 h
      ((right.resolve_extends around _).clean hclean) hleft) hclean hright
  | .variable id name, hclear, r₁, r₂, h, hclean, hknows => by
    have hrecorded : r.distances.get? id = distance? name.lexeme r₁.scopes :=
      hknows _ (List.mem_singleton_self _)
    have hpending := h.isPending hclear hrecorded
    rw [Expr.resolve] at hclean
    rw [Expr.rename, Expr.resolve, Expr.resolve, hpending]
    cases hread : r₁.isPending name.lexeme with
    | false => exact h.locate id hclear hrecorded
    | true =>
      rw [hread] at hclean
      have hreported : (r₁.report name .ownInitializer).errors = [] :=
        (locate_extends (r₁.report name .ownInitializer) id name).clean hclean
      simp [report] at hreported
  | .assign id name value, hclear, r₁, _, h, hclean, hknows => by
    obtain ⟨hvalue, hname⟩ := Renaming.knows_append.mp hknows
    have hrenamed := value.resolve_renamed hclear.2 h ((locate_extends _ id name).clean hclean) hvalue
    refine hrenamed.locate id hclear.1 ?_
    rw [value.resolve_scopes around r₁]
    exact hname _ (List.mem_singleton_self _)
  | .call callee _ arguments, hclear, r₁, _, h, hclean, hknows => by
    obtain ⟨hcallee, harguments⟩ := Renaming.knows_append.mp hknows
    rw [← callee.resolve_scopes around r₁] at harguments
    exact Expr.resolveAll_renamed arguments hclear.2 (callee.resolve_renamed hclear.1 h
      ((Expr.resolveAll_extends around arguments _).clean hclean) hcallee) hclean harguments
  | .get object _, hclear, _, _, h, hclean, hknows => object.resolve_renamed hclear h hclean hknows
  | .set object _ value, hclear, r₁, _, h, hclean, hknows => by
    obtain ⟨hvalue, hobject⟩ := Renaming.knows_append.mp hknows
    rw [← value.resolve_scopes around r₁] at hobject
    exact object.resolve_renamed hclear.1 (value.resolve_renamed hclear.2 h
      ((object.resolve_extends around _).clean hclean) hvalue) hclean hobject
  | .this id keyword, hclear, _, _, h, hclean, _ => by
    rw [Expr.resolve] at hclean ⊢
    rw [Expr.rename, Expr.resolve]
    cases hclass : around.inClass with
    | true => exact h.locate_this hthis id hclear
    | false => simp [hclass, report] at hclean

/-- Expressions that are resolved without errors are so under the other names as well. -/
theorem Expr.resolveAll_renamed : (es : List Expr) → Expr.AllClear r es → {r₁ r₂ : Resolution} →
    Renamed r marks r₁ r₂ → (Expr.resolveAll around es r₁).errors = [] →
    r.Knows (Expr.sitesAll r₁.scopes pending es) →
    Renamed r marks (Expr.resolveAll around es r₁) (Expr.resolveAll around (Expr.renameAll r marks es) r₂)
  | [], _, _, _, h, _, _ => h
  | e :: rest, hclear, r₁, _, h, hclean, hknows => by
    obtain ⟨hfirst, hrest⟩ := Renaming.knows_append.mp hknows
    rw [← e.resolve_scopes around r₁] at hrest
    exact Expr.resolveAll_renamed rest hclear.2 (e.resolve_renamed hclear.1 h
      ((Expr.resolveAll_extends around rest _).clean hclean) hfirst) hclean hrest

end

/-- An optional expression that is resolved without errors is so under the other names as well. -/
theorem Expr.resolveOption_renamed (e : Option Expr) (hclear : ∀ e' ∈ e, e'.Clear r)
    {r₁ r₂ : Resolution} (h : Renamed r marks r₁ r₂)
    (hclean : (Expr.resolveOption around e r₁).errors = [])
    (hknows : r.Knows (Expr.sitesOption r₁.scopes pending e)) :
    Renamed r marks (Expr.resolveOption around e r₁)
      (Expr.resolveOption around (e.map (·.rename r marks)) r₂) := by
  cases e with
  | none => exact h
  | some e => exact e.resolve_renamed around pending hthis (hclear e rfl) h hclean hknows

end Expressions

section Statements

variable (hthis : r.SparesThis)
include hthis

mutual

/-- A statement that is like one without errors has none, and records the same distances. -/
theorem Stmt.Alike.resolve_renamed {s s' : Stmt} {marks : Marks} : Stmt.Alike r marks s s' →
    (around : Surroundings) → s.WellFormed → {r₁ r₂ : Resolution} → Renamed r marks r₁ r₂ →
    r₁.scopes.Complete → (s.resolve around r₁).errors = [] → r.Knows (s.sites r₁.scopes) →
    Renamed r marks (s.resolve around r₁) (s'.resolve around r₂)
  | @Stmt.Alike.expression _ _ e hclear, around, _, _, _, h, _, hclean, hknows =>
    e.resolve_renamed around none hthis hclear h hclean hknows
  | @Stmt.Alike.print _ _ e hclear, around, _, _, _, h, _, hclean, hknows =>
    e.resolve_renamed around none hthis hclear h hclean hknows
  | @Stmt.Alike.variable _ _ name initial hname hinitial, around, _, r₁, _, h, _, hclean, hknows => by
    have hvalue := (define_extends _ [] name).clean hclean
    have hdeclared := (Expr.resolveOption_extends around initial _).clean hvalue
    rw [Stmt.sites, ← declare_scopes r₁ name] at hknows
    exact (Expr.resolveOption_renamed around (some name.lexeme) hthis initial hinitial
      (h.declare hname hdeclared) hvalue hknows).define hname
  | @Stmt.Alike.block _ _ _ _ _ hbody, around, hwf, _, _, h, hscopes, hclean, hknows =>
    (hbody.resolve_renamed around hwf (h.enter rfl fun _ => rfl)
      (hscopes.cons (by simp [Bindings.get?])) ((leave_extends _ []).clean hclean) hknows).leave
  | @Stmt.Alike.conditional _ _ condition thenBranch _ hclear hthen, around, hwf, r₁, _, h, hscopes,
      hclean, hknows => by
    obtain ⟨hcondition, hknows⟩ := Renaming.knows_append.mp hknows
    rw [← condition.resolve_scopes around r₁] at hknows hscopes
    exact hthen.resolve_renamed around hwf.2.2 (condition.resolve_renamed around none hthis hclear h
      ((thenBranch.resolve_extends around _).clean hclean) hcondition) hscopes hclean hknows
  | @Stmt.Alike.conditionalElse _ _ condition thenBranch _ elseBranch _ hclear hthen helse, around, hwf,
      r₁, _, h, hscopes, hclean, hknows => by
    obtain ⟨hboth, hknows⟩ := Renaming.knows_append.mp hknows
    obtain ⟨hcondition, hknows'⟩ := Renaming.knows_append.mp hboth
    have hcleanThen := (elseBranch.resolve_extends around _).clean hclean
    rw [← condition.resolve_scopes around r₁] at hknows' hknows hscopes
    have hthen' := hthen.resolve_renamed around hwf.2.1.2 (condition.resolve_renamed around none hthis
      hclear h ((thenBranch.resolve_extends around _).clean hcleanThen) hcondition) hscopes hcleanThen
      hknows'
    -- neither branch declares anything
    have hafter := Stmt.resolve_scopes hwf.2.1.2 around (condition.resolve around r₁)
    rw [LocalScopes.after_of_not_declared hwf.2.1.1] at hafter
    rw [← hafter] at hknows hscopes
    exact helse.resolve_renamed around hwf.2.2.2 hthen' hscopes hclean hknows
  | @Stmt.Alike.loop _ _ condition body _ hclear hbody, around, hwf, r₁, _, h, hscopes, hclean,
      hknows => by
    obtain ⟨hcondition, hknows⟩ := Renaming.knows_append.mp hknows
    rw [← condition.resolve_scopes around r₁] at hknows hscopes
    exact hbody.resolve_renamed around hwf.2.2 (condition.resolve_renamed around none hthis hclear h
      ((body.resolve_extends around _).clean hclean) hcondition) hscopes hclean hknows
  | @Stmt.Alike.function _ _ d d' hname hd, around, hwf, r₁, _, h, hscopes, hclean, hknows => by
    have hdeclared := (d.resolve_extends _ _).clean hclean
    have hintroduced := h.introduce hname.1 hdeclared
    rw [hname.token] at hintroduced
    have heq := congrArg Resolution.scopes (introduce_clean r₁ d.name
      ((introduce_extends r₁ [] d.name).clean_eq hdeclared)).2
    rw [Stmt.resolve, Stmt.resolve, hd.name_eq]
    exact hd.resolve_renamed _ hwf hintroduced (heq ▸ hscopes.complete _) hclean (heq ▸ hknows)
  | @Stmt.Alike.return _ _ keyword value hvalue, around, _, r₁, _, h, _, hclean, hknows => by
    have hchecked := (Expr.resolveOption_extends around value _).clean hclean
    have heq := congrArg Resolution.scopes (checkReturn_clean r₁ around keyword value.isSome
      ((checkReturn_extends r₁ [] around keyword _).clean_eq hchecked))
    have hrenamed := Expr.resolveOption_renamed around none hthis value hvalue
      (h.checkReturn hchecked) hclean (heq ▸ hknows)
    rw [Stmt.resolve, Stmt.resolve, Option.isSome_map]
    exact hrenamed
  | @Stmt.Alike.class _ _ name methods _ hname hmethods, around, hwf, r₁, _, h, hscopes, hclean,
      hknows => by
    have hentered := (FunctionDecl.resolveMethods_extends _ methods _).clean
      ((leave_extends _ []).clean hclean)
    have hdeclared := (enter_extends (r₁.introduce name) [] [(thisName, true)]).clean hentered
    have hintroduced := h.introduce hname.1 hdeclared
    rw [hname.token] at hintroduced
    have heq := congrArg Resolution.scopes (introduce_clean r₁ name
      ((introduce_extends r₁ [] name).clean_eq hdeclared)).2
    have hnew : Bindings.get? r.new [(thisName, true)] = none := by
      rw [Bindings.get?, if_neg hthis.2.symm, Bindings.get?]
    have hscopes' : ((r₁.introduce name).enter [(thisName, true)]).scopes =
        [(thisName, true)] :: r₁.scopes.complete name.lexeme := congrArg _ heq
    refine (hmethods.resolve_renamed _ hwf (hintroduced.enter hnew fun x => ?_) ?_
      ((leave_extends _ []).clean hclean) ?_).leave
    · rw [r.key_false]
    · rw [hscopes']
      exact (hscopes.complete _).cons (by simp [Bindings.get?])
    · rw [hscopes']
      exact hknows

/-- Statements that are alike are resolved alike, if the first ones are without errors. -/
theorem Stmt.AllAlike.resolve_renamed {ss ss' : List Stmt} {marks : Marks} :
    Stmt.AllAlike r marks ss ss' → (around : Surroundings) → Stmt.AllWellFormed ss →
    {r₁ r₂ : Resolution} → Renamed r marks r₁ r₂ → r₁.scopes.Complete →
    (Stmt.resolveAll around ss r₁).errors = [] → r.Knows (Stmt.sitesAll ss r₁.scopes) →
    Renamed r marks (Stmt.resolveAll around ss r₁) (Stmt.resolveAll around ss' r₂)
  | .nil, _, _, _, _, h, _, _, _ => h
  | @Stmt.AllAlike.cons _ _ s _ rest _ hs hrest, around, hwf, r₁, _, h, hscopes, hclean, hknows => by
    obtain ⟨hfirst, hknows⟩ := Renaming.knows_append.mp hknows
    have hcleanFirst := (Stmt.resolveAll_extends around rest _).clean hclean
    have hafter := Stmt.resolve_scopes hwf.1 around r₁
    exact hrest.resolve_renamed around hwf.2
      (hs.resolve_renamed around hwf.1 h hscopes hcleanFirst hfirst)
      (hafter ▸ hscopes.after s) hclean (hafter ▸ hknows)

/-- Functions that are alike are resolved alike, if the first one is without errors. -/
theorem FunctionDecl.Alike.resolve_renamed {d d' : FunctionDecl} {marks : Marks} :
    FunctionDecl.Alike r marks d d' → (around : Surroundings) → d.WellFormed →
    {r₁ r₂ : Resolution} → Renamed r marks r₁ r₂ → r₁.scopes.Complete →
    (d.resolve around r₁).errors = [] → r.Knows (d.sites r₁.scopes) →
    Renamed r marks (d.resolve around r₁) (d'.resolve around r₂)
  | @FunctionDecl.Alike.mk _ marks marked _ params body _ hparams hbody, around, hwf, r₁, r₂, h,
      hscopes, hclean, hknows => by
    have hcleanBody := (leave_extends _ []).clean hclean
    have hcleanParams := (Stmt.resolveAll_extends around body _).clean hcleanBody
    have hentered : Renamed r (marks.enter marked) (r₁.enter []) (r₂.enter []) :=
      h.enter rfl fun _ => rfl
    have heq := congrArg Resolution.scopes (introduceAll_clean (r₁.enter []) params [] r₁.scopes rfl
      ((introduceAll_extends (r₁.enter []) [] params).clean_eq hcleanParams))
    exact (hbody.resolve_renamed around hwf (hentered.introduceAll params hparams hcleanParams)
      (heq ▸ hscopes.cons (parameterScope_complete params)) hcleanBody (heq ▸ hknows)).leave

/-- Methods that are alike are resolved alike, if the first ones are without errors. -/
theorem FunctionDecl.AllAlike.resolve_renamed {ds ds' : List FunctionDecl} {marks : Marks} :
    FunctionDecl.AllAlike r marks ds ds' → (around : Surroundings) → FunctionDecl.AllWellFormed ds →
    {r₁ r₂ : Resolution} → Renamed r marks r₁ r₂ → r₁.scopes.Complete →
    (FunctionDecl.resolveMethods around ds r₁).errors = [] →
    r.Knows (FunctionDecl.sitesAll ds r₁.scopes) →
    Renamed r marks (FunctionDecl.resolveMethods around ds r₁)
      (FunctionDecl.resolveMethods around ds' r₂)
  | .nil, _, _, _, _, h, _, _, _ => h
  | @FunctionDecl.AllAlike.cons _ _ d d' rest rest' hd hrest, around, hwf, r₁, _, h, hscopes, hclean,
      hknows => by
    obtain ⟨hfirst, hknows⟩ := Renaming.knows_append.mp hknows
    have hcleanFirst := (FunctionDecl.resolveMethods_extends around rest _).clean hclean
    have hafter := d.resolve_scopes
      { around with body := if d.isInitializer then .initializer else .function } r₁
    rw [FunctionDecl.resolveMethods, FunctionDecl.resolveMethods, hd.isInitializer_eq]
    exact hrest.resolve_renamed around hwf.2
      (hd.resolve_renamed _ hwf.1 h hscopes hcleanFirst hfirst)
      (hafter ▸ hscopes) hclean (hafter ▸ hknows)

end

/-- A program that is like one without errors has none, and records the same distances. -/
theorem resolve_renamed {program program' : List Stmt} (halike : Stmt.AllAlike r .none program program')
    (hwf : Stmt.AllWellFormed program) (hclean : (resolve program).errors = [])
    (hknows : r.Knows (Stmt.sitesAll program [])) :
    (resolve program').errors = [] ∧ (resolve program').distances = (resolve program).distances := by
  have hstart : Renamed r .none .empty .empty := ⟨trivial, rfl, rfl, rfl⟩
  have hrenamed := halike.resolve_renamed hthis .topLevel hwf hstart (fun _ h => by cases h) hclean hknows
  exact ⟨hrenamed.clean', hrenamed.distances⟩

end Statements

end Lox
