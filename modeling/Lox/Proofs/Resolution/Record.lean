import Lox.Proofs.Resolution.Growth

/-!
# What resolution without errors says

A resolution that reports nothing has recorded exactly the distances of the sites of the tree, in their
order, and leaves the scopes that the declarations of the tree make. The tree is then resolved in the
sense of `Stmt.Resolved`, on any list that holds its sites.
-/

set_option autoImplicit false

namespace Lox

namespace Resolution

/-- Records the distances of sites. -/
def record (sites : List Site) (r : Resolution) : Resolution :=
  { r with distances := r.distances ++ sites.filterMap Site.entry? }

variable (r : Resolution)

/-- No sites record nothing. -/
@[simp] theorem record_nil : r.record [] = r := by simp [record]

/-- Sites are recorded one after the other, or all together. -/
@[simp] theorem record_record (sites sites' : List Site) :
    (r.record sites).record sites' = r.record (sites ++ sites') := by
  simp [record]

/-- Recording sites leaves the scopes alone. -/
@[simp] theorem record_scopes (sites : List Site) : (r.record sites).scopes = r.scopes := rfl

/-- Recording sites reports nothing. -/
@[simp] theorem record_errors (sites : List Site) : (r.record sites).errors = r.errors := rfl

/-- Locating a use records its site. -/
theorem locate_eq_record (id : Occurrence) (name : Token) (initializing : Option String)
    (assigns : Bool) :
    r.locate id name = r.record [⟨id, name.lexeme, r.scopes, initializing, assigns⟩] := by
  unfold locate record
  simp only [List.filterMap_cons, List.filterMap_nil, Site.entry?, Site.distance?]
  cases distance? name.lexeme r.scopes <;> simp

/-- A declaration puts its name into the innermost scope. -/
theorem declare_scopes (name : Token) : (r.declare name).scopes = r.scopes.declare name.lexeme := by
  unfold declare LocalScopes.declare
  cases hr : r.scopes with
  | nil => simp [hr]
  | cons scope outer =>
    cases hb : scope.binds name.lexeme <;> simp [hb, report, hr]

/-- A declaration that is not reported finds its name free, and changes nothing but the scopes. -/
theorem declare_clean (name : Token) (h : (r.declare name).errors = r.errors) :
    r.scopes.Lacks name.lexeme ∧
      r.declare name = { r with scopes := r.scopes.declare name.lexeme } := by
  unfold declare at h ⊢
  cases hr : r.scopes with
  | nil =>
    refine ⟨trivial, ?_⟩
    simp only [LocalScopes.declare]
    rw [← hr]
  | cons scope outer =>
    rw [hr] at h
    cases hb : scope.binds name.lexeme with
    | false =>
      have hlacks : scope.get? name.lexeme = none := by simpa [Bindings.binds] using hb
      exact ⟨hlacks, by simp [hb, LocalScopes.declare]⟩
    | true => simp [hb, report] at h

/-- Completing a declaration only changes the scopes. -/
theorem define_eq (name : Token) :
    r.define name = { r with scopes := r.scopes.complete name.lexeme } := by
  unfold define LocalScopes.complete
  cases hr : r.scopes with
  | nil => simp [← hr]
  | cons scope outer => rfl

/-- A function or class that is not reported finds its name free. -/
theorem introduce_clean (name : Token) (h : (r.introduce name).errors = r.errors) :
    r.scopes.Lacks name.lexeme ∧
      r.introduce name = { r with scopes := r.scopes.complete name.lexeme } := by
  rw [introduce, define_eq] at h ⊢
  obtain ⟨hlacks, heq⟩ := declare_clean r name h
  refine ⟨hlacks, ?_⟩
  rw [heq]
  simp [LocalScopes.complete_declare]

/-- Parameters make their scope. -/
theorem introduceAll_clean (params : List Token) (scope : Bindings Bool) (outer : LocalScopes)
    (hr : r.scopes = scope :: outer)
    (h : (params.foldl (fun r p => r.introduce p) r).errors = r.errors) :
    params.foldl (fun r p => r.introduce p) r =
      { r with scopes := params.foldl (fun scope p => scope.put p.lexeme true) scope :: outer } := by
  induction params generalizing r scope with
  | nil => simp [← hr]
  | cons p rest ih =>
    have hfirst := (introduce_extends r [] p).errors_eq (introduceAll_extends _ [] rest) h
    have heq := (introduce_clean r p hfirst).2
    simp only [List.foldl_cons] at h ⊢
    rw [heq] at h ⊢
    rw [ih _ (scope.put p.lexeme true) (by simp [hr, LocalScopes.complete]) h]

/-- A check that is not reported changes nothing. -/
theorem checkReturn_clean (around : Surroundings) (keyword : Token) (hasValue : Bool)
    (h : (checkReturn around keyword hasValue r).errors = r.errors) :
    checkReturn around keyword hasValue r = r := by
  unfold checkReturn at h ⊢
  split at h
  · simp [report] at h
  · split at h
    · simp [report] at h
    · simp_all
  · rfl

/-- A variable that is read where nothing is reported has a complete declaration. -/
theorem isPending_eq_false {name : String} {pending : Option String}
    (hscopes : r.scopes.CompleteBut pending) (h : r.isPending name = false) :
    r.scopes.status? name ≠ some false := by
  unfold isPending at h
  cases hr : r.scopes with
  | nil => simp [LocalScopes.status?]
  | cons scope outer =>
    rw [hr] at h hscopes
    cases hget : scope.get? name with
    | none =>
      simpa [LocalScopes.status?, hget] using hscopes.2.status?_ne name
    | some status =>
      have hne : status ≠ false := by simpa [hget] using h
      simpa [LocalScopes.status?, hget] using hne

/-- Only the variable that is being declared has no complete declaration. -/
theorem status?_eq_false {scopes : LocalScopes} {pending : Option String} {name : String}
    (hscopes : scopes.CompleteBut pending) (h : scopes.status? name = some false) :
    pending = some name := by
  cases scopes with
  | nil => simp [LocalScopes.status?] at h
  | cons scope outer =>
    cases hget : scope.get? name with
    | none =>
      rw [LocalScopes.status?, hget] at h
      exact absurd h (hscopes.2.status?_ne name)
    | some status =>
      rw [LocalScopes.status?, hget] at h
      exact hscopes.1 name (by rw [hget]; exact h)

end Resolution

open Resolution

/-- A use leaves the scopes alone. -/
theorem Resolution.locate_scopes (id : Occurrence) (name : Token) (r : Resolution) :
    (r.locate id name).scopes = r.scopes := by
  rw [locate_eq_record r id name none false, record_scopes]

mutual

/-- Expressions open no scopes and declare nothing. -/
theorem Expr.resolve_scopes (around : Surroundings) : (e : Expr) → (r : Resolution) →
    (e.resolve around r).scopes = r.scopes
  | .literal _, _ => rfl
  | .grouping inner, r => inner.resolve_scopes around r
  | .unary _ right, r => right.resolve_scopes around r
  | .binary left _ right, r => (right.resolve_scopes around _).trans (left.resolve_scopes around r)
  | .logical left _ right, r => (right.resolve_scopes around _).trans (left.resolve_scopes around r)
  | .variable id name, r => by
    rw [Expr.resolve, locate_scopes]
    split <;> rfl
  | .assign id name value, r => (locate_scopes id name _).trans (value.resolve_scopes around r)
  | .call callee _ arguments, r =>
    (Expr.resolveAll_scopes around arguments _).trans (callee.resolve_scopes around r)
  | .get object _, r => object.resolve_scopes around r
  | .set object _ value, r => (object.resolve_scopes around _).trans (value.resolve_scopes around r)
  | .this id keyword, r => by
    rw [Expr.resolve]
    split
    · exact locate_scopes id keyword r
    · rfl

/-- Expressions leave the scopes alone. -/
theorem Expr.resolveAll_scopes (around : Surroundings) : (es : List Expr) → (r : Resolution) →
    (Expr.resolveAll around es r).scopes = r.scopes
  | [], _ => rfl
  | e :: rest, r => (Expr.resolveAll_scopes around rest _).trans (e.resolve_scopes around r)

end

/-- A step that reports nothing only records the given sites, all of them settled. -/
def Records (pending : Option String) (step : Resolution → Resolution)
    (sites : LocalScopes → List Site) : Prop :=
  ∀ r : Resolution, r.scopes.CompleteBut pending → (step r).errors = r.errors →
    step r = r.record (sites r.scopes) ∧ ∀ site ∈ sites r.scopes, site.Settled

/-- Two steps record what the first records and then what the second records. -/
theorem Records.then {pending : Option String} {first second : Resolution → Resolution}
    {sites sites' : LocalScopes → List Site} {ids ids' : List Occurrence}
    (hfirst : Records pending first sites) (hsecond : Records pending second sites')
    (hgrown : ∀ r, Extends ids r (first r)) (hgrown' : ∀ r, Extends ids' r (second r)) :
    Records pending (fun r => second (first r)) (fun scopes => sites scopes ++ sites' scopes) := by
  intro r hscopes hclean
  obtain ⟨heq, hsettled⟩ := hfirst r hscopes ((hgrown r).errors_eq (hgrown' (first r)) hclean)
  simp only [heq] at hclean ⊢
  obtain ⟨heq', hsettled'⟩ := hsecond (r.record (sites r.scopes)) hscopes hclean
  rw [heq', record_record]
  exact ⟨rfl, List.forall_mem_append.mpr ⟨hsettled, hsettled'⟩⟩

/-- Locating a use records its site, if that is settled. -/
theorem locate_records (pending : Option String) (id : Occurrence) (name : Token) (assigns : Bool)
    (hsettled : ∀ scopes : LocalScopes, scopes.CompleteBut pending →
      Site.Settled ⟨id, name.lexeme, scopes, pending, assigns⟩) :
    Records pending (locate id name)
      (fun scopes => [⟨id, name.lexeme, scopes, pending, assigns⟩]) := by
  intro r hscopes _
  refine ⟨locate_eq_record r id name pending assigns, fun site hsite => ?_⟩
  rw [List.mem_singleton.mp hsite]
  exact hsettled r.scopes hscopes

mutual

/-- An expression that is resolved without errors records its sites. -/
theorem Expr.resolve_records (around : Surroundings) (pending : Option String)
    (hpending : pending ≠ some thisName) : (e : Expr) → e.WellFormed →
    Records pending (e.resolve around) (fun scopes => e.sites scopes pending)
  | .literal _, _ => fun r _ _ => by simp [Expr.resolve, Expr.sites]
  | .grouping inner, hwf => inner.resolve_records around pending hpending hwf
  | .unary _ right, hwf => right.resolve_records around pending hpending hwf
  | .binary left _ right, ⟨hleft, hright⟩ =>
    (left.resolve_records around pending hpending hleft).then
      (right.resolve_records around pending hpending hright)
      (left.resolve_extends around) (right.resolve_extends around)
  | .logical left _ right, ⟨hleft, hright⟩ =>
    (left.resolve_records around pending hpending hleft).then
      (right.resolve_records around pending hpending hright)
      (left.resolve_extends around) (right.resolve_extends around)
  | .variable id name, _ => by
    intro r hscopes h
    rw [Expr.resolve] at h ⊢
    cases hread : r.isPending name.lexeme with
    | true =>
      have hgrown := (locate_extends (r.report name .ownInitializer) id name).errors.length_le
      simp only [hread, if_true] at h
      rw [h, report, List.length_append] at hgrown
      exact absurd hgrown (by simp)
    | false =>
      rw [if_neg (by simp), locate_eq_record r id name pending false]
      refine ⟨rfl, fun site hsite => ?_⟩
      rw [List.mem_singleton.mp hsite]
      exact fun hstatus => absurd hstatus (r.isPending_eq_false hscopes hread)
  | .assign id name value, hwf =>
    (value.resolve_records around pending hpending hwf).then
      (locate_records pending id name true
        (fun _ hscopes hstatus => ⟨rfl, status?_eq_false hscopes hstatus⟩))
      (value.resolve_extends around) (fun r => locate_extends r id name)
  | .call callee _ arguments, ⟨hcallee, harguments⟩ =>
    (callee.resolve_records around pending hpending hcallee).then
      (Expr.resolveAll_records around pending hpending arguments harguments)
      (callee.resolve_extends around) (Expr.resolveAll_extends around arguments)
  | .get object _, hwf => object.resolve_records around pending hpending hwf
  | .set object _ value, ⟨hobject, hvalue⟩ =>
    (value.resolve_records around pending hpending hvalue).then
      (object.resolve_records around pending hpending hobject)
      (value.resolve_extends around) (object.resolve_extends around)
  | .this id keyword, hwf => by
    intro r hscopes h
    rw [Expr.resolve] at h ⊢
    cases hclass : around.inClass with
    | false => simp [hclass, report] at h
    | true =>
      -- `this` has a complete declaration, because no variable takes its name
      refine locate_records pending id keyword false (fun scopes hscopes hstatus => ?_) r hscopes ?_
      · rw [Expr.WellFormed] at hwf
        rw [hwf] at hstatus
        exact absurd (status?_eq_false hscopes hstatus) hpending
      · simpa [hclass] using h

/-- Expressions that are resolved without errors record their sites. -/
theorem Expr.resolveAll_records (around : Surroundings) (pending : Option String)
    (hpending : pending ≠ some thisName) : (es : List Expr) → Expr.AllWellFormed es →
    Records pending (Expr.resolveAll around es) (fun scopes => Expr.sitesAll scopes pending es)
  | [], _ => fun r _ _ => by simp [Expr.resolveAll, Expr.sitesAll]
  | e :: rest, ⟨hfirst, hrest⟩ =>
    (e.resolve_records around pending hpending hfirst).then
      (Expr.resolveAll_records around pending hpending rest hrest)
      (e.resolve_extends around) (Expr.resolveAll_extends around rest)

end

/-- An expression that may be missing records its sites. -/
theorem Expr.resolveOption_records (around : Surroundings) (pending : Option String)
    (hpending : pending ≠ some thisName) (e : Option Expr) (hwf : ∀ e' ∈ e, e'.WellFormed) :
    Records pending (Expr.resolveOption around e)
      (fun scopes => Expr.sitesOption scopes pending e) := by
  cases e with
  | none => exact fun r _ _ => by simp [Expr.resolveOption, Expr.sitesOption]
  | some e => exact e.resolve_records around pending hpending (hwf e rfl)

end Lox
