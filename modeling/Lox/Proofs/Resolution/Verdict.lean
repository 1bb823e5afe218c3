import Lox.Proofs.Resolution.Rules

/-!
# What resolution reports

The walk through statements, brought down to the rules. Behind a statement the scopes are those before it
with its declarations completed, whatever was reported; and nothing is reported for it exactly if its
declarations can be made and its parts are in order within its surroundings.
-/

set_option autoImplicit false

namespace Lox

open Resolution

mutual

/-- A statement completes its declarations in the innermost scope, also where it is reported. -/
theorem Stmt.resolve_completes (around : Surroundings) : (s : Stmt) → (r : Resolution) →
    (s.resolve around r).scopes = r.scopes.completeAll s.declarations
  | .expression expr, r => expr.resolve_scopes around r
  | .print expr, r => expr.resolve_scopes around r
  | .variable name initial, r => by
    rw [Stmt.resolve, define_scopes, Expr.resolveOption_scopes, declare_scopes,
      LocalScopes.complete_declare]
    rfl
  | .block body, r => by
    rw [Stmt.resolve, leave, Stmt.resolveAll_completes around body, LocalScopes.completeAll_tail]
    rfl
  | .conditional condition thenBranch none, r =>
    (thenBranch.resolve_completes around _).trans (by rw [condition.resolve_scopes around r]; rfl)
  | .conditional condition thenBranch (some elseBranch), r => by
    rw [Stmt.resolve, elseBranch.resolve_completes around, thenBranch.resolve_completes around,
      condition.resolve_scopes around, Stmt.declarations, LocalScopes.completeAll_append]
  | .loop condition body, r =>
    (body.resolve_completes around _).trans (by rw [condition.resolve_scopes around r]; rfl)
  | .function declaration, r =>
    (declaration.resolve_scopes _ _).trans (introduce_scopes r declaration.name)
  | .return keyword value, r => by
    rw [Stmt.resolve, Expr.resolveOption_scopes, checkReturn_scopes]
    rfl
  | .class name methods, r => by
    rw [Stmt.resolve, leave, FunctionDecl.resolveMethods_scopes]
    exact introduce_scopes r name

/-- Behind statements, the declarations that they make are complete. -/
theorem Stmt.resolveAll_completes (around : Surroundings) : (ss : List Stmt) → (r : Resolution) →
    (Stmt.resolveAll around ss r).scopes = r.scopes.completeAll (Stmt.declarationsAll ss)
  | [], _ => rfl
  | s :: rest, r => by
    rw [Stmt.resolveAll, Stmt.resolveAll_completes around rest, s.resolve_completes around,
      Stmt.declarationsAll, LocalScopes.completeAll_append]

/-- A function leaves the scopes alone. -/
theorem FunctionDecl.resolve_scopes (around : Surroundings) : (d : FunctionDecl) → (r : Resolution) →
    (d.resolve around r).scopes = r.scopes
  | ⟨_, params, body⟩, r => by
    rw [FunctionDecl.resolve, leave, Stmt.resolveAll_completes around body, LocalScopes.completeAll_tail,
      introduceAll_scopes, LocalScopes.completeAll_tail]
    rfl

/-- Methods leave the scopes alone. -/
theorem FunctionDecl.resolveMethods_scopes (around : Surroundings) : (ds : List FunctionDecl) →
    (r : Resolution) → (FunctionDecl.resolveMethods around ds r).scopes = r.scopes
  | [], _ => rfl
  | d :: rest, r =>
    (FunctionDecl.resolveMethods_scopes around rest _).trans (d.resolve_scopes _ r)

end

/-- A well-formed statement declares no name but its own, since its branches declare none. -/
theorem Stmt.declarations_eq : (s : Stmt) → s.WellFormed → s.declarations = s.declared?.toList
  | .expression _, _ => rfl
  | .print _, _ => rfl
  | .variable _ _, _ => rfl
  | .block _, _ => rfl
  | .conditional _ thenBranch none, ⟨_, hdeclared, hthen⟩ => by
    rw [Stmt.declarations, thenBranch.declarations_eq hthen, hdeclared]
    rfl
  | .conditional _ thenBranch (some elseBranch), ⟨_, ⟨hdeclared, hthen⟩, hdeclared', helse⟩ => by
    rw [Stmt.declarations, thenBranch.declarations_eq hthen, elseBranch.declarations_eq helse,
      hdeclared, hdeclared']
    rfl
  | .loop _ body, ⟨_, hdeclared, hbody⟩ => by
    rw [Stmt.declarations, body.declarations_eq hbody, hdeclared]
    rfl
  | .function _, _ => rfl
  | .return _ _, _ => rfl
  | .class _ _, _ => rfl

/-- Behind a well-formed statement the scopes are those that its declaration makes. -/
theorem Stmt.resolve_scopes {s : Stmt} (hwf : s.WellFormed) (around : Surroundings) (r : Resolution) :
    (s.resolve around r).scopes = r.scopes.after s := by
  rw [s.resolve_completes, LocalScopes.after_eq_completeAll, s.declarations_eq hwf]

/-- What an initializer may give back is a rule on methods. -/
theorem FunctionDecl.allows_iff (d : FunctionDecl) :
    (∀ value ∈ Stmt.returnsAll d.body,
        (if d.isInitializer then Body.initializer else Body.function).Allows value) ↔
      (d.isInitializer → ∀ value ∈ Stmt.returnsAll d.body, value = none) := by
  cases d.isInitializer <;> simp [Body.Allows]

/-- The returns of a method are in order if the method is. -/
theorem lawful_method {around : Surroundings} {d : FunctionDecl} {scopes : List (List Token)}
    {initializers : List (Token × Expr)} {methods : List FunctionDecl} {thisUses : List Occurrence}
    (hclass : around.inClass = true) :
    Lawful { around with body := if d.isInitializer then .initializer else .function } scopes
        initializers (Stmt.returnsAll d.body) methods thisUses ↔
      Lawful around scopes initializers [] (d :: methods) [] := by
  constructor
  · rintro ⟨hdistinct, hinitializers, hreturns, hmethods, -⟩
    exact ⟨hdistinct, hinitializers, by simp,
      List.forall_mem_cons.mpr ⟨d.allows_iff.mp hreturns, hmethods⟩, fun _ => rfl⟩
  · rintro ⟨hdistinct, hinitializers, -, hmethods, -⟩
    obtain ⟨hd, hmethods⟩ := List.forall_mem_cons.mp hmethods
    exact ⟨hdistinct, hinitializers, d.allows_iff.mpr hd, hmethods, fun h => absurd (hclass ▸ h) (by simp)⟩

/-- The order in which methods are listed does not matter. -/
theorem lawful_perm {around : Surroundings} {scopes : List (List Token)}
    {initializers : List (Token × Expr)} {returns : List (Option Expr)}
    {methods methods' : List FunctionDecl} {thisUses : List Occurrence} (h : methods.Perm methods') :
    Lawful around scopes initializers returns methods thisUses ↔
      Lawful around scopes initializers returns methods' thisUses :=
  ⟨fun ⟨hdistinct, hinitializers, hreturns, hmethods, hthis⟩ =>
      ⟨hdistinct, hinitializers, hreturns, fun d hd => hmethods d (h.mem_iff.mpr hd), hthis⟩,
    fun ⟨hdistinct, hinitializers, hreturns, hmethods, hthis⟩ =>
      ⟨hdistinct, hinitializers, hreturns, fun d hd => hmethods d (h.mem_iff.mp hd), hthis⟩⟩

/-- A scope of its own is in order if its names are different. -/
theorem lawful_scope {around : Surroundings} {scope : List Token} {scopes : List (List Token)}
    {initializers : List (Token × Expr)} {returns : List (Option Expr)} {methods : List FunctionDecl}
    {thisUses : List Occurrence} :
    Lawful around (scope :: scopes) initializers returns methods thisUses ↔
      LocalScopes.Admits scope [[]] ∧ Lawful around scopes initializers returns methods thisUses := by
  have hadmits : LocalScopes.Admits scope [[]] ↔ (scope.map (·.lexeme)).Nodup :=
    ⟨fun h => h.1, fun h => ⟨h, fun _ _ => rfl⟩⟩
  rw [hadmits]
  constructor
  · rintro ⟨hdistinct, hinitializers, hreturns, hmethods, hthis⟩
    obtain ⟨hscope, hdistinct⟩ := List.forall_mem_cons.mp hdistinct
    exact ⟨hscope, hdistinct, hinitializers, hreturns, hmethods, hthis⟩
  · rintro ⟨hscope, hdistinct, hinitializers, hreturns, hmethods, hthis⟩
    exact ⟨List.forall_mem_cons.mpr ⟨hscope, hdistinct⟩, hinitializers, hreturns, hmethods, hthis⟩

/-- What stands in a function is in order wherever the function stands. -/
theorem lawful_function {around : Surroundings} {scopes : List (List Token)}
    {initializers : List (Token × Expr)} {returns : List (Option Expr)} {methods : List FunctionDecl}
    {thisUses : List Occurrence} :
    Lawful { around with body := .function } scopes initializers returns methods thisUses ↔
      Lawful around scopes initializers [] methods thisUses :=
  ⟨fun ⟨hdistinct, hinitializers, _, hmethods, hthis⟩ =>
      ⟨hdistinct, hinitializers, by simp, hmethods, hthis⟩,
    fun ⟨hdistinct, hinitializers, _, hmethods, hthis⟩ =>
      ⟨hdistinct, hinitializers, fun _ _ => trivial, hmethods, hthis⟩⟩

/-- A local variable is in order if its initializer does not read it. -/
theorem lawful_variable {around : Surroundings} {name : Token} {initial : Option Expr}
    {isLocal : Bool} :
    Lawful around [] ((Stmt.variable name initial).localInitializers isLocal) [] []
        (Expr.thisUsesOption initial) ↔
      (∀ read ∈ Expr.readsOption initial, (isLocal && name.lexeme == read.lexeme) = false) ∧
        (around.inClass = false → Expr.thisUsesOption initial = []) := by
  have hreads : (∀ read ∈ Expr.readsOption initial, (isLocal && name.lexeme == read.lexeme) = false) ↔
      ∀ entry ∈ (Stmt.variable name initial).localInitializers isLocal,
        ∀ read ∈ entry.2.reads, read.lexeme ≠ entry.1.lexeme := by
    cases initial with
    | none => simp [Expr.readsOption, Stmt.localInitializers]
    | some e =>
      cases isLocal with
      | false => simp [Stmt.localInitializers]
      | true =>
        simp only [Expr.readsOption, Stmt.localInitializers, if_true, List.forall_mem_singleton,
          Bool.true_and, beq_eq_false_iff_ne]
        exact forall₂_congr fun _ _ => ne_comm
  rw [hreads]
  exact ⟨fun h => ⟨h.initializers, h.this⟩, fun h => ⟨by simp, h.1, by simp, by simp, h.2⟩⟩

mutual

/-- Nothing is reported for a statement exactly if its declarations can be made and its parts are in
order. -/
theorem Stmt.resolve_lawful (around : Surroundings) : (s : Stmt) → (r : Resolution) →
    r.scopes.Complete →
    ((s.resolve around r).errors = r.errors ↔ r.scopes.Admits s.declarations ∧
      Lawful around s.localScopes (s.localInitializers (!r.scopes.isEmpty)) s.returns s.methods
        s.thisUses)
  | .expression expr, r, hscopes => by
    rw [Stmt.resolve, expr.resolve_lawful around hscopes]
    simp [Stmt.declarations, Stmt.localScopes, Stmt.localInitializers, Stmt.returns, Stmt.methods,
      Stmt.thisUses]
  | .print expr, r, hscopes => by
    rw [Stmt.resolve, expr.resolve_lawful around hscopes]
    simp [Stmt.declarations, Stmt.localScopes, Stmt.localInitializers, Stmt.returns, Stmt.methods,
      Stmt.thisUses]
  | .variable name initial, r, hscopes => by
    rw [Stmt.resolve, define_errors,
      (declare_extends r [] name).clean_iff (Expr.resolveOption_extends around initial _),
      declare_errors, Expr.resolveOption_errors, Stmt.declarations, LocalScopes.admits_singleton]
    refine and_congr_right fun hfree => ?_
    simp only [isPending_declare hscopes hfree]
    exact lawful_variable.symm
  | .block body, r, hscopes => by
    rw [Stmt.resolve, leave_errors]
    have hbody := Stmt.resolveAll_lawful around body (r.enter [])
      (hscopes.cons (by simp [Bindings.get?]))
    rw [enter_errors] at hbody
    rw [hbody, Stmt.declarations, Stmt.localScopes, lawful_scope]
    exact (and_iff_right (LocalScopes.admits_nil _)).symm
  | .conditional condition thenBranch none, r, hscopes => by
    have hscopes' := condition.resolve_scopes around r
    rw [Stmt.resolve, (condition.resolve_extends around r).clean_iff (thenBranch.resolve_extends around _),
      condition.resolve_lawful around hscopes, thenBranch.resolve_lawful around _ (hscopes' ▸ hscopes),
      hscopes', and_left_comm, ← lawful_append]
    rfl
  | .conditional condition thenBranch (some elseBranch), r, hscopes => by
    have hscopes' := condition.resolve_scopes around r
    have hscopes'' := thenBranch.resolve_completes around (condition.resolve around r)
    rw [hscopes'] at hscopes''
    have hgrown := (condition.resolve_extends around r).trans
      (thenBranch.resolve_extends around (condition.resolve around r))
    have hthen : (thenBranch.resolve around (condition.resolve around r)).errors = r.errors ↔
        r.scopes.Admits thenBranch.declarations ∧ Lawful around thenBranch.localScopes
          (thenBranch.localInitializers (!r.scopes.isEmpty)) thenBranch.returns thenBranch.methods
          (condition.thisUses ++ thenBranch.thisUses) := by
      rw [(condition.resolve_extends around r).clean_iff (thenBranch.resolve_extends around _),
        condition.resolve_lawful around hscopes,
        thenBranch.resolve_lawful around _ (hscopes' ▸ hscopes), hscopes', and_left_comm,
        ← lawful_append]
      rfl
    rw [Stmt.resolve, hgrown.clean_iff (elseBranch.resolve_extends around _), hthen,
      elseBranch.resolve_lawful around _ (hscopes'' ▸ hscopes.completeAll _), hscopes'',
      LocalScopes.completeAll_isEmpty, and_and_and_comm, ← LocalScopes.admits_append, ← lawful_append]
    rfl
  | .loop condition body, r, hscopes => by
    have hscopes' := condition.resolve_scopes around r
    rw [Stmt.resolve, (condition.resolve_extends around r).clean_iff (body.resolve_extends around _),
      condition.resolve_lawful around hscopes, body.resolve_lawful around _ (hscopes' ▸ hscopes),
      hscopes', and_left_comm, ← lawful_append]
    rfl
  | .function declaration, r, hscopes => by
    rw [Stmt.resolve, (introduce_extends r [] declaration.name).clean_iff (declaration.resolve_extends _ _),
      introduce_errors,
      declaration.resolve_lawful _ _ ((introduce_scopes r declaration.name) ▸ hscopes.complete _),
      lawful_function, Stmt.declarations, LocalScopes.admits_singleton]
    rfl
  | .return keyword value, r, hscopes => by
    have hscopes' := checkReturn_scopes r around keyword value.isSome
    rw [Stmt.resolve, (checkReturn_extends r [] around keyword _).clean_iff
        (Expr.resolveOption_extends around value _),
      checkReturn_errors, Expr.resolveOption_errors]
    simp only [isPending_of_complete (hscopes' ▸ hscopes), implies_true, true_and]
    constructor
    · rintro ⟨hallows, hthis⟩
      exact ⟨LocalScopes.admits_nil _, by simp [Stmt.localScopes], by simp [Stmt.localInitializers],
        by simpa [Stmt.returns] using hallows, by simp [Stmt.methods], hthis⟩
    · rintro ⟨-, h⟩
      exact ⟨h.returns value (by simp [Stmt.returns]), h.this⟩
  | .class name methods, r, hscopes => by
    have hmethods := FunctionDecl.resolveMethods_lawful { around with inClass := true } methods
      ((r.introduce name).enter [(thisName, true)]) rfl
      (LocalScopes.Complete.cons ((introduce_scopes r name) ▸ hscopes.complete _)
        (by simp [Bindings.get?]))
    rw [enter_errors] at hmethods
    rw [Stmt.resolve, leave_errors, ((introduce_extends r [] name).clean_iff
        ((enter_extends (r.introduce name) [] [(thisName, true)]).trans
          (FunctionDecl.resolveMethods_extends _ methods _))), introduce_errors, hmethods,
      Stmt.declarations, LocalScopes.admits_singleton]
    exact and_congr_right fun _ =>
      ⟨fun ⟨h₁, h₂, _, h₃, _⟩ => ⟨h₁, h₂, by simp [Stmt.returns], h₃, fun _ => rfl⟩,
        fun ⟨h₁, h₂, _, h₃, _⟩ => ⟨h₁, h₂, by simp, h₃, fun _ => rfl⟩⟩

/-- Nothing is reported for statements exactly if nothing is for each behind those before it. -/
theorem Stmt.resolveAll_lawful (around : Surroundings) : (ss : List Stmt) → (r : Resolution) →
    r.scopes.Complete →
    ((Stmt.resolveAll around ss r).errors = r.errors ↔ r.scopes.Admits (Stmt.declarationsAll ss) ∧
      Lawful around (Stmt.localScopesAll ss) (Stmt.localInitializersAll (!r.scopes.isEmpty) ss)
        (Stmt.returnsAll ss) (Stmt.methodsAll ss) (Stmt.thisUsesAll ss))
  | [], r, _ => by
    simp only [Stmt.resolveAll, Stmt.declarationsAll, LocalScopes.admits_nil, true_and, true_iff]
    exact lawful_this.mpr fun _ => rfl
  | s :: rest, r, hscopes => by
    have hscopes' := s.resolve_completes around r
    rw [Stmt.resolveAll, (s.resolve_extends around r).clean_iff (Stmt.resolveAll_extends around rest _),
      s.resolve_lawful around r hscopes,
      Stmt.resolveAll_lawful around rest _ (hscopes' ▸ hscopes.completeAll _), hscopes',
      LocalScopes.completeAll_isEmpty, and_and_and_comm, ← LocalScopes.admits_append, ← lawful_append]
    rfl

/-- Nothing is reported for a function exactly if its parts are in order. -/
theorem FunctionDecl.resolve_lawful (around : Surroundings) : (d : FunctionDecl) → (r : Resolution) →
    r.scopes.Complete →
    ((d.resolve around r).errors = r.errors ↔ Lawful around d.localScopes d.localInitializers
      (Stmt.returnsAll d.body) d.innerMethods d.thisUses)
  | ⟨name, params, body⟩, r, hscopes => by
    have hparams := introduceAll_scopes (r.enter []) params
    have hcomplete : (r.enter []).scopes.Complete := hscopes.cons (by simp [Bindings.get?])
    have hadmits : (r.enter []).scopes.Admits (params ++ Stmt.declarationsAll body) ↔
        LocalScopes.Admits (params ++ Stmt.declarationsAll body) [[]] := Iff.rfl
    rw [FunctionDecl.resolve, leave_errors, ← enter_errors r [],
      (introduceAll_extends (r.enter []) [] params).clean_iff (Stmt.resolveAll_extends around body _),
      introduceAll_errors, Stmt.resolveAll_lawful around body _ (hparams ▸ hcomplete.completeAll _),
      hparams, LocalScopes.completeAll_isEmpty, ← and_assoc, ← LocalScopes.admits_append, hadmits,
      ← lawful_scope]
    rfl

/-- Nothing is reported for methods exactly if their parts are in order, and the methods are. -/
theorem FunctionDecl.resolveMethods_lawful (around : Surroundings) : (ds : List FunctionDecl) →
    (r : Resolution) → around.inClass = true → r.scopes.Complete →
    ((FunctionDecl.resolveMethods around ds r).errors = r.errors ↔
      Lawful around (FunctionDecl.localScopesAll ds) (FunctionDecl.localInitializersAll ds) []
        (ds ++ FunctionDecl.innerMethodsAll ds) [])
  | [], r, _, _ => by
    simp only [FunctionDecl.resolveMethods, true_iff]
    exact lawful_this.mpr fun _ => rfl
  | d :: rest, r, hclass, hscopes => by
    have hscopes' := d.resolve_scopes
      { around with body := if d.isInitializer then .initializer else .function } r
    have hinterleaved : (d :: rest ++ FunctionDecl.innerMethodsAll (d :: rest)).Perm
        ((d :: d.innerMethods) ++ (rest ++ FunctionDecl.innerMethodsAll rest)) := by
      rw [FunctionDecl.innerMethodsAll]
      simpa using (List.perm_append_comm_assoc rest d.innerMethods _)
    rw [FunctionDecl.resolveMethods, (d.resolve_extends _ r).clean_iff
        (FunctionDecl.resolveMethods_extends around rest _), d.resolve_lawful _ r hscopes,
      FunctionDecl.resolveMethods_lawful around rest _ hclass (hscopes' ▸ hscopes),
      lawful_method hclass, ← lawful_append, lawful_perm hinterleaved]
    rfl

end

/-- Nothing is reported for a program exactly if it is well bound. -/
theorem resolve_errors_iff (program : List Stmt) :
    (resolve program).errors = [] ↔ WellBound program := by
  rw [wellBound_iff_lawful]
  have hprogram := Stmt.resolveAll_lawful .topLevel program .empty (fun _ h => by cases h)
  exact hprogram.trans (and_iff_right trivial)

end Lox
