import Mathlib.Data.List.Nodup
import Lox.Proofs.Resolution.Record
import Lox.Proofs.Tree.Placement

/-!
# The rules of binding

Resolution walks through a program with a stack of scopes, the innermost body and whether there is a
class around, and goes on after an error. What it decides in the end is a property of the tree that no
walk is needed to state: `WellBound` is the list of the rules, each over the parts of the tree that it
speaks of. Nothing is reported for a program exactly if it is well bound.

A step that reports nothing is told by the length of the errors, which only grow. So a walk reports
nothing exactly if each of its steps reports nothing, and this turns the walk into a conjunction.
-/

set_option autoImplicit false

namespace Lox

/-- A return that gives `value` may stand directly in a body. -/
def Body.Allows : Body → Option Expr → Prop
  | .program, _ => False
  | .function, _ => True
  | .initializer, value => value = none

/-- A program keeps all rules about names, `return` and `this`. -/
structure WellBound (program : List Stmt) : Prop where
  /-- No local scope declares a name twice. -/
  distinct : ∀ scope ∈ Stmt.localScopesAll program, (scope.map (·.lexeme)).Nodup
  /-- No local variable is read in its own initializer. -/
  initializers : ∀ entry ∈ Stmt.localInitializersAll false program,
    ∀ read ∈ entry.2.reads, read.lexeme ≠ entry.1.lexeme
  /-- Every return stands in a function or method. -/
  returns : Stmt.returnsAll program = []
  /-- No return gives a value directly in an initializer. -/
  initializerReturns : ∀ d ∈ Stmt.methodsAll program, d.isInitializer →
    ∀ value ∈ Stmt.returnsAll d.body, value = none
  /-- Every `this` stands in a class. -/
  this : Stmt.thisUsesAll program = []

/-- The parts of a tree are in order within the given surroundings. -/
structure Lawful (around : Surroundings) (scopes : List (List Token))
    (initializers : List (Token × Expr)) (returns : List (Option Expr)) (methods : List FunctionDecl)
    (thisUses : List Occurrence) : Prop where
  distinct : ∀ scope ∈ scopes, (scope.map (·.lexeme)).Nodup
  initializers : ∀ entry ∈ initializers, ∀ read ∈ entry.2.reads, read.lexeme ≠ entry.1.lexeme
  returns : ∀ value ∈ returns, around.body.Allows value
  methods : ∀ d ∈ methods, d.isInitializer → ∀ value ∈ Stmt.returnsAll d.body, value = none
  this : around.inClass = false → thisUses = []

/-- A program is well bound if its parts are in order at the top level. -/
theorem wellBound_iff_lawful (program : List Stmt) :
    WellBound program ↔ Lawful .topLevel (Stmt.localScopesAll program)
      (Stmt.localInitializersAll false program) (Stmt.returnsAll program) (Stmt.methodsAll program)
      (Stmt.thisUsesAll program) := by
  constructor
  · rintro ⟨hdistinct, hinitializers, hreturns, hmethods, hthis⟩
    exact ⟨hdistinct, hinitializers, by simp [hreturns], hmethods, fun _ => hthis⟩
  · rintro ⟨hdistinct, hinitializers, hreturns, hmethods, hthis⟩
    exact ⟨hdistinct, hinitializers, List.eq_nil_iff_forall_not_mem.mpr hreturns, hmethods, hthis rfl⟩

/-- Parts of two trees are in order if those of both are. -/
theorem lawful_append {around : Surroundings} {scopes scopes' : List (List Token)}
    {initializers initializers' : List (Token × Expr)} {returns returns' : List (Option Expr)}
    {methods methods' : List FunctionDecl} {thisUses thisUses' : List Occurrence} :
    Lawful around (scopes ++ scopes') (initializers ++ initializers') (returns ++ returns')
        (methods ++ methods') (thisUses ++ thisUses') ↔
      Lawful around scopes initializers returns methods thisUses ∧
        Lawful around scopes' initializers' returns' methods' thisUses' := by
  constructor
  · rintro ⟨hdistinct, hinitializers, hreturns, hmethods, hthis⟩
    obtain ⟨hdistinct, hdistinct'⟩ := List.forall_mem_append.mp hdistinct
    obtain ⟨hinitializers, hinitializers'⟩ := List.forall_mem_append.mp hinitializers
    obtain ⟨hreturns, hreturns'⟩ := List.forall_mem_append.mp hreturns
    obtain ⟨hmethods, hmethods'⟩ := List.forall_mem_append.mp hmethods
    exact ⟨⟨hdistinct, hinitializers, hreturns, hmethods, fun h => (List.append_eq_nil_iff.mp (hthis h)).1⟩,
      ⟨hdistinct', hinitializers', hreturns', hmethods', fun h => (List.append_eq_nil_iff.mp (hthis h)).2⟩⟩
  · rintro ⟨h, h'⟩
    exact ⟨List.forall_mem_append.mpr ⟨h.distinct, h'.distinct⟩,
      List.forall_mem_append.mpr ⟨h.initializers, h'.initializers⟩,
      List.forall_mem_append.mpr ⟨h.returns, h'.returns⟩,
      List.forall_mem_append.mpr ⟨h.methods, h'.methods⟩,
      fun hclass => List.append_eq_nil_iff.mpr ⟨h.this hclass, h'.this hclass⟩⟩

/-- Uses of `this` alone are lawful inside a class, or if there are none. -/
theorem lawful_this {around : Surroundings} {thisUses : List Occurrence} :
    Lawful around [] [] [] [] thisUses ↔ (around.inClass = false → thisUses = []) :=
  ⟨fun h => h.this, fun h => ⟨by simp, by simp, by simp, by simp, h⟩⟩

namespace LocalScopes

/-- The names can be declared in the innermost scope, one after the other. -/
def Admits (names : List Token) : LocalScopes → Prop
  | [] => True
  | scope :: _ => (names.map (·.lexeme)).Nodup ∧ ∀ name ∈ names, scope.get? name.lexeme = none

/-- Declares names in the innermost scope. -/
def completeAll (names : List Token) (scopes : LocalScopes) : LocalScopes :=
  names.foldl (fun scopes name => scopes.complete name.lexeme) scopes

/-- Names of two lists are completed one list after the other. -/
theorem completeAll_append (names names' : List Token) (scopes : LocalScopes) :
    completeAll (names ++ names') scopes = completeAll names' (completeAll names scopes) :=
  List.foldl_append

/-- Behind a statement, the declaration that it makes is complete. -/
theorem after_eq_completeAll (s : Stmt) (scopes : LocalScopes) :
    scopes.after s = scopes.completeAll s.declared?.toList := by
  unfold after
  cases s.declared? <;> rfl

/-- The scopes around the innermost one stay. -/
theorem completeAll_tail (names : List Token) (scopes : LocalScopes) :
    (completeAll names scopes).tail = scopes.tail := by
  induction names generalizing scopes with
  | nil => rfl
  | cons name rest ih =>
    rw [completeAll, List.foldl_cons]
    exact (ih _).trans (by cases scopes <;> rfl)

/-- Scopes remain complete when declarations are completed. -/
theorem Complete.completeAll {scopes : LocalScopes} (h : scopes.Complete) (names : List Token) :
    (LocalScopes.completeAll names scopes).Complete := by
  induction names generalizing scopes with
  | nil => exact h
  | cons name rest ih => exact ih (h.complete name.lexeme)

/-- Completing declarations opens no scope and closes none. -/
@[simp] theorem completeAll_isEmpty (names : List Token) (scopes : LocalScopes) :
    (completeAll names scopes).isEmpty = scopes.isEmpty := by
  induction names generalizing scopes with
  | nil => rfl
  | cons name rest ih =>
    rw [completeAll, List.foldl_cons]
    exact (ih _).trans (by cases scopes <;> rfl)

/-- A name is declared before the others. -/
theorem admits_cons (name : Token) (names : List Token) (scopes : LocalScopes) :
    scopes.Admits (name :: names) ↔ scopes.Lacks name.lexeme ∧ (scopes.complete name.lexeme).Admits names := by
  cases scopes with
  | nil => simp [Admits, Lacks, complete]
  | cons scope outer =>
    simp only [Admits, Lacks, complete, List.map_cons, List.nodup_cons, List.mem_map, not_exists,
      not_and, List.forall_mem_cons, Bindings.get?_put]
    constructor
    · rintro ⟨⟨hname, hnodup⟩, hfree, hrest⟩
      exact ⟨hfree, hnodup, fun n hn => by rw [if_neg (fun h => hname n hn h.symm), hrest n hn]⟩
    · rintro ⟨hfree, hnodup, hrest⟩
      have hne (n : Token) (hn : n ∈ names) : name.lexeme ≠ n.lexeme := by
        intro heq
        simpa [heq] using hrest n hn
      exact ⟨⟨fun n hn => (hne n hn).symm, hnodup⟩, hfree,
        fun n hn => by simpa [hne n hn] using hrest n hn⟩

/-- No names can always be declared. -/
@[simp] theorem admits_nil (scopes : LocalScopes) : scopes.Admits [] := by
  cases scopes <;> simp [Admits]

/-- One name can be declared if the innermost scope leaves it free. -/
theorem admits_singleton (name : Token) (scopes : LocalScopes) :
    scopes.Admits [name] ↔ scopes.Lacks name.lexeme := by
  simp [admits_cons]

/-- Names are declared behind others. -/
theorem admits_append (names names' : List Token) (scopes : LocalScopes) :
    scopes.Admits (names ++ names') ↔ scopes.Admits names ∧ (scopes.completeAll names).Admits names' := by
  induction names generalizing scopes with
  | nil => simp [completeAll]
  | cons name rest ih =>
    rw [List.cons_append, admits_cons, ih, admits_cons, and_assoc]
    rfl

end LocalScopes

namespace Resolution

/-- Two steps report nothing if each reports nothing. -/
theorem Extends.clean_iff {r r₁ r₂ : Resolution} {ids ids' : List Occurrence} (h : Extends ids r r₁)
    (h' : Extends ids' r₁ r₂) : r₂.errors = r.errors ↔ r₁.errors = r.errors ∧ r₂.errors = r₁.errors :=
  ⟨fun hclean => ⟨h.errors_eq h' hclean, hclean.trans (h.errors_eq h' hclean).symm⟩,
    fun ⟨hfirst, hsecond⟩ => hsecond.trans hfirst⟩

variable (r : Resolution)

/-- An error that is reported makes a difference. -/
@[simp] theorem report_errors (token : Token) (cause : BindingCause) :
    ¬(r.report token cause).errors = r.errors := by
  simp [report]

/-- A use reports nothing. -/
@[simp] theorem locate_errors (id : Occurrence) (name : Token) :
    (r.locate id name).errors = r.errors := by
  rw [locate_eq_record r id name none false, record_errors]

/-- Completing a declaration reports nothing. -/
@[simp] theorem define_errors (name : Token) : (r.define name).errors = r.errors := by
  rw [define_eq]

/-- Leaving a scope reports nothing. -/
@[simp] theorem leave_errors : r.leave.errors = r.errors := rfl

/-- Entering a scope reports nothing. -/
@[simp] theorem enter_errors (names : Bindings Bool) : (r.enter names).errors = r.errors := rfl

/-- A declaration is reported unless its name is free. -/
theorem declare_errors (name : Token) : (r.declare name).errors = r.errors ↔ r.scopes.Lacks name.lexeme := by
  unfold declare LocalScopes.Lacks
  cases r.scopes with
  | nil => simp
  | cons scope outer => cases hget : scope.get? name.lexeme <;> simp [Bindings.binds, hget]

/-- Introducing a name reports nothing exactly if the innermost scope leaves it free. -/
theorem introduce_errors (name : Token) :
    (r.introduce name).errors = r.errors ↔ r.scopes.Lacks name.lexeme := by
  rw [introduce, define_errors, declare_errors]

/-- Completing a declaration does so in the open scopes. -/
theorem define_scopes (name : Token) : (r.define name).scopes = r.scopes.complete name.lexeme := by
  rw [define_eq]

/-- A name that is introduced has a complete declaration. -/
theorem introduce_scopes (name : Token) : (r.introduce name).scopes = r.scopes.complete name.lexeme := by
  rw [introduce, define_scopes, declare_scopes, LocalScopes.complete_declare]

/-- Parameters are reported unless their names are different and free. -/
theorem introduceAll_errors (params : List Token) :
    (params.foldl (fun r p => r.introduce p) r).errors = r.errors ↔ r.scopes.Admits params := by
  induction params generalizing r with
  | nil => simp
  | cons p rest ih =>
    rw [List.foldl_cons, (introduce_extends r [] p).clean_iff (introduceAll_extends _ [] rest),
      introduce_errors, ih, introduce_scopes, LocalScopes.admits_cons]

/-- Parameters that are introduced have complete declarations. -/
theorem introduceAll_scopes (params : List Token) :
    (params.foldl (fun r p => r.introduce p) r).scopes = r.scopes.completeAll params := by
  induction params generalizing r with
  | nil => rfl
  | cons p rest ih => rw [List.foldl_cons, ih, introduce_scopes]; rfl

/-- A return is reported unless the body around it allows it. -/
theorem checkReturn_errors (around : Surroundings) (keyword : Token) (value : Option Expr) :
    (checkReturn around keyword value.isSome r).errors = r.errors ↔ around.body.Allows value := by
  unfold checkReturn
  cases around.body <;> cases value <;> simp [Body.Allows]

/-- A check changes no scopes. -/
theorem checkReturn_scopes (around : Surroundings) (keyword : Token) (hasValue : Bool) :
    (checkReturn around keyword hasValue r).scopes = r.scopes := by
  unfold checkReturn
  split
  · rfl
  · split <;> rfl
  · rfl

/-- Which names are declared, but not completely, is read off the scopes. -/
theorem isPending_congr {r r' : Resolution} (h : r'.scopes = r.scopes) (name : String) :
    r'.isPending name = r.isPending name := by
  unfold isPending
  rw [h]

/-- Where all declarations are complete, no name is pending. -/
theorem isPending_of_complete {r : Resolution} (h : r.scopes.Complete) (name : String) :
    r.isPending name = false := by
  unfold isPending
  cases hscopes : r.scopes with
  | nil => rfl
  | cons scope outer =>
    rw [hscopes] at h
    simpa using h scope List.mem_cons_self name

/-- Where a free name was declared, just this name is pending, if the scope is local. -/
theorem isPending_declare {r : Resolution} (h : r.scopes.Complete) {name : Token}
    (hfree : r.scopes.Lacks name.lexeme) (other : String) :
    (r.declare name).isPending other = (!r.scopes.isEmpty && name.lexeme == other) := by
  unfold isPending
  rw [declare_scopes]
  cases hscopes : r.scopes with
  | nil => rfl
  | cons scope outer =>
    rw [hscopes] at h hfree
    have hcomplete := h scope List.mem_cons_self other
    have hbinds : scope.binds name.lexeme = false := by
      simpa [Bindings.binds, LocalScopes.Lacks] using hfree
    simp only [LocalScopes.declare, hbinds, Bool.false_eq_true, if_false, Bindings.get?_put]
    by_cases heq : name.lexeme = other <;> simp [heq, hcomplete]

end Resolution

open Resolution

mutual

/-- An expression is reported if it reads a pending name, or `this` outside all classes. -/
theorem Expr.resolve_errors (around : Surroundings) : (e : Expr) → (r : Resolution) →
    ((e.resolve around r).errors = r.errors ↔
      (∀ read ∈ e.reads, r.isPending read.lexeme = false) ∧ (around.inClass = false → e.thisUses = []))
  | .literal _, _ => by simp [Expr.resolve, Expr.reads, Expr.thisUses]
  | .grouping inner, r => inner.resolve_errors around r
  | .unary _ right, r => right.resolve_errors around r
  | .binary left _ right, r => by
    rw [Expr.resolve, (left.resolve_extends around r).clean_iff (right.resolve_extends around _),
      left.resolve_errors around r, right.resolve_errors around _]
    simp only [isPending_congr (left.resolve_scopes around r), Expr.reads, Expr.thisUses,
      List.forall_mem_append, List.append_eq_nil_iff]
    grind
  | .logical left _ right, r => by
    rw [Expr.resolve, (left.resolve_extends around r).clean_iff (right.resolve_extends around _),
      left.resolve_errors around r, right.resolve_errors around _]
    simp only [isPending_congr (left.resolve_scopes around r), Expr.reads, Expr.thisUses,
      List.forall_mem_append, List.append_eq_nil_iff]
    grind
  | .variable id name, r => by
    rw [Expr.resolve, locate_errors]
    cases hpending : r.isPending name.lexeme <;> simp [Expr.reads, Expr.thisUses, hpending]
  | .assign id name value, r => by
    rw [Expr.resolve, locate_errors]
    exact value.resolve_errors around r
  | .call callee _ arguments, r => by
    rw [Expr.resolve, (callee.resolve_extends around r).clean_iff
        (Expr.resolveAll_extends around arguments _),
      callee.resolve_errors around r, Expr.resolveAll_errors around arguments _]
    simp only [isPending_congr (callee.resolve_scopes around r), Expr.reads, Expr.thisUses,
      List.forall_mem_append, List.append_eq_nil_iff]
    grind
  | .get object _, r => object.resolve_errors around r
  | .set object _ value, r => by
    rw [Expr.resolve, (value.resolve_extends around r).clean_iff (object.resolve_extends around _),
      value.resolve_errors around r, object.resolve_errors around _]
    simp only [isPending_congr (value.resolve_scopes around r), Expr.reads, Expr.thisUses,
      List.forall_mem_append, List.append_eq_nil_iff]
    grind
  | .this id keyword, r => by
    rw [Expr.resolve]
    cases hclass : around.inClass <;> simp [Expr.reads, Expr.thisUses]

/-- Expressions are reported if one of them is. -/
theorem Expr.resolveAll_errors (around : Surroundings) : (es : List Expr) → (r : Resolution) →
    ((Expr.resolveAll around es r).errors = r.errors ↔
      (∀ read ∈ Expr.readsAll es, r.isPending read.lexeme = false) ∧
        (around.inClass = false → Expr.thisUsesAll es = []))
  | [], _ => by simp [Expr.resolveAll, Expr.readsAll, Expr.thisUsesAll]
  | e :: rest, r => by
    rw [Expr.resolveAll, (e.resolve_extends around r).clean_iff (Expr.resolveAll_extends around rest _),
      e.resolve_errors around r, Expr.resolveAll_errors around rest _]
    simp only [isPending_congr (e.resolve_scopes around r), Expr.readsAll, Expr.thisUsesAll,
      List.forall_mem_append, List.append_eq_nil_iff]
    grind

end

/-- An expression that may be missing is reported as it is otherwise. -/
theorem Expr.resolveOption_errors (around : Surroundings) (e : Option Expr) (r : Resolution) :
    (Expr.resolveOption around e r).errors = r.errors ↔
      (∀ read ∈ Expr.readsOption e, r.isPending read.lexeme = false) ∧
        (around.inClass = false → Expr.thisUsesOption e = []) := by
  cases e with
  | none => simp [Expr.resolveOption, Expr.readsOption, Expr.thisUsesOption]
  | some e => exact e.resolve_errors around r

/-- An optional expression leaves the scopes alone. -/
theorem Expr.resolveOption_scopes (around : Surroundings) (e : Option Expr) (r : Resolution) :
    (Expr.resolveOption around e r).scopes = r.scopes := by
  cases e with
  | none => rfl
  | some e => exact e.resolve_scopes around r

/-- Outside initializers of variables, only the uses of `this` in an expression matter. -/
theorem Expr.resolve_lawful (around : Surroundings) (e : Expr) {r : Resolution} (h : r.scopes.Complete) :
    (e.resolve around r).errors = r.errors ↔ Lawful around [] [] [] [] e.thisUses := by
  rw [e.resolve_errors around r, lawful_this]
  simp [isPending_of_complete h]

end Lox
