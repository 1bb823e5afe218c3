import Mathlib.Data.List.Pairwise
import Lox.Proofs.Renaming.Variables
import Lox.Proofs.Resolution.Sites

/-!
# Trees that differ in the name of variables

What the comparison of a program with its renamed version needs of the two trees: they are alike, scope
by scope, where in each scope the variable of the old name may be renamed. The new name is used nowhere
in the first tree, and a scope in which the variable is renamed has no function or class of this name.

A program that is resolved without errors is like itself with one variable renamed, because no local
scope of it declares a name twice.
-/

set_option autoImplicit false

namespace Lox

/-- Inside of no marked scope, another scope that is not marked changes nothing. -/
theorem Marks.enter_none : Marks.none.enter false = Marks.none := by
  funext distance
  cases distance <;> rfl

namespace Renaming

variable (r : Renaming)

/-- What a name of a scope is called then. Where the variable is renamed, the two names change places. -/
def key (marked : Bool) (name : String) : String :=
  if marked then if name = r.old then r.new else if name = r.new then r.old else name else name

/-- Replacing a name twice restores it. -/
theorem key_key (marked : Bool) (name : String) : r.key marked (r.key marked name) = name := by
  unfold key
  grind

/-- Different names remain different when they are replaced. -/
theorem key_injective {marked : Bool} {name name' : String}
    (h : r.key marked name = r.key marked name') : name = name' := by
  rw [← r.key_key marked name, h, r.key_key]

/-- A name that is neither of the two is left alone. -/
theorem key_of_ne {marked : Bool} {name : String} (hold : marked = true → name ≠ r.old)
    (hnew : name ≠ r.new) : r.key marked name = name := by
  unfold key
  grind

/-- In a scope that is not marked, all names are left alone. -/
@[simp] theorem key_false (name : String) : r.key false name = name := rfl

/-- Names other than the new one are renamed as the names of a scope. -/
theorem token_lexeme (marked : Bool) {name : Token} (h : name.lexeme ≠ r.new) :
    (r.token marked name).lexeme = r.key marked name.lexeme := by
  unfold token key
  cases marked with
  | false => rfl
  | true =>
    by_cases hold : name.lexeme = r.old
    · simp [hold]
    · simp [hold, h]

/-- In a scope that is not marked, all tokens are left alone. -/
@[simp] theorem token_false (name : Token) : r.token false name = name := rfl

/-- A name is neither of the two, in a scope that may be marked. -/
def Keeps (marked : Bool) (name : Token) : Prop :=
  name.lexeme ≠ r.new ∧ (marked = true → name.lexeme ≠ r.old)

/-- A name that is kept is left alone. -/
theorem Keeps.key {marked : Bool} {name : Token} (h : r.Keeps marked name) :
    r.key marked name.lexeme = name.lexeme := r.key_of_ne h.2 h.1

/-- A token with a name that is kept is left alone. -/
theorem Keeps.token {marked : Bool} {name : Token} (h : r.Keeps marked name) :
    r.token marked name = name := by
  unfold Renaming.token
  cases marked with
  | false => rfl
  | true => simp [h.2 rfl]

/-- The keyword `this` is neither of the two names. -/
def SparesThis : Prop := r.old ≠ thisName ∧ r.new ≠ thisName

end Renaming

section Trees

variable (r : Renaming)

mutual

/-- The new name is used nowhere in an expression, and `this` is spelled as such. -/
def Expr.Clear : Expr → Prop
  | .literal _ => True
  | .grouping inner => inner.Clear
  | .unary _ right => right.Clear
  | .binary left _ right => left.Clear ∧ right.Clear
  | .logical left _ right => left.Clear ∧ right.Clear
  | .variable _ name => name.lexeme ≠ r.new
  | .assign _ name value => name.lexeme ≠ r.new ∧ value.Clear
  | .call callee _ arguments => callee.Clear ∧ Expr.AllClear arguments
  | .get object _ => object.Clear
  | .set object _ value => object.Clear ∧ value.Clear
  | .this _ keyword => keyword.lexeme = thisName

/-- The new name is used nowhere in expressions. -/
def Expr.AllClear : List Expr → Prop
  | [] => True
  | e :: rest => e.Clear ∧ Expr.AllClear rest

end

mutual

/-- Two statements are alike, within scopes with these marks. -/
inductive Stmt.Alike : Marks → Stmt → Stmt → Prop where
  | expression {marks e} : e.Clear r →
    Stmt.Alike marks (.expression e) (.expression (e.rename r marks))
  | print {marks e} : e.Clear r → Stmt.Alike marks (.print e) (.print (e.rename r marks))
  | variable {marks name initial} : name.lexeme ≠ r.new → (∀ e ∈ initial, e.Clear r) →
    Stmt.Alike marks (.variable name initial)
      (.variable (r.token (marks 0) name) (initial.map (·.rename r marks)))
  | block {marks marked body body'} : Stmt.AllAlike (marks.enter marked) body body' →
    Stmt.Alike marks (.block body) (.block body')
  | conditional {marks condition thenBranch thenBranch'} : condition.Clear r →
    Stmt.Alike marks thenBranch thenBranch' →
    Stmt.Alike marks (.conditional condition thenBranch none)
      (.conditional (condition.rename r marks) thenBranch' none)
  | conditionalElse {marks condition thenBranch thenBranch' elseBranch elseBranch'} : condition.Clear r →
    Stmt.Alike marks thenBranch thenBranch' → Stmt.Alike marks elseBranch elseBranch' →
    Stmt.Alike marks (.conditional condition thenBranch (some elseBranch))
      (.conditional (condition.rename r marks) thenBranch' (some elseBranch'))
  | loop {marks condition body body'} : condition.Clear r → Stmt.Alike marks body body' →
    Stmt.Alike marks (.loop condition body) (.loop (condition.rename r marks) body')
  | function {marks d d'} : r.Keeps (marks 0) d.name → FunctionDecl.Alike marks d d' →
    Stmt.Alike marks (.function d) (.function d')
  | return {marks keyword value} : (∀ e ∈ value, e.Clear r) →
    Stmt.Alike marks (.return keyword value) (.return keyword (value.map (·.rename r marks)))
  | class {marks name methods methods'} : r.Keeps (marks 0) name →
    FunctionDecl.AllAlike (marks.enter false) methods methods' →
    Stmt.Alike marks (.class name methods) (.class name methods')

/-- Statements are alike, one by one. -/
inductive Stmt.AllAlike : Marks → List Stmt → List Stmt → Prop where
  | nil {marks} : Stmt.AllAlike marks [] []
  | cons {marks s s' rest rest'} : Stmt.Alike marks s s' → Stmt.AllAlike marks rest rest' →
    Stmt.AllAlike marks (s :: rest) (s' :: rest')

/-- Two functions of the same name are alike. -/
inductive FunctionDecl.Alike : Marks → FunctionDecl → FunctionDecl → Prop where
  | mk {marks marked name params body body'} : (∀ p ∈ params, p.lexeme ≠ r.new) →
    Stmt.AllAlike (marks.enter marked) body body' →
    FunctionDecl.Alike marks ⟨name, params, body⟩ ⟨name, params.map (r.token marked), body'⟩

/-- Functions are alike, one by one. -/
inductive FunctionDecl.AllAlike : Marks → List FunctionDecl → List FunctionDecl → Prop where
  | nil {marks} : FunctionDecl.AllAlike marks [] []
  | cons {marks d d' rest rest'} : FunctionDecl.Alike marks d d' →
    FunctionDecl.AllAlike marks rest rest' → FunctionDecl.AllAlike marks (d :: rest) (d' :: rest')

end

variable {r}

/-- Functions that are alike have the same name. -/
theorem FunctionDecl.Alike.name_eq {marks : Marks} {d d' : FunctionDecl}
    (h : FunctionDecl.Alike r marks d d') : d'.name = d.name := by
  cases h
  rfl

/-- Functions that are alike have as many parameters. -/
theorem FunctionDecl.Alike.params_length {marks : Marks} {d d' : FunctionDecl}
    (h : FunctionDecl.Alike r marks d d') : d'.params.length = d.params.length := by
  cases h
  exact List.length_map _

/-- Functions that are alike are initializers both or neither. -/
theorem FunctionDecl.Alike.isInitializer_eq {marks : Marks} {d d' : FunctionDecl}
    (h : FunctionDecl.Alike r marks d d') : d'.isInitializer = d.isInitializer := by
  rw [FunctionDecl.isInitializer, h.name_eq, FunctionDecl.isInitializer]

mutual

/-- A well-formed expression without the new name is clear of it. -/
theorem Expr.clear_of_names : (e : Expr) → e.WellFormed → (∀ t ∈ e.names, t.lexeme ≠ r.new) → e.Clear r
  | .literal _, _, _ => trivial
  | .grouping inner, hwf, h => inner.clear_of_names hwf h
  | .unary _ right, hwf, h => right.clear_of_names hwf h
  | .binary left _ right, hwf, h =>
    have ⟨hleft, hright⟩ := List.forall_mem_append.mp h
    ⟨left.clear_of_names hwf.1 hleft, right.clear_of_names hwf.2 hright⟩
  | .logical left _ right, hwf, h =>
    have ⟨hleft, hright⟩ := List.forall_mem_append.mp h
    ⟨left.clear_of_names hwf.1 hleft, right.clear_of_names hwf.2 hright⟩
  | .variable _ name, _, h => h name (List.mem_singleton_self name)
  | .assign _ _ value, hwf, h =>
    have ⟨hname, hvalue⟩ := List.forall_mem_cons.mp h
    ⟨hname, value.clear_of_names hwf hvalue⟩
  | .call callee _ arguments, hwf, h =>
    have ⟨hcallee, harguments⟩ := List.forall_mem_append.mp h
    ⟨callee.clear_of_names hwf.1 hcallee, Expr.allClear_of_names arguments hwf.2 harguments⟩
  | .get object _, hwf, h => object.clear_of_names hwf h
  | .set object _ value, hwf, h =>
    have ⟨hobject, hvalue⟩ := List.forall_mem_append.mp h
    ⟨object.clear_of_names hwf.1 hobject, value.clear_of_names hwf.2 hvalue⟩
  | .this _ _, hwf, _ => hwf

/-- Well-formed expressions without the new name are clear of it. -/
theorem Expr.allClear_of_names : (es : List Expr) → Expr.AllWellFormed es →
    (∀ t ∈ Expr.namesAll es, t.lexeme ≠ r.new) → Expr.AllClear r es
  | [], _, _ => trivial
  | e :: rest, hwf, h =>
    have ⟨hfirst, hrest⟩ := List.forall_mem_append.mp h
    ⟨e.clear_of_names hwf.1 hfirst, Expr.allClear_of_names rest hwf.2 hrest⟩

end

/-- An optional expression that is well-formed and without the new name is clear of it. -/
theorem Expr.optionClear_of_names (e : Option Expr) (hwf : ∀ e' ∈ e, e'.WellFormed)
    (h : ∀ t ∈ Expr.namesOption e, t.lexeme ≠ r.new) : ∀ e' ∈ e, e'.Clear r := by
  rintro e' rfl
  exact e'.clear_of_names (hwf e' rfl) h

/-- A statement declares no function or class with the old name, if the variable is renamed in its scope. -/
def Stmt.Spares (r : Renaming) (marked : Bool) (s : Stmt) : Prop :=
  marked = true → ∀ name, s.declared? = some name → name.lexeme = r.old → ∃ initial, s = .variable name initial

/-- A statement that declares nothing spares the old name. -/
theorem Stmt.spares_of_not_declared {marked : Bool} {s : Stmt} (h : s.declared? = none) :
    s.Spares r marked := by
  intro _ name hname
  rw [h] at hname
  cases hname

mutual

/-- A statement is like itself with the variable renamed. -/
theorem Stmt.alike_rename : (s : Stmt) → (marks : Marks) → s.WellFormed →
    (∀ t ∈ s.names, t.lexeme ≠ r.new) → s.Spares r (marks 0) → Stmt.Alike r marks s (s.rename r marks)
  | .expression expr, _, hwf, h, _ => .expression (expr.clear_of_names hwf h)
  | .print expr, _, hwf, h, _ => .print (expr.clear_of_names hwf h)
  | .variable _ initial, _, hwf, h, _ =>
    have ⟨hname, hinitial⟩ := List.forall_mem_cons.mp h
    .variable hname (Expr.optionClear_of_names initial hwf.2 hinitial)
  | .block body, marks, hwf, h, _ =>
    .block (Stmt.allAlike_rename body (marks.enter false) hwf h fun _ _ h => by cases h)
  | .conditional condition thenBranch none, marks, hwf, h, _ =>
    have ⟨hcondition, hthen⟩ := List.forall_mem_append.mp h
    .conditional (condition.clear_of_names hwf.1 hcondition)
      (thenBranch.alike_rename marks hwf.2.2 hthen (Stmt.spares_of_not_declared hwf.2.1))
  | .conditional condition thenBranch (some elseBranch), marks, hwf, h, _ =>
    have ⟨hboth, helse⟩ := List.forall_mem_append.mp h
    have ⟨hcondition, hthen⟩ := List.forall_mem_append.mp hboth
    .conditionalElse (condition.clear_of_names hwf.1 hcondition)
      (thenBranch.alike_rename marks hwf.2.1.2 hthen (Stmt.spares_of_not_declared hwf.2.1.1))
      (elseBranch.alike_rename marks hwf.2.2.2 helse (Stmt.spares_of_not_declared hwf.2.2.1))
  | .loop condition body, marks, hwf, h, _ =>
    have ⟨hcondition, hbody⟩ := List.forall_mem_append.mp h
    .loop (condition.clear_of_names hwf.1 hcondition)
      (body.alike_rename marks hwf.2.2 hbody (Stmt.spares_of_not_declared hwf.2.1))
  | .function declaration, marks, hwf, h, hspares => by
    refine .function ⟨?_, fun hmarked hold => ?_⟩ (declaration.alike_rename marks hwf h)
    · obtain ⟨name, params, body⟩ := declaration
      exact (List.forall_mem_cons.mp h).1
    · obtain ⟨_, hvariable⟩ := hspares hmarked _ rfl hold
      cases hvariable
  | .return _ value, _, hwf, h, _ => .return (Expr.optionClear_of_names value hwf h)
  | .class name methods, marks, hwf, h, hspares => by
    obtain ⟨hname, hmethods⟩ := List.forall_mem_cons.mp h
    refine .class ⟨hname, fun hmarked hold => ?_⟩
      (FunctionDecl.allAlike_rename methods (marks.enter false) hwf hmethods)
    obtain ⟨_, hvariable⟩ := hspares hmarked _ rfl hold
    cases hvariable

/-- Well-formed statements without the new name are like those in which the variable is renamed. -/
theorem Stmt.allAlike_rename : (ss : List Stmt) → (marks : Marks) → Stmt.AllWellFormed ss →
    (∀ t ∈ Stmt.namesAll ss, t.lexeme ≠ r.new) → (∀ s ∈ ss, s.Spares r (marks 0)) →
    Stmt.AllAlike r marks ss (Stmt.renameAll r marks ss)
  | [], _, _, _, _ => .nil
  | s :: rest, marks, hwf, h, hspares =>
    have ⟨hfirst, hrest⟩ := List.forall_mem_append.mp h
    have ⟨hspare, hspares⟩ := List.forall_mem_cons.mp hspares
    .cons (s.alike_rename marks hwf.1 hfirst hspare) (Stmt.allAlike_rename rest marks hwf.2 hrest hspares)

/-- A well-formed function without the new name is like the one in which the variable is renamed. -/
theorem FunctionDecl.alike_rename : (d : FunctionDecl) → (marks : Marks) → d.WellFormed →
    (∀ t ∈ d.names, t.lexeme ≠ r.new) → FunctionDecl.Alike r marks d (d.rename r marks)
  | ⟨name, params, body⟩, marks, hwf, h => by
    obtain ⟨hparams, hbody⟩ := List.forall_mem_append.mp (List.forall_mem_cons.mp h).2
    have hsame : params.map (r.token false) = params := List.map_id' params
    have halike : FunctionDecl.Alike r marks ⟨name, params, body⟩
        ⟨name, params.map (r.token false), Stmt.renameAll r (marks.enter false) body⟩ :=
      .mk hparams (Stmt.allAlike_rename body (marks.enter false) hwf hbody fun _ _ h => by cases h)
    rwa [hsame] at halike

/-- Well-formed functions without the new name are like those in which the variable is renamed. -/
theorem FunctionDecl.allAlike_rename : (ds : List FunctionDecl) → (marks : Marks) →
    FunctionDecl.AllWellFormed ds → (∀ t ∈ FunctionDecl.namesAll ds, t.lexeme ≠ r.new) →
    FunctionDecl.AllAlike r marks ds (FunctionDecl.renameAll r marks ds)
  | [], _, _, _ => .nil
  | d :: rest, marks, hwf, h =>
    have ⟨hfirst, hrest⟩ := List.forall_mem_append.mp h
    .cons (d.alike_rename marks hwf.1 hfirst) (FunctionDecl.allAlike_rename rest marks hwf.2 hrest)

end

/-- A name that is renamed in no scope is not renamed. -/
theorem Renaming.use_none (id : Occurrence) (name : Token) : r.use .none id name = name := by
  unfold Renaming.use
  cases r.distances.get? id <;> rfl

mutual

/-- Without a marked scope nothing is renamed. -/
theorem Expr.rename_none : (e : Expr) → e.rename r .none = e
  | .literal _ => rfl
  | .grouping inner => by simp [Expr.rename, inner.rename_none]
  | .unary _ right => by simp [Expr.rename, right.rename_none]
  | .binary left _ right => by simp [Expr.rename, left.rename_none, right.rename_none]
  | .logical left _ right => by simp [Expr.rename, left.rename_none, right.rename_none]
  | .variable id name => by simp [Expr.rename, Renaming.use_none]
  | .assign id name value => by simp [Expr.rename, Renaming.use_none, value.rename_none]
  | .call callee _ arguments => by
    simp [Expr.rename, callee.rename_none, Expr.renameAll_none arguments]
  | .get object _ => by simp [Expr.rename, object.rename_none]
  | .set object _ value => by simp [Expr.rename, object.rename_none, value.rename_none]
  | .this _ _ => rfl

/-- In no marked scope, renaming leaves expressions alone. -/
theorem Expr.renameAll_none : (es : List Expr) → Expr.renameAll r .none es = es
  | [] => rfl
  | e :: rest => by simp [Expr.renameAll, e.rename_none, Expr.renameAll_none rest]

end

/-- In no marked scope, renaming leaves an optional expression alone. -/
theorem Expr.map_rename_none (e : Option Expr) : e.map (·.rename r .none) = e := by
  cases e with
  | none => rfl
  | some e => exact congrArg some e.rename_none

mutual

/-- In no marked scope, renaming leaves a statement alone. -/
theorem Stmt.rename_none : (s : Stmt) → s.rename r .none = s
  | .expression expr => by simp [Stmt.rename, expr.rename_none]
  | .print expr => by simp [Stmt.rename, expr.rename_none]
  | .variable name initial => by
    rw [Stmt.rename, Expr.map_rename_none]
    rfl
  | .block body => by rw [Stmt.rename, Marks.enter_none, Stmt.renameAll_none body]
  | .conditional condition thenBranch none => by
    simp [Stmt.rename, condition.rename_none, thenBranch.rename_none]
  | .conditional condition thenBranch (some elseBranch) => by
    simp [Stmt.rename, condition.rename_none, thenBranch.rename_none, elseBranch.rename_none]
  | .loop condition body => by simp [Stmt.rename, condition.rename_none, body.rename_none]
  | .function declaration => by simp [Stmt.rename, declaration.rename_none]
  | .return _ value => by rw [Stmt.rename, Expr.map_rename_none]
  | .class _ methods => by rw [Stmt.rename, Marks.enter_none, FunctionDecl.renameAll_none methods]

/-- In no marked scope, renaming leaves statements alone. -/
theorem Stmt.renameAll_none : (ss : List Stmt) → Stmt.renameAll r .none ss = ss
  | [] => rfl
  | s :: rest => by simp [Stmt.renameAll, s.rename_none, Stmt.renameAll_none rest]

/-- In no marked scope, renaming leaves a function alone. -/
theorem FunctionDecl.rename_none : (d : FunctionDecl) → d.rename r .none = d
  | ⟨_, _, body⟩ => by rw [FunctionDecl.rename, Marks.enter_none, Stmt.renameAll_none body]

/-- In no marked scope, renaming leaves functions alone. -/
theorem FunctionDecl.renameAll_none : (ds : List FunctionDecl) → FunctionDecl.renameAll r .none ds = ds
  | [] => rfl
  | d :: rest => by simp [FunctionDecl.renameAll, d.rename_none, FunctionDecl.renameAll_none rest]

end

section Unchanged

/-- A statement is like itself. -/
theorem Stmt.alike_self {s : Stmt} (hwf : s.WellFormed) (h : ∀ t ∈ s.names, t.lexeme ≠ r.new) :
    Stmt.Alike r .none s s := by
  have halike := s.alike_rename .none hwf h fun h => by cases h
  rwa [Stmt.rename_none] at halike

/-- In no marked scope, well-formed statements without the new name are like themselves. -/
theorem Stmt.allAlike_self {ss : List Stmt} (hwf : Stmt.AllWellFormed ss)
    (h : ∀ t ∈ Stmt.namesAll ss, t.lexeme ≠ r.new) : Stmt.AllAlike r .none ss ss := by
  have halike := Stmt.allAlike_rename ss .none hwf h fun _ _ h => by cases h
  rwa [Stmt.renameAll_none] at halike

/-- In no marked scope, a well-formed function without the new name is like itself. -/
theorem FunctionDecl.alike_self {d : FunctionDecl} (hwf : d.WellFormed)
    (h : ∀ t ∈ d.names, t.lexeme ≠ r.new) : FunctionDecl.Alike r .none d d := by
  have halike := d.alike_rename .none hwf h
  rwa [FunctionDecl.rename_none] at halike

/-- In no marked scope, well-formed functions without the new name are like themselves. -/
theorem FunctionDecl.allAlike_self {ds : List FunctionDecl} (hwf : FunctionDecl.AllWellFormed ds)
    (h : ∀ t ∈ FunctionDecl.namesAll ds, t.lexeme ≠ r.new) : FunctionDecl.AllAlike r .none ds ds := by
  have halike := FunctionDecl.allAlike_rename ds .none hwf h
  rwa [FunctionDecl.renameAll_none] at halike

end Unchanged

/-- The scope of a variable declares nothing else under its name. -/
theorem spares_of_declares {plan : List Site} {ss : List Stmt} {names : Bindings Bool}
    {outer : LocalScopes} (h : Stmt.AllResolved plan ss (names :: outer))
    (hold : names.binds r.old = true ∨ Declares r ss) : ∀ s ∈ ss, s.Spares r true := by
  obtain ⟨hfree, hdistinct⟩ := h.distinct
  rintro s hs - name hname hlexeme
  rcases hold with hold | ⟨name', initial, hvariable, hlexeme'⟩
  · rw [Bindings.binds, ← hlexeme, hfree s hs name hname] at hold
    cases hold
  · by_cases heq : s = .variable name' initial
    · subst heq
      cases hname
      exact ⟨initial, rfl⟩
    · have : Std.Symm fun s t : Stmt => ∀ name name', s.declared? = some name →
          t.declared? = some name' → name.lexeme ≠ name'.lexeme :=
        ⟨fun _ _ h name name' hname hname' => (h name' name hname' hname).symm⟩
      exact absurd (hlexeme.trans hlexeme'.symm)
        (hdistinct.forall hs hvariable heq name name' hname rfl)

mutual

/-- A program is like itself with one variable renamed. -/
theorem Stmt.Renames.alike {plan : List Site} {scopes : LocalScopes} {s s' : Stmt} :
    Stmt.Renames r s s' → s.WellFormed → (∀ t ∈ s.names, t.lexeme ≠ r.new) → s.Resolved plan scopes →
    Stmt.Alike r .none s s'
  | .here hdeclares, hwf, h, hresolved =>
    .block (Stmt.allAlike_rename _ _ hwf h (spares_of_declares hresolved (.inr hdeclares)))
  | .block hbody, hwf, h, hresolved =>
    .block (Marks.enter_none.symm ▸ hbody.alike hwf h hresolved)
  | @Stmt.Renames.thenBranch _ condition thenBranch thenBranch' none hthen, hwf, h, hresolved => by
    obtain ⟨hcondition, hnames⟩ := List.forall_mem_append.mp h
    have halike := Stmt.Alike.conditional (condition.clear_of_names hwf.1 hcondition)
      (hthen.alike hwf.2.2 hnames hresolved.2.2)
    rwa [Expr.rename_none] at halike
  | @Stmt.Renames.thenBranch _ condition thenBranch thenBranch' (some elseBranch) hthen, hwf, h,
      hresolved => by
    obtain ⟨hboth, helse⟩ := List.forall_mem_append.mp h
    obtain ⟨hcondition, hnames⟩ := List.forall_mem_append.mp hboth
    have halike := Stmt.Alike.conditionalElse (condition.clear_of_names hwf.1 hcondition)
      (hthen.alike hwf.2.1.2 hnames hresolved.2.1.2) (Stmt.alike_self hwf.2.2.2 helse)
    rwa [Expr.rename_none] at halike
  | @Stmt.Renames.elseBranch _ condition thenBranch _ _ helse, hwf, h, hresolved => by
    obtain ⟨hboth, hnames⟩ := List.forall_mem_append.mp h
    obtain ⟨hcondition, hthen⟩ := List.forall_mem_append.mp hboth
    have halike := Stmt.Alike.conditionalElse (condition.clear_of_names hwf.1 hcondition)
      (Stmt.alike_self hwf.2.1.2 hthen) (helse.alike hwf.2.2.2 hnames hresolved.2.2.2)
    rwa [Expr.rename_none] at halike
  | @Stmt.Renames.loop _ condition _ _ hbody, hwf, h, hresolved => by
    obtain ⟨hcondition, hnames⟩ := List.forall_mem_append.mp h
    have halike := Stmt.Alike.loop (condition.clear_of_names hwf.1 hcondition)
      (hbody.alike hwf.2.2 hnames hresolved.2.2)
    rwa [Expr.rename_none] at halike
  | @Stmt.Renames.function _ d _ hd, hwf, h, hresolved => by
    refine .function ⟨?_, fun h => by cases h⟩ (hd.alike hwf h hresolved.2)
    obtain ⟨name, params, body⟩ := d
    exact (List.forall_mem_cons.mp h).1
  | .class hmethods, hwf, h, hresolved => by
    obtain ⟨hname, hnames⟩ := List.forall_mem_cons.mp h
    exact .class ⟨hname, fun h => by cases h⟩
      (Marks.enter_none.symm ▸ hmethods.alike hwf hnames hresolved.2)

/-- Statements that are well-formed and resolved are like those in which one variable is renamed. -/
theorem Stmt.AllRenames.alike {plan : List Site} {scopes : LocalScopes} {ss ss' : List Stmt} :
    Stmt.AllRenames r ss ss' → Stmt.AllWellFormed ss → (∀ t ∈ Stmt.namesAll ss, t.lexeme ≠ r.new) →
    Stmt.AllResolved plan ss scopes → Stmt.AllAlike r .none ss ss'
  | .head hs, hwf, h, hresolved =>
    have ⟨hfirst, hrest⟩ := List.forall_mem_append.mp h
    .cons (hs.alike hwf.1 hfirst hresolved.1) (Stmt.allAlike_self hwf.2 hrest)
  | .tail hrest, hwf, h, hresolved =>
    have ⟨hfirst, hnames⟩ := List.forall_mem_append.mp h
    .cons (Stmt.alike_self hwf.1 hfirst) (hrest.alike hwf.2 hnames hresolved.2)

/-- A function that is well-formed and resolved is like the one in which one variable is renamed. -/
theorem FunctionDecl.Renames.alike {plan : List Site} {scopes : LocalScopes} {d d' : FunctionDecl} :
    FunctionDecl.Renames r d d' → d.WellFormed → (∀ t ∈ d.names, t.lexeme ≠ r.new) →
    d.Resolved plan scopes → FunctionDecl.Alike r .none d d'
  | .here hdeclares, hwf, h, hresolved => by
    obtain ⟨hparams, hbody⟩ := List.forall_mem_append.mp (List.forall_mem_cons.mp h).2
    refine .mk hparams (Stmt.allAlike_rename _ _ hwf hbody (spares_of_declares hresolved ?_))
    refine hdeclares.imp_left fun ⟨p, hp, hlexeme⟩ => ?_
    rw [← hlexeme]
    exact parameterScope_binds hp
  | @FunctionDecl.Renames.body _ name params body body' hbody, hwf, h, hresolved => by
    obtain ⟨hparams, hnames⟩ := List.forall_mem_append.mp (List.forall_mem_cons.mp h).2
    have hsame : params.map (r.token false) = params := List.map_id' params
    have halike : FunctionDecl.Alike r .none ⟨name, params, body⟩
        ⟨name, params.map (r.token false), body'⟩ :=
      .mk hparams (Marks.enter_none.symm ▸ hbody.alike hwf hnames hresolved)
    rwa [hsame] at halike

/-- Functions that are well-formed and resolved are like those in which one variable is renamed. -/
theorem FunctionDecl.AllRenames.alike {plan : List Site} {scopes : LocalScopes}
    {ds ds' : List FunctionDecl} :
    FunctionDecl.AllRenames r ds ds' → FunctionDecl.AllWellFormed ds →
    (∀ t ∈ FunctionDecl.namesAll ds, t.lexeme ≠ r.new) → FunctionDecl.AllResolved plan ds scopes →
    FunctionDecl.AllAlike r .none ds ds'
  | .head hd, hwf, h, hresolved =>
    have ⟨hfirst, hrest⟩ := List.forall_mem_append.mp h
    .cons (hd.alike hwf.1 hfirst hresolved.1) (FunctionDecl.allAlike_self hwf.2 hrest)
  | .tail hrest, hwf, h, hresolved =>
    have ⟨hfirst, hnames⟩ := List.forall_mem_append.mp h
    .cons (FunctionDecl.alike_self hwf.1 hfirst) (hrest.alike hwf.2 hnames hresolved.2)

end

/-- A variable that statements declare is among their names. -/
theorem old_mem_of_declares {ss : List Stmt} (h : Declares r ss) :
    ∃ t ∈ Stmt.namesAll ss, t.lexeme = r.old := by
  obtain ⟨name, initial, hs, hold⟩ := h
  refine ⟨name, ?_, hold⟩
  induction ss with
  | nil => cases hs
  | cons s rest ih =>
    rcases List.mem_cons.mp hs with rfl | hs
    · exact List.mem_append_left _ (List.mem_cons_self ..)
    · exact List.mem_append_right _ (ih hs)

mutual

/-- The old name is a name of the program. -/
theorem Stmt.Renames.old_mem {s s' : Stmt} : Stmt.Renames r s s' → ∃ t ∈ s.names, t.lexeme = r.old
  | .here hdeclares => old_mem_of_declares hdeclares
  | .block h => h.old_mem
  | @Stmt.Renames.thenBranch _ _ _ _ none h =>
    have ⟨t, ht, hold⟩ := h.old_mem
    ⟨t, List.mem_append_right _ ht, hold⟩
  | @Stmt.Renames.thenBranch _ _ _ _ (some _) h =>
    have ⟨t, ht, hold⟩ := h.old_mem
    ⟨t, List.mem_append_left _ (List.mem_append_right _ ht), hold⟩
  | .elseBranch h =>
    have ⟨t, ht, hold⟩ := h.old_mem
    ⟨t, List.mem_append_right _ ht, hold⟩
  | .loop h =>
    have ⟨t, ht, hold⟩ := h.old_mem
    ⟨t, List.mem_append_right _ ht, hold⟩
  | .function h => h.old_mem
  | .class h =>
    have ⟨t, ht, hold⟩ := h.old_mem
    ⟨t, List.mem_cons_of_mem _ ht, hold⟩

/-- The variable that is renamed is one of the names in the statements. -/
theorem Stmt.AllRenames.old_mem {ss ss' : List Stmt} :
    Stmt.AllRenames r ss ss' → ∃ t ∈ Stmt.namesAll ss, t.lexeme = r.old
  | .head h =>
    have ⟨t, ht, hold⟩ := h.old_mem
    ⟨t, List.mem_append_left _ ht, hold⟩
  | .tail h =>
    have ⟨t, ht, hold⟩ := h.old_mem
    ⟨t, List.mem_append_right _ ht, hold⟩

/-- The variable that is renamed is one of the names in the function. -/
theorem FunctionDecl.Renames.old_mem {d d' : FunctionDecl} :
    FunctionDecl.Renames r d d' → ∃ t ∈ d.names, t.lexeme = r.old
  | @FunctionDecl.Renames.here _ _ _ _ (.inl ⟨p, hp, hold⟩) =>
    ⟨p, List.mem_cons_of_mem _ (List.mem_append_left _ hp), hold⟩
  | @FunctionDecl.Renames.here _ _ _ _ (.inr hdeclares) =>
    have ⟨t, ht, hold⟩ := old_mem_of_declares hdeclares
    ⟨t, List.mem_cons_of_mem _ (List.mem_append_right _ ht), hold⟩
  | .body h =>
    have ⟨t, ht, hold⟩ := h.old_mem
    ⟨t, List.mem_cons_of_mem _ (List.mem_append_right _ ht), hold⟩

/-- The variable that is renamed is one of the names in the functions. -/
theorem FunctionDecl.AllRenames.old_mem {ds ds' : List FunctionDecl} :
    FunctionDecl.AllRenames r ds ds' → ∃ t ∈ FunctionDecl.namesAll ds, t.lexeme = r.old
  | .head h =>
    have ⟨t, ht, hold⟩ := h.old_mem
    ⟨t, List.mem_append_left _ ht, hold⟩
  | .tail h =>
    have ⟨t, ht, hold⟩ := h.old_mem
    ⟨t, List.mem_append_right _ ht, hold⟩

end

end Trees

end Lox
