import Lox.Proofs.Resolution.Numbering
import Lox.Proofs.Resolution.Verdict

/-!
# The nearest declaration before a use

The rule that the table of distances follows, told by where things stand in the text. A place in a program
sees, of each local scope around it, the names that are declared before it; a declaration stands before
its own initializer and its own bodies. A use refers to the nearest scope of which it sees its name, and
its distance is the number of scopes between. No walk is needed to say this, and nothing in it depends on
what else is wrong with the program.

Resolution records exactly these distances, also where it reports errors: what it reports changes neither
the names of a scope nor the scopes that are open.
-/

set_option autoImplicit false

namespace Lox

/-- The names that a place sees: those declared before it in each local scope around it, the innermost
scope first. -/
abbrev Visible := List (List String)

namespace Visible

/-- The names seen behind further declarations in the innermost scope; outside all local scopes names are
global. -/
def declaring (names : List Token) : Visible → Visible
  | [] => []
  | scope :: outer => (scope ++ names.map (·.lexeme)) :: outer

/-- The number of scopes between a place and the nearest scope of which it sees the name. -/
def distance? (name : String) (v : Visible) : Option Nat := v.findIdx? (·.contains name)

/-- No declarations add nothing to what a place sees. -/
theorem declaring_nil (v : Visible) : v.declaring [] = v := by
  cases v <;> simp [declaring]

/-- Declarations in a row add to what a place sees one after the other. -/
theorem declaring_append (names names' : List Token) (v : Visible) :
    v.declaring (names ++ names') = (v.declaring names).declaring names' := by
  cases v <;> simp [declaring]

end Visible

/-- A use of a name or of `this`: its number and what it is called. -/
structure NameUse where
  id : Occurrence
  name : String

/-- The use at a site. -/
def Site.use (site : Site) : NameUse := ⟨site.id, site.name⟩

mutual

/-- The uses in an expression. -/
def Expr.uses : Expr → List NameUse
  | .literal _ => []
  | .grouping inner => inner.uses
  | .unary _ right => right.uses
  | .binary left _ right => left.uses ++ right.uses
  | .logical left _ right => left.uses ++ right.uses
  | .variable id name => [⟨id, name.lexeme⟩]
  | .assign id name value => value.uses ++ [⟨id, name.lexeme⟩]
  | .call callee _ arguments => callee.uses ++ Expr.usesAll arguments
  | .get object _ => object.uses
  | .set object _ value => value.uses ++ object.uses
  | .this id keyword => [⟨id, keyword.lexeme⟩]

/-- The uses in expressions. -/
def Expr.usesAll : List Expr → List NameUse
  | [] => []
  | e :: rest => e.uses ++ Expr.usesAll rest

end

/-- The names that statements declare in the scope in which they stand. -/
def Stmt.declaredBy (ss : List Stmt) : List Token := ss.filterMap Stmt.declared?

mutual

/-- A use stands in a statement, at a place that sees `there`, if `here` is seen before the statement. A declaration
sees itself: a variable in its initializer, a function or class in its bodies. -/
inductive Stmt.UsedIn : Visible → Stmt → NameUse → Visible → Prop where
  | expression {here e u} : u ∈ e.uses → Stmt.UsedIn here (.expression e) u here
  | print {here e u} : u ∈ e.uses → Stmt.UsedIn here (.print e) u here
  | initializer {here name e u} : u ∈ e.uses →
      Stmt.UsedIn here (.variable name (some e)) u (here.declaring [name])
  | block {here body u there} :
      Stmt.UsedAmong ([] :: here) body u there → Stmt.UsedIn here (.block body) u there
  | ifCondition {here e thenBranch elseBranch u} :
      u ∈ e.uses → Stmt.UsedIn here (.conditional e thenBranch elseBranch) u here
  | thenBranch {here e thenBranch elseBranch u there} : Stmt.UsedIn here thenBranch u there →
      Stmt.UsedIn here (.conditional e thenBranch elseBranch) u there
  | elseBranch {here e thenBranch elseBranch u there} : Stmt.UsedIn here elseBranch u there →
      Stmt.UsedIn here (.conditional e thenBranch (some elseBranch)) u there
  | loopCondition {here e body u} : u ∈ e.uses → Stmt.UsedIn here (.loop e body) u here
  | loopBody {here e body u there} :
      Stmt.UsedIn here body u there → Stmt.UsedIn here (.loop e body) u there
  | function {here d u there} : FunctionDecl.UsedIn (here.declaring [d.name]) d u there →
      Stmt.UsedIn here (.function d) u there
  | return {here keyword e u} : u ∈ e.uses → Stmt.UsedIn here (.return keyword (some e)) u here
  | method {here name methods d u there} : d ∈ methods →
      FunctionDecl.UsedIn ([thisName] :: here.declaring [name]) d u there →
      Stmt.UsedIn here (.class name methods) u there

/-- A use stands in one of some statements. This one sees, of the scope in which they stand, what those before it
declare. -/
inductive Stmt.UsedAmong : Visible → List Stmt → NameUse → Visible → Prop where
  | at {here before s after u there} :
      Stmt.UsedIn (here.declaring (Stmt.declaredBy before)) s u there →
      Stmt.UsedAmong here (before ++ s :: after) u there

/-- A use stands in the body of a function, which is one scope with the parameters. -/
inductive FunctionDecl.UsedIn : Visible → FunctionDecl → NameUse → Visible → Prop where
  | body {here name params body u there} :
      Stmt.UsedAmong (params.map (·.lexeme) :: here) body u there →
      FunctionDecl.UsedIn here ⟨name, params, body⟩ u there

end

/-- A use stays at its place when a statement before it is counted too. -/
theorem Stmt.UsedAmong.cons {here : Visible} {s : Stmt} {rest : List Stmt} {u : NameUse} {there : Visible}
    (h : Stmt.UsedAmong (here.declaring (Stmt.declaredBy [s])) rest u there) :
    Stmt.UsedAmong here (s :: rest) u there := by
  cases h with
  | @«at» _ before t after _ _ hused =>
    rw [← Visible.declaring_append, Stmt.declaredBy, Stmt.declaredBy, ← List.filterMap_append] at hused
    exact @Stmt.UsedAmong.at here (s :: before) t _ u there hused

section Sites

/-! Every use has a site, whose open scopes bind the names that the use sees. -/

mutual

/-- The sites of an expression are its uses, all of them within the scopes around it. -/
theorem Expr.sites_map_use (scopes : LocalScopes) (pending : Option String) : (e : Expr) →
    (e.sites scopes pending).map (fun site => (site.use, site.scopes)) = e.uses.map (·, scopes)
  | .literal _ => rfl
  | .grouping inner => inner.sites_map_use scopes pending
  | .unary _ right => right.sites_map_use scopes pending
  | .binary left _ right => by
    simp [Expr.sites, Expr.uses, left.sites_map_use scopes pending,
      right.sites_map_use scopes pending]
  | .logical left _ right => by
    simp [Expr.sites, Expr.uses, left.sites_map_use scopes pending,
      right.sites_map_use scopes pending]
  | .variable _ _ => rfl
  | .assign _ _ value => by
    simp [Expr.sites, Expr.uses, value.sites_map_use scopes pending]
    rfl
  | .call callee _ arguments => by
    simp [Expr.sites, Expr.uses, callee.sites_map_use scopes pending,
      Expr.sitesAll_map_use scopes pending arguments]
  | .get object _ => object.sites_map_use scopes pending
  | .set object _ value => by
    simp [Expr.sites, Expr.uses, value.sites_map_use scopes pending,
      object.sites_map_use scopes pending]
  | .this _ _ => rfl

/-- The sites of expressions are their uses, all within the same scopes. -/
theorem Expr.sitesAll_map_use (scopes : LocalScopes) (pending : Option String) : (es : List Expr) →
    (Expr.sitesAll scopes pending es).map (fun site => (site.use, site.scopes)) =
      (Expr.usesAll es).map (·, scopes)
  | [] => rfl
  | e :: rest => by
    simp [Expr.sitesAll, Expr.usesAll, e.sites_map_use scopes pending,
      Expr.sitesAll_map_use scopes pending rest]

end

/-- A use in an expression has a site within the scopes around the expression. -/
theorem Expr.exists_site {e : Expr} {u : NameUse} (hu : u ∈ e.uses) (scopes : LocalScopes)
    (pending : Option String) :
    ∃ site ∈ e.sites scopes pending, site.use = u ∧ site.scopes = scopes := by
  have hmem : (u, scopes) ∈ (e.sites scopes pending).map (fun site => (site.use, site.scopes)) := by
    rw [e.sites_map_use scopes pending]
    exact List.mem_map_of_mem hu
  obtain ⟨site, hsite, heq⟩ := List.mem_map.mp hmem
  exact ⟨site, hsite, congrArg Prod.fst heq, congrArg Prod.snd heq⟩

namespace LocalScopes

/-- The open scopes bind the names that a place sees, and no others. -/
def Shows (scopes : LocalScopes) (v : Visible) : Prop :=
  List.Forall₂ (fun scope names => ∀ name, scope.binds name = names.contains name) scopes v

variable {scopes : LocalScopes} {v : Visible}

/-- What is seen tells the distance of a name. -/
theorem Shows.distance?_eq (h : scopes.Shows v) (name : String) :
    Resolution.distance? name scopes = v.distance? name := by
  induction h with
  | nil => rfl
  | cons hscope _ ih =>
    rw [distance?_cons, ih, Visible.distance?, Visible.distance?, List.findIdx?_cons, hscope]

/-- A scope binds the name that is put, and those that it bound before. -/
theorem binds_put (scope : Bindings Bool) (x name : String) (status : Bool) :
    Bindings.binds (scope.put x status) name = (decide (x = name) || scope.binds name) := by
  rw [Bindings.binds, Bindings.get?_put]
  by_cases h : x = name <;> simp [h, Bindings.binds]

/-- A name is seen from its declaration on, whether or not this is complete. -/
theorem Shows.complete (h : scopes.Shows v) (name : Token) :
    (scopes.complete name.lexeme).Shows (v.declaring [name]) := by
  cases h with
  | nil => exact .nil
  | cons hscope houter =>
    refine .cons (fun n => ?_) houter
    rw [binds_put, hscope]
    simp [Bool.or_comm, eq_comm]

/-- Declarations that are completed in the open scopes are added to what a place sees. -/
theorem Shows.completeAll (h : scopes.Shows v) (names : List Token) :
    (LocalScopes.completeAll names scopes).Shows (v.declaring names) := by
  induction names generalizing scopes v with
  | nil => exact (v.declaring_nil).symm ▸ h
  | cons name rest ih =>
    rw [← List.singleton_append, Visible.declaring_append]
    exact ih (h.complete name)

/-- Beginning a declaration shows the name. -/
theorem Shows.declare (h : scopes.Shows v) (name : Token) :
    (scopes.declare name.lexeme).Shows (v.declaring [name]) := by
  cases h with
  | nil => exact .nil
  | @cons scope _ _ _ hscope houter =>
    refine .cons (fun n => ?_) houter
    cases hb : scope.binds name.lexeme with
    | true =>
      rw [hscope] at hb
      simp only [if_true, hscope, List.contains_append, List.map_singleton]
      by_cases hn : n = name.lexeme <;> simp_all
    | false =>
      rw [if_neg (by simp), binds_put, hscope]
      simp [Bool.or_comm, eq_comm]

/-- Parameters that are completed in an empty scope are the scope of a function. -/
theorem completeAll_parameters (params : List Token) (outer : LocalScopes) :
    completeAll params ([] :: outer) = parameterScope params :: outer := by
  have general (scope : Bindings Bool) : completeAll params (scope :: outer) =
      params.foldl (fun scope p => scope.put p.lexeme true) scope :: outer := by
    induction params generalizing scope with
    | nil => rfl
    | cons p rest ih => exact ih _
  exact general []

/-- The body of a function sees the parameters. -/
theorem Shows.parameters (h : scopes.Shows v) (params : List Token) :
    LocalScopes.Shows (parameterScope params :: scopes) (params.map (·.lexeme) :: v) := by
  have hnew : LocalScopes.Shows ([] :: scopes) ([] :: v) := .cons (fun _ => rfl) h
  rw [← completeAll_parameters]
  exact hnew.completeAll params

/-- The methods of a class see `this`. -/
theorem Shows.method (h : scopes.Shows v) :
    LocalScopes.Shows ([(thisName, true)] :: scopes) ([thisName] :: v) := by
  refine .cons (fun name => ?_) h
  rw [show ([(thisName, true)] : Bindings Bool) = Bindings.put thisName true [] from rfl, binds_put]
  simp [Bindings.binds, Bindings.get?, eq_comm]

end LocalScopes

/-- The sites of statements lie behind the declarations of the statements before them. -/
theorem Stmt.sitesAll_append (ss ts : List Stmt) (scopes : LocalScopes) :
    Stmt.sitesAll (ss ++ ts) scopes =
      Stmt.sitesAll ss scopes ++ Stmt.sitesAll ts (scopes.completeAll (Stmt.declaredBy ss)) := by
  induction ss generalizing scopes with
  | nil => rfl
  | cons s rest ih =>
    have hbehind : (scopes.after s).completeAll (Stmt.declaredBy rest) =
        scopes.completeAll (Stmt.declaredBy (s :: rest)) := by
      rw [LocalScopes.after_eq_completeAll, ← LocalScopes.completeAll_append, Stmt.declaredBy, Stmt.declaredBy,
        List.filterMap_cons]
      cases s.declared? <;> rfl
    rw [List.cons_append, Stmt.sitesAll, Stmt.sitesAll, ih, hbehind, List.append_assoc]

/-- The sites of a function are among those of all functions. -/
theorem FunctionDecl.sites_subset {d : FunctionDecl} {ds : List FunctionDecl} (h : d ∈ ds)
    (scopes : LocalScopes) : d.sites scopes ⊆ FunctionDecl.sitesAll ds scopes := by
  induction h with
  | head rest => exact List.subset_append_left _ _
  | tail first _ ih => exact List.Subset.trans ih (List.subset_append_right _ _)

/-- A list of sites has one for a use, with open scopes that show what the use sees. -/
def Site.OnListAt (sites : List Site) (u : NameUse) (there : Visible) : Prop :=
  ∃ site ∈ sites, site.use = u ∧ site.scopes.Shows there

/-- A site that is on a list is on every larger list. -/
theorem Site.OnListAt.mono {sites sites' : List Site} {u : NameUse} {there : Visible}
    (h : Site.OnListAt sites u there) (hsub : sites ⊆ sites') : Site.OnListAt sites' u there :=
  have ⟨site, hsite, hu⟩ := h
  ⟨site, hsub hsite, hu⟩

/-- Every use in an expression is on its list of sites, at the place where the expression stands. -/
theorem Expr.onListAt {e : Expr} {u : NameUse} {here : Visible} {scopes : LocalScopes} (hu : u ∈ e.uses)
    (h : scopes.Shows here) (pending : Option String) :
    Site.OnListAt (e.sites scopes pending) u here :=
  have ⟨site, hsite, huse, hscopes⟩ := e.exists_site hu scopes pending
  ⟨site, hsite, huse, hscopes ▸ h⟩

mutual

/-- A use in a statement has a site there. -/
theorem Stmt.UsedIn.onListAt {here s u there} : Stmt.UsedIn here s u there →
    {scopes : LocalScopes} → scopes.Shows here → Site.OnListAt (s.sites scopes) u there
  | .expression hu, _, h => Expr.onListAt hu h none
  | .print hu, _, h => Expr.onListAt hu h none
  | .initializer hu, _, h => Expr.onListAt hu (h.declare _) _
  | .block hbody, _, h => hbody.onListAt (.cons (fun _ => rfl) h)
  | @Stmt.UsedIn.ifCondition _ _ _ elseBranch _ hu, _, h => by
    refine (Expr.onListAt hu h none).mono ?_
    cases elseBranch <;> simp [Stmt.sites]
  | @Stmt.UsedIn.thenBranch _ _ _ elseBranch _ _ hthen, _, h => by
    refine (hthen.onListAt h).mono ?_
    cases elseBranch <;> simp [Stmt.sites]
  | .elseBranch helse, _, h => (helse.onListAt h).mono (by simp [Stmt.sites])
  | .loopCondition hu, _, h => (Expr.onListAt hu h none).mono (by simp [Stmt.sites])
  | .loopBody hbody, _, h => (hbody.onListAt h).mono (by simp [Stmt.sites])
  | .function hd, _, h => hd.onListAt (h.complete _)
  | .return hu, _, h => Expr.onListAt hu h none
  | .method hd hused, _, h =>
    (hused.onListAt (h.complete _).method).mono (FunctionDecl.sites_subset hd _)

/-- Every use among statements is on their list of sites, at the place that it sees. -/
theorem Stmt.UsedAmong.onListAt {here ss u there} : Stmt.UsedAmong here ss u there →
    {scopes : LocalScopes} → scopes.Shows here → Site.OnListAt (Stmt.sitesAll ss scopes) u there
  | @Stmt.UsedAmong.at _ before s after _ _ hs, scopes, h => by
    rw [Stmt.sitesAll_append, Stmt.sitesAll]
    exact (hs.onListAt (h.completeAll (Stmt.declaredBy before))).mono (by simp)

/-- Every use in a function is on its list of sites, at the place that it sees. -/
theorem FunctionDecl.UsedIn.onListAt {here d u there} : FunctionDecl.UsedIn here d u there →
    {scopes : LocalScopes} → scopes.Shows here → Site.OnListAt (d.sites scopes) u there
  | .body hbody, _, h => hbody.onListAt (h.parameters _)

end

end Sites

section Everywhere

/-! Every numbered occurrence is a use at some place. -/

/-- The uses in an expression carry its numbers. -/
theorem Expr.uses_map_id (e : Expr) : e.uses.map NameUse.id = e.occurrences := by
  have hsites := congrArg (List.map (·.1.id)) (e.sites_map_use [] none)
  rw [← e.sites_map_id [] none]
  simpa [Function.comp_def, Site.use] using hsites.symm

/-- Every occurrence in an expression is that of a use. -/
theorem Expr.exists_use {e : Expr} {id : Occurrence} (h : id ∈ e.occurrences) :
    ∃ u ∈ e.uses, u.id = id := by
  rwa [← e.uses_map_id, List.mem_map] at h

mutual

/-- Each number in a statement is that of a use in it. -/
theorem Stmt.exists_usedIn : (s : Stmt) → (here : Visible) → {id : Occurrence} → id ∈ s.occurrences →
    ∃ u there, u.id = id ∧ Stmt.UsedIn here s u there
  | .expression _, here, _, h =>
    have ⟨u, hu, hid⟩ := Expr.exists_use h
    ⟨u, here, hid, .expression hu⟩
  | .print _, here, _, h =>
    have ⟨u, hu, hid⟩ := Expr.exists_use h
    ⟨u, here, hid, .print hu⟩
  | .variable _ none, _, _, h => nomatch h
  | .variable name (some initial), here, _, h =>
    have ⟨u, hu, hid⟩ := Expr.exists_use (e := initial) h
    ⟨u, here.declaring [name], hid, .initializer hu⟩
  | .block body, here, _, h =>
    have ⟨u, there, hid, hused⟩ := Stmt.exists_usedAmong body ([] :: here) h
    ⟨u, there, hid, .block hused⟩
  | .conditional condition thenBranch none, here, _, h => by
    rcases List.mem_append.mp h with h | h
    · obtain ⟨u, hu, hid⟩ := Expr.exists_use h
      exact ⟨u, here, hid, .ifCondition hu⟩
    · obtain ⟨u, there, hid, hused⟩ := thenBranch.exists_usedIn here h
      exact ⟨u, there, hid, .thenBranch hused⟩
  | .conditional condition thenBranch (some elseBranch), here, _, h => by
    rcases List.mem_append.mp h with h | h
    · rcases List.mem_append.mp h with h | h
      · obtain ⟨u, hu, hid⟩ := Expr.exists_use h
        exact ⟨u, here, hid, .ifCondition hu⟩
      · obtain ⟨u, there, hid, hused⟩ := thenBranch.exists_usedIn here h
        exact ⟨u, there, hid, .thenBranch hused⟩
    · obtain ⟨u, there, hid, hused⟩ := elseBranch.exists_usedIn here h
      exact ⟨u, there, hid, .elseBranch hused⟩
  | .loop condition body, here, _, h => by
    rcases List.mem_append.mp h with h | h
    · obtain ⟨u, hu, hid⟩ := Expr.exists_use h
      exact ⟨u, here, hid, .loopCondition hu⟩
    · obtain ⟨u, there, hid, hused⟩ := body.exists_usedIn here h
      exact ⟨u, there, hid, .loopBody hused⟩
  | .function declaration, here, _, h =>
    have ⟨u, there, hid, hused⟩ := declaration.exists_usedIn (here.declaring [declaration.name]) h
    ⟨u, there, hid, .function hused⟩
  | .return _ none, _, _, h => nomatch h
  | .return _ (some value), here, _, h =>
    have ⟨u, hu, hid⟩ := Expr.exists_use (e := value) h
    ⟨u, here, hid, .return hu⟩
  | .class name methods, here, _, h =>
    have ⟨_, hd, u, there, hid, hused⟩ :=
      FunctionDecl.exists_usedInOne methods ([thisName] :: here.declaring [name]) h
    ⟨u, there, hid, .method hd hused⟩

/-- Each number in a list of statements is that of a use in one of them. -/
theorem Stmt.exists_usedAmong : (ss : List Stmt) → (here : Visible) → {id : Occurrence} →
    id ∈ Stmt.occurrencesAll ss → ∃ u there, u.id = id ∧ Stmt.UsedAmong here ss u there
  | s :: rest, here, _, h => by
    rcases List.mem_append.mp h with h | h
    · obtain ⟨u, there, hid, hused⟩ := s.exists_usedIn here h
      exact ⟨u, there, hid, @Stmt.UsedAmong.at here [] s rest u there (here.declaring_nil.symm ▸ hused)⟩
    · obtain ⟨u, there, hid, hused⟩ :=
        Stmt.exists_usedAmong rest (here.declaring (Stmt.declaredBy [s])) h
      exact ⟨u, there, hid, hused.cons⟩

/-- Every occurrence in a function is that of a use, at some place. -/
theorem FunctionDecl.exists_usedIn : (d : FunctionDecl) → (here : Visible) → {id : Occurrence} →
    id ∈ d.occurrences → ∃ u there, u.id = id ∧ FunctionDecl.UsedIn here d u there
  | ⟨_, params, body⟩, here, _, h =>
    have ⟨u, there, hid, hused⟩ := Stmt.exists_usedAmong body (params.map (·.lexeme) :: here) h
    ⟨u, there, hid, .body hused⟩

/-- Every occurrence in functions is that of a use in one of them, at some place. -/
theorem FunctionDecl.exists_usedInOne : (ds : List FunctionDecl) → (here : Visible) →
    {id : Occurrence} → id ∈ FunctionDecl.occurrencesAll ds →
    ∃ d ∈ ds, ∃ u there, u.id = id ∧ FunctionDecl.UsedIn here d u there
  | d :: rest, here, _, h => by
    rcases List.mem_append.mp h with h | h
    · exact ⟨d, List.mem_cons_self, d.exists_usedIn here h⟩
    · obtain ⟨d', hd', hused⟩ := FunctionDecl.exists_usedInOne rest here h
      exact ⟨d', List.mem_cons_of_mem d hd', hused⟩

end

end Everywhere

end Lox
