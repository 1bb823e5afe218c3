import Mathlib
import Lox.Proofs.Resolution.Nearest
import Lox.Proofs.Session.Accepted

/-!
# What resolution records of a faulty program

Resolution goes on after an error, and records the same distances as if there were none: an error changes
neither the names of the open scopes nor which scopes are open, and the uses that it passes over are
global anyway, because a `this` outside all classes stands in no scope that has `this`. So for every
program that can be parsed the table of distances is the one that `Visible.distance?` gives.
-/

set_option autoImplicit false

namespace Lox

open Grammar

/-- Scopes bind `this` only inside a class. -/
def Surroundings.ThisOnlyInClass (around : Surroundings) (scopes : LocalScopes) : Prop :=
  around.inClass = false → ∀ scope ∈ scopes, scope.binds thisName = false

namespace Surroundings.ThisOnlyInClass

variable {around : Surroundings} {scopes : LocalScopes}

/-- A new scope does not bind `this`. -/
theorem enter (h : around.ThisOnlyInClass scopes) : around.ThisOnlyInClass ([] :: scopes) :=
  fun hclass => List.forall_mem_cons.mpr ⟨rfl, h hclass⟩

/-- Completing the declaration of another name does not bind `this`. -/
theorem complete (h : around.ThisOnlyInClass scopes) {name : Token} (hname : name.lexeme ≠ thisName) :
    around.ThisOnlyInClass (scopes.complete name.lexeme) := by
  intro hclass
  cases scopes with
  | nil => exact h hclass
  | cons scope outer =>
    obtain ⟨hscope, houter⟩ := List.forall_mem_cons.mp (h hclass)
    refine List.forall_mem_cons.mpr ⟨?_, houter⟩
    rw [LocalScopes.binds_put, hscope]
    simpa using hname

/-- Completing the declarations of other names does not bind `this`. -/
theorem completeAll (h : around.ThisOnlyInClass scopes) {names : List Token}
    (hnames : ∀ name ∈ names, name.lexeme ≠ thisName) :
    around.ThisOnlyInClass (scopes.completeAll names) := by
  induction names generalizing scopes with
  | nil => exact h
  | cons name rest ih =>
    obtain ⟨hname, hrest⟩ := List.forall_mem_cons.mp hnames
    exact ih (h.complete hname) hrest

/-- Declaring another name does not bind `this`. -/
theorem declare (h : around.ThisOnlyInClass scopes) {name : Token} (hname : name.lexeme ≠ thisName) :
    around.ThisOnlyInClass (scopes.declare name.lexeme) := by
  intro hclass
  cases scopes with
  | nil => exact h hclass
  | cons scope outer =>
    obtain ⟨hscope, houter⟩ := List.forall_mem_cons.mp (h hclass)
    refine List.forall_mem_cons.mpr ⟨?_, houter⟩
    split
    · exact hscope
    · rw [LocalScopes.binds_put, hscope]
      simpa using hname

/-- The scope of parameters with other names does not bind `this`. -/
theorem parameters (h : around.ThisOnlyInClass scopes) {params : List Token}
    (hparams : ∀ p ∈ params, p.lexeme ≠ thisName) :
    around.ThisOnlyInClass (parameterScope params :: scopes) := by
  rw [← LocalScopes.completeAll_parameters]
  exact h.enter.completeAll hparams

/-- A `this` outside all classes is in no scope. -/
theorem distance?_eq_none (h : around.ThisOnlyInClass scopes) (hclass : around.inClass = false) :
    Resolution.distance? thisName scopes = none :=
  List.findIdx?_eq_none_iff.mpr (h hclass)

end Surroundings.ThisOnlyInClass

namespace Resolution

/-- A step that has no uses records nothing. -/
theorem Extends.distances_eq {r r' : Resolution} (h : Extends [] r r') : r'.distances = r.distances := by
  obtain ⟨found, hfound, hids⟩ := h.distances
  have hnone : found = [] := List.eq_nil_iff_forall_not_mem.mpr fun entry hentry =>
    List.not_mem_nil (hids entry hentry)
  rw [hfound, hnone, List.append_nil]

end Resolution

open Resolution

/-- A step records the distances of the given sites, whatever it reports. -/
def Locates (around : Surroundings) (step : Resolution → Resolution)
    (sites : LocalScopes → List Site) : Prop :=
  ∀ r : Resolution, around.ThisOnlyInClass r.scopes →
    (step r).distances = r.distances ++ (sites r.scopes).filterMap Site.entry?

/-- Two steps record the sites of both, where the first leaves the scopes alone. -/
theorem Locates.then {around : Surroundings} {first second : Resolution → Resolution}
    {sites sites' : LocalScopes → List Site} (hfirst : Locates around first sites)
    (hscopes : ∀ r, (first r).scopes = r.scopes) (hsecond : Locates around second sites') :
    Locates around (fun r => second (first r)) (fun scopes => sites scopes ++ sites' scopes) := by
  intro r hr
  have hstep := hsecond (first r) (by rwa [hscopes])
  rw [hscopes, hfirst r hr] at hstep
  rw [hstep, List.filterMap_append, List.append_assoc]

/-- A step that records nothing moves the next one to other scopes and surroundings. -/
theorem Locates.behind {around inner : Surroundings} {second : Resolution → Resolution}
    {sites : LocalScopes → List Site} (hsecond : Locates inner second sites)
    (first : Resolution → Resolution) (next : LocalScopes → LocalScopes)
    (hdistances : ∀ r, (first r).distances = r.distances)
    (hscopes : ∀ r, (first r).scopes = next r.scopes)
    (hnext : ∀ scopes, around.ThisOnlyInClass scopes → inner.ThisOnlyInClass (next scopes)) :
    Locates around (fun r => second (first r)) (fun scopes => sites (next scopes)) := by
  intro r hr
  have hstep := hsecond (first r) (hscopes r ▸ hnext r.scopes hr)
  rw [hstep, hdistances, hscopes]

/-- A use records the distance of its site. -/
theorem locate_locates (around : Surroundings) (id : Occurrence) (name : Token)
    (pending : Option String) (assigns : Bool) :
    Locates around (locate id name) (fun scopes => [⟨id, name.lexeme, scopes, pending, assigns⟩]) :=
  fun r _ => congrArg Resolution.distances (locate_eq_record r id name pending assigns)

mutual

/-- An expression records its sites. -/
theorem Expr.resolve_locates (around : Surroundings) (pending : Option String) : (e : Expr) →
    e.WellFormed → Locates around (e.resolve around) (fun scopes => e.sites scopes pending)
  | .literal _, _ => fun r _ => by simp [Expr.resolve, Expr.sites]
  | .grouping inner, hwf => inner.resolve_locates around pending hwf
  | .unary _ right, hwf => right.resolve_locates around pending hwf
  | .binary left _ right, ⟨hleft, hright⟩ =>
    (left.resolve_locates around pending hleft).then (left.resolve_scopes around)
      (right.resolve_locates around pending hright)
  | .logical left _ right, ⟨hleft, hright⟩ =>
    (left.resolve_locates around pending hleft).then (left.resolve_scopes around)
      (right.resolve_locates around pending hright)
  | .variable id name, _ =>
    -- a read that is reported is recorded all the same
    (locate_locates around id name pending false).behind
      (fun r => if r.isPending name.lexeme then r.report name .ownInitializer else r) _
      (fun r => by split <;> rfl) (fun r => by split <;> rfl) (fun _ h => h)
  | .assign id name value, hwf =>
    (value.resolve_locates around pending hwf).then (value.resolve_scopes around)
      (locate_locates around id name pending true)
  | .call callee _ arguments, ⟨hcallee, harguments⟩ =>
    (callee.resolve_locates around pending hcallee).then (callee.resolve_scopes around)
      (Expr.resolveAll_locates around pending arguments harguments)
  | .get object _, hwf => object.resolve_locates around pending hwf
  | .set object _ value, ⟨hobject, hvalue⟩ =>
    (value.resolve_locates around pending hvalue).then (value.resolve_scopes around)
      (object.resolve_locates around pending hobject)
  | .this id keyword, hwf => by
    intro r hr
    rw [Expr.resolve]
    cases hclass : around.inClass with
    | true => exact locate_locates around id keyword pending false r hr
    | false =>
      rw [Expr.WellFormed] at hwf
      simp [Expr.sites, Site.entry?, Site.distance?, hwf, hr.distance?_eq_none hclass, report]

/-- Expressions record their sites. -/
theorem Expr.resolveAll_locates (around : Surroundings) (pending : Option String) :
    (es : List Expr) → Expr.AllWellFormed es →
    Locates around (Expr.resolveAll around es) (fun scopes => Expr.sitesAll scopes pending es)
  | [], _ => fun r _ => by simp [Expr.resolveAll, Expr.sitesAll]
  | e :: rest, ⟨hfirst, hrest⟩ =>
    (e.resolve_locates around pending hfirst).then (e.resolve_scopes around)
      (Expr.resolveAll_locates around pending rest hrest)

end

/-- An optional expression records the distances of its sites. -/
theorem Expr.resolveOption_locates (around : Surroundings) (pending : Option String)
    (e : Option Expr) (hwf : ∀ e' ∈ e, e'.WellFormed) :
    Locates around (Expr.resolveOption around e) (fun scopes => Expr.sitesOption scopes pending e) := by
  cases e with
  | none => exact fun r _ => by simp [Expr.resolveOption, Expr.sitesOption]
  | some e => exact e.resolve_locates around pending (hwf e rfl)

/-- The name that a statement declares is one of its names. -/
theorem Stmt.declared_mem_names {s : Stmt} {name : Token} (h : s.declared? = some name) :
    name ∈ s.names := by
  cases s with
  | «variable» _ _ => cases h; exact List.mem_cons_self
  | function d => cases d; cases h; exact List.mem_cons_self
  | «class» _ _ => cases h; exact List.mem_cons_self
  | _ => cases h

/-- Statements that do not declare `this` leave it unbound outside all classes. -/
theorem Surroundings.ThisOnlyInClass.after {around : Surroundings} {scopes : LocalScopes}
    (h : around.ThisOnlyInClass scopes) {s : Stmt} (hnames : ∀ t ∈ s.names, t.lexeme ≠ thisName) :
    around.ThisOnlyInClass (scopes.after s) := by
  unfold LocalScopes.after
  split
  · exact h.complete (hnames _ (Stmt.declared_mem_names ‹_›))
  · exact h

mutual

/-- A statement records its sites. -/
theorem Stmt.resolve_locates (around : Surroundings) : (s : Stmt) → s.WellFormed →
    (∀ t ∈ s.names, t.lexeme ≠ thisName) → Locates around (s.resolve around) s.sites
  | .expression expr, hwf, _ => expr.resolve_locates around none hwf
  | .print expr, hwf, _ => expr.resolve_locates around none hwf
  | .variable name initial, ⟨hname, hinitial⟩, _ => by
    intro r hr
    rw [Stmt.resolve, (define_extends _ [] name).distances_eq]
    exact (Expr.resolveOption_locates around (some name.lexeme) initial hinitial).behind
      (Resolution.declare name) (LocalScopes.declare name.lexeme)
      (fun r => (declare_extends r [] name).distances_eq) (fun r => declare_scopes r name)
      (fun _ h => h.declare hname) r hr
  | .block body, hwf, hnames =>
    (Stmt.resolveAll_locates around body hwf hnames).behind (Resolution.enter []) ([] :: ·)
      (fun _ => rfl) (fun _ => rfl) (fun _ h => h.enter)
  | .conditional condition thenBranch none, ⟨hcondition, _, hthen⟩, hnames =>
    (condition.resolve_locates around none hcondition).then (condition.resolve_scopes around)
      (thenBranch.resolve_locates around hthen (List.forall_mem_append.mp hnames).2)
  | .conditional condition thenBranch (some elseBranch),
      ⟨hcondition, ⟨hdeclared, hthen⟩, _, helse⟩, hnames =>
    have ⟨hnames, hnames'⟩ := List.forall_mem_append.mp hnames
    ((condition.resolve_locates around none hcondition).then (condition.resolve_scopes around)
        (thenBranch.resolve_locates around hthen (List.forall_mem_append.mp hnames).2)).then
      (fun r => (Stmt.resolve_scopes hthen around _).trans
        ((LocalScopes.after_of_not_declared hdeclared _).trans (condition.resolve_scopes around r)))
      (elseBranch.resolve_locates around helse hnames')
  | .loop condition body, ⟨hcondition, _, hbody⟩, hnames =>
    (condition.resolve_locates around none hcondition).then (condition.resolve_scopes around)
      (body.resolve_locates around hbody (List.forall_mem_append.mp hnames).2)
  | .function declaration, hwf, hnames =>
    (declaration.resolve_locates { around with body := .function } hwf hnames).behind
      (Resolution.introduce declaration.name) (LocalScopes.complete declaration.name.lexeme)
      (fun r => (introduce_extends r [] declaration.name).distances_eq)
      (fun r => introduce_scopes r declaration.name)
      (fun _ h => h.complete (hnames _ (Stmt.declared_mem_names rfl)))
  | .return keyword value, hwf, _ =>
    (Expr.resolveOption_locates around none value hwf).behind
      (checkReturn around keyword value.isSome) (fun scopes => scopes)
      (fun r => (checkReturn_extends r [] around keyword value.isSome).distances_eq)
      (fun r => checkReturn_scopes r around keyword value.isSome) (fun _ h => h)
  | .class name methods, hwf, hnames =>
    -- the scope of `this` is opened together with the class
    (FunctionDecl.resolveMethods_locates { around with inClass := true } methods hwf
      (List.forall_mem_cons.mp hnames).2).behind
      (fun r => (r.introduce name).enter [(thisName, true)])
      (fun scopes => [(thisName, true)] :: scopes.complete name.lexeme)
      (fun r => (introduce_extends r [] name).distances_eq)
      (fun r => congrArg ([(thisName, true)] :: ·) (introduce_scopes r name))
      (fun _ _ hclass => by cases hclass)

/-- Statements record their sites. -/
theorem Stmt.resolveAll_locates (around : Surroundings) : (ss : List Stmt) → Stmt.AllWellFormed ss →
    (∀ t ∈ Stmt.namesAll ss, t.lexeme ≠ thisName) →
    Locates around (Stmt.resolveAll around ss) (Stmt.sitesAll ss)
  | [], _, _ => fun r _ => by simp [Stmt.resolveAll, Stmt.sitesAll]
  | s :: rest, ⟨hfirst, hrest⟩, hnames => by
    intro r hr
    obtain ⟨hnames, hnames'⟩ := List.forall_mem_append.mp hnames
    have hscopes := Stmt.resolve_scopes hfirst around r
    rw [Stmt.resolveAll, Stmt.resolveAll_locates around rest hrest hnames' _
        (hscopes ▸ hr.after hnames), s.resolve_locates around hfirst hnames r hr, hscopes,
      Stmt.sitesAll, List.filterMap_append, List.append_assoc]

/-- A function records its sites. -/
theorem FunctionDecl.resolve_locates (around : Surroundings) : (d : FunctionDecl) → d.WellFormed →
    (∀ t ∈ d.names, t.lexeme ≠ thisName) → Locates around (d.resolve around) d.sites
  | ⟨_, params, body⟩, hwf, hnames =>
    have ⟨hparams, hbody⟩ := List.forall_mem_append.mp (List.forall_mem_cons.mp hnames).2
    (Stmt.resolveAll_locates around body hwf hbody).behind
      (fun r => params.foldl (fun r p => r.introduce p) (r.enter [])) (parameterScope params :: ·)
      (fun r => (introduceAll_extends (r.enter []) [] params).distances_eq)
      (fun r => (introduceAll_scopes (r.enter []) params).trans
        (LocalScopes.completeAll_parameters params r.scopes))
      (fun _ h => h.parameters hparams)

/-- Methods record their sites. -/
theorem FunctionDecl.resolveMethods_locates (around : Surroundings) : (ds : List FunctionDecl) →
    FunctionDecl.AllWellFormed ds → (∀ t ∈ FunctionDecl.namesAll ds, t.lexeme ≠ thisName) →
    Locates around (FunctionDecl.resolveMethods around ds) (FunctionDecl.sitesAll ds)
  | [], _, _ => fun r _ => by simp [FunctionDecl.resolveMethods, FunctionDecl.sitesAll]
  | d :: rest, ⟨hfirst, hrest⟩, hnames =>
    have ⟨hnames, hnames'⟩ := List.forall_mem_append.mp hnames
    let body := if d.isInitializer then Body.initializer else .function
    (d.resolve_locates { around with body } hfirst hnames).then (d.resolve_scopes { around with body })
      (FunctionDecl.resolveMethods_locates around rest hrest hnames')

end

/-- A program records its sites, also where it is rejected. -/
theorem resolve_distances {program : List Stmt} (hwf : Stmt.AllWellFormed program)
    (hnames : ∀ t ∈ Stmt.namesAll program, t.lexeme ≠ thisName) :
    (resolve program).distances = (Stmt.sitesAll program []).filterMap Site.entry? :=
  Stmt.resolveAll_locates .topLevel program hwf hnames .empty (fun _ _ h => nomatch h)

/-- Where all sites have different numbers, the table holds for each number what its site says. -/
theorem Site.filter_entries {sites : List Site} (hids : (sites.map Site.id).Nodup) {site : Site}
    (hsite : site ∈ sites) :
    (sites.filterMap Site.entry?).filter (·.1 == site.id) = site.entry?.toList := by
  have entry_id {s : Site} {entry : Occurrence × Nat} (h : s.entry? = some entry) : entry.1 = s.id := by
    obtain ⟨d, -, rfl⟩ := Option.map_eq_some_iff.mp h
    rfl
  induction sites with
  | nil => cases hsite
  | cons first rest ih =>
    obtain ⟨hfirst, hrest⟩ := List.nodup_cons.mp hids
    have hsplit : (first :: rest).filterMap Site.entry? =
        first.entry?.toList ++ rest.filterMap Site.entry? := by
      rw [List.filterMap_cons]
      cases first.entry? <;> rfl
    rw [hsplit, List.filter_append]
    rcases List.mem_cons.mp hsite with rfl | hsite
    · have hown : site.entry?.toList.filter (·.1 == site.id) = site.entry?.toList :=
        List.filter_eq_self.mpr fun entry hentry =>
          beq_iff_eq.mpr (entry_id (Option.mem_toList.mp hentry))
      have hothers : (rest.filterMap Site.entry?).filter (·.1 == site.id) = [] := by
        refine List.filter_eq_nil_iff.mpr fun entry hentry hid => hfirst ?_
        obtain ⟨other, hother, heq⟩ := List.mem_filterMap.mp hentry
        rw [← beq_iff_eq.mp hid, entry_id heq]
        exact List.mem_map_of_mem hother
      rw [hown, hothers, List.append_nil]
    · have hother : first.entry?.toList.filter (·.1 == site.id) = [] := by
        refine List.filter_eq_nil_iff.mpr fun entry hentry hid => hfirst ?_
        rw [← entry_id (Option.mem_toList.mp hentry), beq_iff_eq.mp hid]
        exact List.mem_map_of_mem hsite
      rw [hother, List.nil_append, ih hrest hsite]

/-- For every program that the parser yields, whether it is rejected later or not, the table of distances
is the lexical one. Each numbered node is a use at some place; at most one distance is recorded for it,
that of the nearest scope of which the place sees the name, and none exactly if it sees the name in no
local scope. The table holds nothing else. -/
theorem distances_of_parse {tokens : List Token} {firstId : Occurrence} {program : List Stmt}
    (hspelled : ∀ t ∈ tokens, t.Spelled) (hparse : (parse tokens firstId).result = .ok program) :
    (∀ id ∈ Stmt.occurrencesAll program,
      ∃ use there, use.id = id ∧ Stmt.UsedAmong [] program use there) ∧
    (∀ use there, Stmt.UsedAmong [] program use there →
      (resolve program).distances.filter (·.1 == use.id) =
        ((there.distance? use.name).map (use.id, ·)).toList) ∧
    ∀ entry ∈ (resolve program).distances, entry.1 ∈ Stmt.occurrencesAll program := by
  obtain ⟨hclean, rfl⟩ := Parsed.result_eq_ok_iff.mp hparse
  have hnumbered := parse_numbered tokens firstId hspelled hclean
  have hnames := names_of_parse (p := fun t => t.lexeme ≠ thisName) hclean
    fun t ht hname => (hspelled t ht).identifier hname
  generalize (parse tokens firstId).statements = program at hnumbered hnames
  have hsites := Stmt.sitesAll_map_id program []
  refine ⟨fun id hid => Stmt.exists_usedAmong program [] hid, fun use there hused => ?_,
    fun entry hentry => ?_⟩
  · obtain ⟨site, hsite, rfl, hshows⟩ := hused.onListAt (List.Forall₂.nil : LocalScopes.Shows [] [])
    have hnodup : ((Stmt.sitesAll program []).map Site.id).Nodup :=
      hsites ▸ hnumbered.occurrences.nodup_iff.mpr List.nodup_range'
    rw [resolve_distances hnumbered.wellFormed hnames]
    refine (Site.filter_entries hnodup hsite).trans ?_
    rw [Site.entry?, Site.distance?, hshows.distance?_eq]
    rfl
  · rw [resolve_distances hnumbered.wellFormed hnames] at hentry
    obtain ⟨site, hsite, hentry⟩ := List.mem_filterMap.mp hentry
    obtain ⟨d, -, rfl⟩ := Option.map_eq_some_iff.mp hentry
    exact hsites ▸ List.mem_map_of_mem hsite

/-- The tokens of `{ fun f() { print a; } var a = a; var a = f; }`. -/
def faultyTokens : List Token :=
  [⟨.symbol .leftBrace, "\x7b", 1⟩, ⟨.keyword .fun, "fun", 1⟩, ⟨.identifier, "f", 1⟩,
    ⟨.symbol .leftParen, "(", 1⟩, ⟨.symbol .rightParen, ")", 1⟩, ⟨.symbol .leftBrace, "\x7b", 1⟩,
    ⟨.keyword .print, "print", 1⟩, ⟨.identifier, "a", 1⟩, ⟨.symbol .semicolon, ";", 1⟩,
    ⟨.symbol .rightBrace, "\x7d", 1⟩, ⟨.keyword .var, "var", 1⟩, ⟨.identifier, "a", 1⟩,
    ⟨.symbol .equal, "=", 1⟩, ⟨.identifier, "a", 1⟩, ⟨.symbol .semicolon, ";", 1⟩,
    ⟨.keyword .var, "var", 1⟩, ⟨.identifier, "a", 1⟩, ⟨.symbol .equal, "=", 1⟩,
    ⟨.identifier, "f", 1⟩, ⟨.symbol .semicolon, ";", 1⟩, ⟨.symbol .rightBrace, "\x7d", 1⟩, .eofAt 1]

/-- The function of the faulty program. -/
def faultyFunction : FunctionDecl :=
  ⟨⟨.identifier, "f", 1⟩, [], [.print (.variable 0 ⟨.identifier, "a", 1⟩)]⟩

/-- The statements of the block in the faulty program. -/
def faultyBody : List Stmt :=
  [.function faultyFunction,
    .variable ⟨.identifier, "a", 1⟩ (some (.variable 1 ⟨.identifier, "a", 1⟩)),
    .variable ⟨.identifier, "a", 1⟩ (some (.variable 2 ⟨.identifier, "f", 1⟩))]

/-- A variable is not seen by a function before it, but by its own initializer; and a use behind both
errors of the block is recorded as if there were none. -/
theorem distances_of_parse_faulty :
    (∀ t ∈ faultyTokens, t.Spelled) ∧ (parse faultyTokens 0).result = .ok [.block faultyBody] ∧
      (resolve [.block faultyBody]).errors.length = 2 ∧
      (resolve [.block faultyBody]).distances.filter (·.1 == 0) = [] ∧
      (resolve [.block faultyBody]).distances.filter (·.1 == 1) = [(1, 0)] ∧
      (resolve [.block faultyBody]).distances.filter (·.1 == 2) = [(2, 0)] := by
  have hspelled : ∀ t ∈ faultyTokens, t.Spelled := by
    have hnames : ∀ t ∈ faultyTokens, t.isIdentifier = true → t.lexeme ≠ thisName := by
      decide
    have hthis : ∀ t ∈ faultyTokens, t.isKeyword .this = true → t.lexeme = thisName := by decide
    exact fun t ht => ⟨hnames t ht, hthis t ht⟩
  have hparse : (parse faultyTokens 0).result = .ok [.block faultyBody] := by cbv
  obtain ⟨-, hdistances, -⟩ := distances_of_parse hspelled hparse
  have hblock {use : NameUse} {there : Visible} (h : Stmt.UsedAmong [[]] faultyBody use there) :
      Stmt.UsedAmong [] [.block faultyBody] use there :=
    @Stmt.UsedAmong.at [] [] _ [] use there (.block h)
  have hfunction : Stmt.UsedAmong [[]] faultyBody ⟨0, "a"⟩ [[], ["f"]] :=
    @Stmt.UsedAmong.at [[]] [] (.function faultyFunction) _ _ _
      (.function (.body (@Stmt.UsedAmong.at _ [] _ [] _ _ (.print (List.mem_singleton_self _)))))
  have hinitializer : Stmt.UsedAmong [[]] faultyBody ⟨1, "a"⟩ [["f", "a"]] :=
    @Stmt.UsedAmong.at [[]] [.function faultyFunction] _ _ _ _
      (.initializer (List.mem_singleton_self _))
  have hbehind : Stmt.UsedAmong [[]] faultyBody ⟨2, "f"⟩ [["f", "a", "a"]] :=
    @Stmt.UsedAmong.at [[]] [.function faultyFunction, _] _ [] _ _
      (.initializer (List.mem_singleton_self _))
  exact ⟨hspelled, hparse, rfl, hdistances _ _ (hblock hfunction),
    hdistances _ _ (hblock hinitializer), hdistances _ _ (hblock hbehind)⟩

end Lox
