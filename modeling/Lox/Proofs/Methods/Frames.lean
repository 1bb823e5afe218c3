import Lox.Proofs.Resolution.Sites
import Lox.Proofs.Tree.Names
import Lox.Proofs.Tree.Placement

/-!
# The methods around a place

Around a place in a program there are the scopes of blocks and functions, and one scope for each method
of a class, in which only `this` is bound. Frames tell them apart, and keep the declaration of the method.
A tree that was resolved is placed: an assignment never leads to the scope of a method, and a use of
`this` leads to the scope of the innermost method around it, which owns the use. No name in it is `this`.
-/

set_option autoImplicit false
-- the theorems of a mutual block share their assumptions, also where one passes them on only
set_option linter.unusedSectionVars false

namespace Lox

/-- What a scope around a place in a program belongs to. -/
inductive Frame where
  /-- A block or the body of a function. -/
  | plain
  /-- A method of a class: the scope in which `this` is bound. -/
  | method (d : FunctionDecl)

namespace Frame

/-- The innermost method, and the number of frames in front of it. -/
def owner? : List Frame → Option (Nat × FunctionDecl)
  | [] => none
  | .plain :: outer => (owner? outer).map fun owner => (owner.1 + 1, owner.2)
  | .method d :: _ => some (0, d)

/-- An assignment leads to a plain frame, if it is not global. -/
def Assigns (plan : List Site) (frames : List Frame) (id : Occurrence) : Prop :=
  ∃ site ∈ plan, site.id = id ∧
    ∀ distance, site.distance? = some distance → frames[distance]? = some .plain

/-- A use of `this` leads to the innermost method, in which it stands. -/
def Owns (plan : List Site) (frames : List Frame) (id : Occurrence) : Prop :=
  ∃ site ∈ plan, site.id = id ∧
    ∃ distance d, site.distance? = some distance ∧ owner? frames = some (distance, d) ∧
      id ∈ d.thisUses

/-- Uses of `this` stand in the innermost method. -/
def Covers (frames : List Frame) (ids : List Occurrence) : Prop :=
  ∀ id ∈ ids, ∃ distance d, owner? frames = some (distance, d) ∧ id ∈ d.thisUses

/-- Statements may stand within frames: no statement stands directly in the scope of a method. -/
def Inner (frames : List Frame) : Prop := ∀ d, frames.head? ≠ some (.method d)

end Frame

mutual

/-- All assignments and uses of `this` in an expression lead where they should. What is assigned has another name than
`this`. -/
def Expr.Placed (plan : List Site) (frames : List Frame) : Expr → Prop
  | .literal _ => True
  | .grouping inner => inner.Placed plan frames
  | .unary _ right => right.Placed plan frames
  | .binary left _ right => left.Placed plan frames ∧ right.Placed plan frames
  | .logical left _ right => left.Placed plan frames ∧ right.Placed plan frames
  | .variable _ _ => True
  | .assign id name value =>
    (name.lexeme ≠ thisName ∧ Frame.Assigns plan frames id) ∧ value.Placed plan frames
  | .call callee _ arguments =>
    callee.Placed plan frames ∧ Expr.AllPlaced plan frames arguments
  | .get object _ => object.Placed plan frames
  | .set object _ value => object.Placed plan frames ∧ value.Placed plan frames
  | .this id keyword => keyword.lexeme = thisName ∧ Frame.Owns plan frames id

/-- All expressions of a list are placed. -/
def Expr.AllPlaced (plan : List Site) (frames : List Frame) : List Expr → Prop
  | [] => True
  | e :: rest => e.Placed plan frames ∧ Expr.AllPlaced plan frames rest

end

mutual

/-- All assignments and uses of `this` in a statement lead where they should, and no initializer in it gives a value.
What is declared has another name than `this`. -/
def Stmt.Placed (plan : List Site) : Stmt → List Frame → Prop
  | .expression expr, frames => expr.Placed plan frames
  | .print expr, frames => expr.Placed plan frames
  | .variable name initial, frames =>
    name.lexeme ≠ thisName ∧ ∀ e ∈ initial, e.Placed plan frames
  | .block body, frames => Stmt.AllPlaced plan body (.plain :: frames)
  | .conditional condition thenBranch none, frames =>
    condition.Placed plan frames ∧ thenBranch.Placed plan frames
  | .conditional condition thenBranch (some elseBranch), frames =>
    condition.Placed plan frames ∧ thenBranch.Placed plan frames ∧ elseBranch.Placed plan frames
  | .loop condition body, frames => condition.Placed plan frames ∧ body.Placed plan frames
  | .function declaration, frames =>
    declaration.name.lexeme ≠ thisName ∧ declaration.Placed plan frames
  | .return _ value, frames => ∀ e ∈ value, e.Placed plan frames
  | .class name methods, frames =>
    name.lexeme ≠ thisName ∧ FunctionDecl.AllMethods plan methods frames

/-- All statements of a list are placed. -/
def Stmt.AllPlaced (plan : List Site) : List Stmt → List Frame → Prop
  | [], _ => True
  | s :: rest, frames => s.Placed plan frames ∧ Stmt.AllPlaced plan rest frames

/-- The parameters and the body of a function are placed, in a scope of their own. -/
def FunctionDecl.Placed (plan : List Site) : FunctionDecl → List Frame → Prop
  | ⟨_, params, body⟩, frames =>
    (∀ p ∈ params, p.lexeme ≠ thisName) ∧ Stmt.AllPlaced plan body (.plain :: frames)

/-- The methods of a class are placed, each in the scope that is made when it is taken. -/
def FunctionDecl.AllMethods (plan : List Site) : List FunctionDecl → List Frame → Prop
  | [], _ => True
  | d :: rest, frames =>
    (d.Placed plan (.method d :: frames) ∧
      (d.isInitializer → ∀ value ∈ Stmt.returnsAll d.body, value = none)) ∧
      FunctionDecl.AllMethods plan rest frames

end

section Functions

variable {plan : List Site} {d : FunctionDecl} {frames : List Frame}

/-- No parameter of a function that is placed is called `this`. -/
theorem FunctionDecl.Placed.params (h : d.Placed plan frames) : ∀ p ∈ d.params, p.lexeme ≠ thisName := by
  cases d
  exact h.1

/-- The body of a function that is placed is so in the scope of its parameters. -/
theorem FunctionDecl.Placed.body (h : d.Placed plan frames) :
    Stmt.AllPlaced plan d.body (.plain :: frames) := by
  cases d
  exact h.2

end Functions

/-- Frames are what local scopes belong to. -/
def LocalScopes.Framed : LocalScopes → List Frame → Prop
  | [], [] => True
  | scope :: outer, .plain :: frames => scope.get? thisName = none ∧ Framed outer frames
  | scope :: outer, .method _ :: frames => scope = [(thisName, true)] ∧ Framed outer frames
  | _, _ => False

namespace LocalScopes.Framed

variable {scopes : LocalScopes} {frames : List Frame} {name : String} {distance : Nat}

/-- A name other than `this` is found in a plain frame. -/
theorem of_name (h : scopes.Framed frames) (hname : name ≠ thisName)
    (hdistance : Resolution.distance? name scopes = some distance) :
    frames[distance]? = some .plain := by
  induction scopes generalizing frames distance with
  | nil => cases hdistance
  | cons scope outer ih =>
    rw [LocalScopes.distance?_cons] at hdistance
    match frames, h with
    | .plain :: frames, ⟨_, houter⟩ =>
      split at hdistance
      · cases hdistance
        rfl
      · obtain ⟨d, hd, rfl⟩ := Option.map_eq_some_iff.mp hdistance
        exact (ih houter hd :)
    | .method _ :: frames, ⟨hscope, houter⟩ =>
      have hbinds : scope.binds name = false := by
        rw [hscope, Bindings.binds, Bindings.get?, if_neg hname.symm]
        rfl
      rw [hbinds] at hdistance
      obtain ⟨d, hd, rfl⟩ := Option.map_eq_some_iff.mp hdistance
      exact (ih houter hd :)

/-- The innermost method is where `this` is found. -/
theorem of_this (h : scopes.Framed frames) {d : FunctionDecl}
    (howner : Frame.owner? frames = some (distance, d)) :
    Resolution.distance? thisName scopes = some distance := by
  induction scopes generalizing frames distance with
  | nil =>
    match frames, h with
    | [], _ => cases howner
  | cons scope outer ih =>
    rw [LocalScopes.distance?_cons]
    match frames, h with
    | .plain :: frames, ⟨hscope, houter⟩ =>
      obtain ⟨⟨k, _⟩, hk, heq⟩ := Option.map_eq_some_iff.mp howner
      cases heq
      rw [Bindings.binds, hscope, ih houter hk]
      rfl
    | .method _ :: frames, ⟨hscope, _⟩ =>
      cases howner
      rw [hscope]
      rfl

/-- A declaration changes nothing about the methods around it. -/
theorem complete (h : scopes.Framed frames) (hinner : Frame.Inner frames) (hname : name ≠ thisName) :
    (scopes.complete name).Framed frames := by
  match scopes, frames, h with
  | [], [], _ => trivial
  | scope :: outer, .plain :: frames, ⟨hscope, houter⟩ =>
    exact ⟨by rw [Bindings.get?_put, if_neg hname, hscope], houter⟩
  | scope :: outer, .method d :: frames, _ => exact absurd rfl (hinner d)

/-- Frames remain those of the scopes when a name other than `this` is declared. -/
theorem declare (h : scopes.Framed frames) (hinner : Frame.Inner frames) (hname : name ≠ thisName) :
    (scopes.declare name).Framed frames := by
  match scopes, frames, h with
  | [], [], _ => trivial
  | scope :: outer, .plain :: frames, ⟨hscope, houter⟩ =>
    refine ⟨?_, houter⟩
    split
    · exact hscope
    · rw [Bindings.get?_put, if_neg hname, hscope]
  | scope :: outer, .method d :: frames, _ => exact absurd rfl (hinner d)

/-- Frames remain those of the scopes behind a statement without declarations of `this`. -/
theorem after (h : scopes.Framed frames) (hinner : Frame.Inner frames) {s : Stmt}
    (hnames : ∀ t ∈ s.names, t.lexeme ≠ thisName) : (scopes.after s).Framed frames := by
  cases s with
  | «variable» name _ => exact h.complete hinner (hnames name List.mem_cons_self)
  | function declaration =>
    obtain ⟨name, params, body⟩ := declaration
    exact h.complete hinner (hnames name List.mem_cons_self)
  | «class» name _ => exact h.complete hinner (hnames name List.mem_cons_self)
  | _ => exact h

/-- The scope of a block is plain. -/
theorem block (h : scopes.Framed frames) : LocalScopes.Framed ([] :: scopes) (.plain :: frames) :=
  ⟨rfl, h⟩

/-- The scope around a method binds only `this`. -/
theorem method (h : scopes.Framed frames) (d : FunctionDecl) :
    LocalScopes.Framed ([(thisName, true)] :: scopes) (.method d :: frames) :=
  ⟨rfl, h⟩

/-- The scope of a function's parameters is plain. -/
theorem parameters (h : scopes.Framed frames) {params : List Token}
    (hparams : ∀ p ∈ params, p.lexeme ≠ thisName) :
    LocalScopes.Framed (parameterScope params :: scopes) (.plain :: frames) := by
  have general (scope : Bindings Bool) (hscope : scope.get? thisName = none) :
      Bindings.get? thisName (params.foldl (fun scope p => scope.put p.lexeme true) scope) = none := by
    induction params generalizing scope with
    | nil => exact hscope
    | cons p rest ih =>
      obtain ⟨hp, hrest⟩ := List.forall_mem_cons.mp hparams
      exact ih hrest _ (by rw [Bindings.get?_put, if_neg hp, hscope])
  exact ⟨general [] rfl, h⟩

end LocalScopes.Framed

/-- Statements may stand in a plain scope. -/
theorem Frame.inner_plain (frames : List Frame) : Frame.Inner (.plain :: frames) := by
  intro d h
  cases h

/-- Uses of `this` in a plain frame belong to the method around it. -/
theorem Frame.Covers.plain {frames : List Frame} {ids : List Occurrence} (h : Frame.Covers frames ids) :
    Frame.Covers (.plain :: frames) ids := by
  intro id hid
  obtain ⟨distance, d, howner, hd⟩ := h id hid
  exact ⟨distance + 1, d, by rw [owner?, howner]; rfl, hd⟩

/-- A method covers the uses of `this` that stand in it. -/
theorem Frame.covers_method (d : FunctionDecl) (frames : List Frame) :
    Frame.Covers (.method d :: frames) d.thisUses := fun _ hid => ⟨0, d, rfl, hid⟩

section Expressions

variable {plan : List Site} {scopes : LocalScopes} {frames : List Frame} {pending : Option String}
  (hframed : scopes.Framed frames)
include hframed

mutual

/-- An expression that was resolved is placed. -/
theorem Expr.placed : (e : Expr) → e.sites scopes pending ⊆ plan → e.WellFormed →
    (∀ t ∈ e.names, t.lexeme ≠ thisName) → Frame.Covers frames e.thisUses → e.Placed plan frames
  | .literal _, _, _, _, _ => trivial
  | .grouping inner, hsites, hwf, hnames, hcovers => inner.placed hsites hwf hnames hcovers
  | .unary _ right, hsites, hwf, hnames, hcovers => right.placed hsites hwf hnames hcovers
  | .binary left _ right, hsites, ⟨hleft, hright⟩, hnames, hcovers => by
    obtain ⟨hsites, hsites'⟩ := List.append_subset.mp hsites
    obtain ⟨hnames, hnames'⟩ := List.forall_mem_append.mp hnames
    obtain ⟨hcovers, hcovers'⟩ := List.forall_mem_append.mp hcovers
    exact ⟨left.placed hsites hleft hnames hcovers, right.placed hsites' hright hnames' hcovers'⟩
  | .logical left _ right, hsites, ⟨hleft, hright⟩, hnames, hcovers => by
    obtain ⟨hsites, hsites'⟩ := List.append_subset.mp hsites
    obtain ⟨hnames, hnames'⟩ := List.forall_mem_append.mp hnames
    obtain ⟨hcovers, hcovers'⟩ := List.forall_mem_append.mp hcovers
    exact ⟨left.placed hsites hleft hnames hcovers, right.placed hsites' hright hnames' hcovers'⟩
  | .variable _ _, _, _, _, _ => trivial
  | .assign id name value, hsites, hwf, hnames, hcovers => by
    obtain ⟨hsites, hsite⟩ := List.append_subset.mp hsites
    obtain ⟨hname, hnames⟩ := List.forall_mem_cons.mp hnames
    refine ⟨⟨hname, _, hsite (List.mem_singleton_self _), rfl, fun distance hdistance => ?_⟩,
      value.placed hsites hwf hnames hcovers⟩
    exact hframed.of_name hname hdistance
  | .call callee _ arguments, hsites, ⟨hcallee, harguments⟩, hnames, hcovers => by
    obtain ⟨hsites, hsites'⟩ := List.append_subset.mp hsites
    obtain ⟨hnames, hnames'⟩ := List.forall_mem_append.mp hnames
    obtain ⟨hcovers, hcovers'⟩ := List.forall_mem_append.mp hcovers
    exact ⟨callee.placed hsites hcallee hnames hcovers,
      Expr.allPlaced arguments hsites' harguments hnames' hcovers'⟩
  | .get object _, hsites, hwf, hnames, hcovers => object.placed hsites hwf hnames hcovers
  | .set object _ value, hsites, ⟨hobject, hvalue⟩, hnames, hcovers => by
    obtain ⟨hsites', hsites⟩ := List.append_subset.mp hsites
    obtain ⟨hnames, hnames'⟩ := List.forall_mem_append.mp hnames
    obtain ⟨hcovers, hcovers'⟩ := List.forall_mem_append.mp hcovers
    exact ⟨object.placed hsites hobject hnames hcovers, value.placed hsites' hvalue hnames' hcovers'⟩
  | .this id keyword, hsites, hwf, _, hcovers => by
    obtain ⟨distance, d, howner, hid⟩ := hcovers id (List.mem_singleton_self _)
    refine ⟨hwf, _, hsites (List.mem_singleton_self _), rfl, distance, d, ?_, howner, hid⟩
    rw [Site.distance?, show keyword.lexeme = thisName from hwf, hframed.of_this howner]

/-- Expressions that were resolved are placed. -/
theorem Expr.allPlaced : (es : List Expr) → Expr.sitesAll scopes pending es ⊆ plan →
    Expr.AllWellFormed es → (∀ t ∈ Expr.namesAll es, t.lexeme ≠ thisName) →
    Frame.Covers frames (Expr.thisUsesAll es) → Expr.AllPlaced plan frames es
  | [], _, _, _, _ => trivial
  | e :: rest, hsites, ⟨he, hrest⟩, hnames, hcovers => by
    obtain ⟨hsites, hsites'⟩ := List.append_subset.mp hsites
    obtain ⟨hnames, hnames'⟩ := List.forall_mem_append.mp hnames
    obtain ⟨hcovers, hcovers'⟩ := List.forall_mem_append.mp hcovers
    exact ⟨e.placed hsites he hnames hcovers, Expr.allPlaced rest hsites' hrest hnames' hcovers'⟩

end

/-- An expression that may be missing is placed if it was resolved. -/
theorem Expr.optionPlaced (e : Option Expr) (hsites : Expr.sitesOption scopes pending e ⊆ plan)
    (hwf : ∀ e' ∈ e, e'.WellFormed) (hnames : ∀ t ∈ Expr.namesOption e, t.lexeme ≠ thisName)
    (hcovers : Frame.Covers frames (Expr.thisUsesOption e)) : ∀ e' ∈ e, e'.Placed plan frames := by
  rintro e' rfl
  exact e'.placed hframed hsites (hwf e' rfl) hnames hcovers

end Expressions

/-- Initializers among methods give no values. -/
def InitializersReturnNothing (methods : List FunctionDecl) : Prop :=
  ∀ d ∈ methods, d.isInitializer → ∀ value ∈ Stmt.returnsAll d.body, value = none

section Statements

variable {plan : List Site}

mutual

/-- A statement that was resolved and keeps the rules is placed. -/
theorem Stmt.placed : (s : Stmt) → {scopes : LocalScopes} → {frames : List Frame} →
    scopes.Framed frames → Frame.Inner frames → s.Resolved plan scopes → s.WellFormed →
    (∀ t ∈ s.names, t.lexeme ≠ thisName) → Frame.Covers frames s.thisUses →
    InitializersReturnNothing s.methods → s.Placed plan frames
  | .expression expr, _, _, hframed, _, hresolved, hwf, hnames, hcovers, _ =>
    expr.placed hframed hresolved hwf hnames hcovers
  | .print expr, _, _, hframed, _, hresolved, hwf, hnames, hcovers, _ =>
    expr.placed hframed hresolved hwf hnames hcovers
  | .variable name initial, _, _, hframed, hinner, hresolved, hwf, hnames, hcovers, _ => by
    obtain ⟨hname, hnames⟩ := List.forall_mem_cons.mp hnames
    exact ⟨hname, Expr.optionPlaced (hframed.declare hinner hname) initial hresolved.2 hwf.2 hnames hcovers⟩
  | .block body, _, _, hframed, _, hresolved, hwf, hnames, hcovers, hinit =>
    Stmt.allPlaced body hframed.block (Frame.inner_plain _) hresolved hwf hnames hcovers.plain hinit
  | .conditional condition thenBranch none, _, _, hframed, hinner, ⟨hcondition, _, hthen⟩,
      ⟨hwf, _, hwf'⟩, hnames, hcovers, hinit => by
    obtain ⟨hnames, hnames'⟩ := List.forall_mem_append.mp hnames
    obtain ⟨hcovers, hcovers'⟩ := List.forall_mem_append.mp hcovers
    exact ⟨condition.placed hframed hcondition hwf hnames hcovers,
      thenBranch.placed hframed hinner hthen hwf' hnames' hcovers' hinit⟩
  | .conditional condition thenBranch (some elseBranch), _, _, hframed, hinner,
      ⟨hcondition, ⟨_, hthen⟩, _, helse⟩, ⟨hwf, ⟨_, hwf'⟩, _, hwf''⟩, hnames, hcovers, hinit => by
    obtain ⟨hboth, hnames''⟩ := List.forall_mem_append.mp hnames
    obtain ⟨hnames, hnames'⟩ := List.forall_mem_append.mp hboth
    obtain ⟨hboth, hcovers''⟩ := List.forall_mem_append.mp hcovers
    obtain ⟨hcovers, hcovers'⟩ := List.forall_mem_append.mp hboth
    obtain ⟨hinit, hinit'⟩ := List.forall_mem_append.mp hinit
    exact ⟨condition.placed hframed hcondition hwf hnames hcovers,
      thenBranch.placed hframed hinner hthen hwf' hnames' hcovers' hinit,
      elseBranch.placed hframed hinner helse hwf'' hnames'' hcovers'' hinit'⟩
  | .loop condition body, _, _, hframed, hinner, ⟨hcondition, _, hbody⟩, ⟨hwf, _, hwf'⟩, hnames,
      hcovers, hinit => by
    obtain ⟨hnames, hnames'⟩ := List.forall_mem_append.mp hnames
    obtain ⟨hcovers, hcovers'⟩ := List.forall_mem_append.mp hcovers
    exact ⟨condition.placed hframed hcondition hwf hnames hcovers,
      body.placed hframed hinner hbody hwf' hnames' hcovers' hinit⟩
  | .function declaration, _, _, hframed, hinner, hresolved, hwf, hnames, hcovers, hinit =>
    have hname : declaration.name.lexeme ≠ thisName :=
      hnames declaration.name (by cases declaration; exact List.mem_cons_self)
    ⟨hname, declaration.placed (hframed.complete hinner hname) hresolved.2 hwf hnames hcovers hinit⟩
  | .return _ value, _, _, hframed, _, hresolved, hwf, hnames, hcovers, _ =>
    Expr.optionPlaced hframed value hresolved hwf hnames hcovers
  | .class name methods, _, _, hframed, hinner, hresolved, hwf, hnames, _, hinit => by
    obtain ⟨hname, hnames⟩ := List.forall_mem_cons.mp hnames
    obtain ⟨hinit, hinit'⟩ := List.forall_mem_append.mp hinit
    exact ⟨hname, FunctionDecl.allMethods methods (hframed.complete hinner hname) hresolved.2 hwf hnames
      hinit hinit'⟩

/-- Statements that were resolved and keep the rules are placed. -/
theorem Stmt.allPlaced : (ss : List Stmt) → {scopes : LocalScopes} → {frames : List Frame} →
    scopes.Framed frames → Frame.Inner frames → Stmt.AllResolved plan ss scopes →
    Stmt.AllWellFormed ss → (∀ t ∈ Stmt.namesAll ss, t.lexeme ≠ thisName) →
    Frame.Covers frames (Stmt.thisUsesAll ss) → InitializersReturnNothing (Stmt.methodsAll ss) →
    Stmt.AllPlaced plan ss frames
  | [], _, _, _, _, _, _, _, _, _ => trivial
  | s :: rest, _, _, hframed, hinner, ⟨hs, hrest⟩, ⟨hwf, hwf'⟩, hnames, hcovers, hinit => by
    obtain ⟨hnames, hnames'⟩ := List.forall_mem_append.mp hnames
    obtain ⟨hcovers, hcovers'⟩ := List.forall_mem_append.mp hcovers
    obtain ⟨hinit, hinit'⟩ := List.forall_mem_append.mp hinit
    exact ⟨s.placed hframed hinner hs hwf hnames hcovers hinit,
      Stmt.allPlaced rest (hframed.after hinner hnames) hinner hrest hwf' hnames' hcovers' hinit'⟩

/-- A function that was resolved and keeps the rules is placed. -/
theorem FunctionDecl.placed : (d : FunctionDecl) → {scopes : LocalScopes} → {frames : List Frame} →
    scopes.Framed frames → d.Resolved plan scopes → d.WellFormed →
    (∀ t ∈ d.names, t.lexeme ≠ thisName) → Frame.Covers frames d.thisUses →
    InitializersReturnNothing d.innerMethods → d.Placed plan frames
  | ⟨_, params, body⟩, _, _, hframed, hresolved, hwf, hnames, hcovers, hinit => by
    obtain ⟨hparams, hnames⟩ := List.forall_mem_append.mp (List.forall_mem_cons.mp hnames).2
    exact ⟨hparams, Stmt.allPlaced body (hframed.parameters hparams) (Frame.inner_plain _) hresolved hwf
      hnames hcovers.plain hinit⟩

/-- The methods of a class that was resolved and keeps the rules are placed, each in a scope of its
own. -/
theorem FunctionDecl.allMethods : (ds : List FunctionDecl) → {scopes : LocalScopes} →
    {frames : List Frame} → scopes.Framed frames →
    FunctionDecl.AllResolved plan ds ([(thisName, true)] :: scopes) →
    FunctionDecl.AllWellFormed ds → (∀ t ∈ FunctionDecl.namesAll ds, t.lexeme ≠ thisName) →
    InitializersReturnNothing ds → InitializersReturnNothing (FunctionDecl.innerMethodsAll ds) →
    FunctionDecl.AllMethods plan ds frames
  | [], _, _, _, _, _, _, _, _ => trivial
  | d :: rest, _, frames, hframed, ⟨hd, hrest⟩, ⟨hwf, hwf'⟩, hnames, hinit, hinner => by
    obtain ⟨hnames, hnames'⟩ := List.forall_mem_append.mp hnames
    obtain ⟨hreturns, hinit'⟩ := List.forall_mem_cons.mp hinit
    obtain ⟨hinner, hinner'⟩ := List.forall_mem_append.mp hinner
    exact ⟨⟨d.placed (hframed.method d) hd hwf hnames (Frame.covers_method d frames) hinner, hreturns⟩,
      FunctionDecl.allMethods rest hframed hrest hwf' hnames' hinit' hinner'⟩

end

end Statements

end Lox
