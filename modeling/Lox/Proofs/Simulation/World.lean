import Lox.Proofs.Lexical.Evaluation
import Lox.Proofs.Resolution.Accepted
import Lox.Proofs.Tree.Relabel

/-!
# Worlds

What relates a running program to a run of the reference interpreter. A world says at which location
the reference interpreter keeps each local variable of each scope, and which of these variables have
been given a value. A world only grows: variables get locations when they are declared, and scopes that
exist get new variables only from the statements that run in them.

An environment and a map of locations are related along the scopes that resolution saw: each such scope
is one link of the environment. A name that a scope may have come to bind later, behind the place
where the map was made, is no name of that scope here, so the map may lead past it.
-/

set_option autoImplicit false

namespace Lox

/-- The environment of top-level declarations, in which every session starts. -/
def Environment.outermost : Environment := .child 1 (.root 0)

/-- The links between a running program and a run of the reference interpreter. -/
structure World where
  /-- How many scopes there are. -/
  size : Nat
  /-- Where the local variables are kept. -/
  layout : ScopeId → String → Option Lexical.Location
  /-- Which variables have been given a value by their declaration. -/
  ready : ScopeId → String → Prop
  /-- The sites of the programs that have been started. -/
  plan : List Site
  /-- The number of the next occurrence. -/
  nextId : Occurrence

namespace World

/-- A world is part of another one. -/
structure Extends (w w' : World) : Prop where
  size : w.size ≤ w'.size
  layout : ∀ scope x l, w.layout scope x = some l → w'.layout scope x = some l
  ready : ∀ scope x, w.ready scope x → w'.ready scope x
  plan : w.plan ⊆ w'.plan

/-- A world that is part of a part of another one is part of this one. -/
theorem Extends.trans {w w₁ w₂ : World} (h : w.Extends w₁) (h' : w₁.Extends w₂) : w.Extends w₂ where
  size := Nat.le_trans h.size h'.size
  layout scope x l hl := h'.layout scope x l (h.layout scope x l hl)
  ready scope x hx := h'.ready scope x (h.ready scope x hx)
  plan := fun _ hsite => h'.plan (h.plan hsite)

/-- A world has grown by what ran in it, without a new variable in the scopes below `frozen`. -/
structure Grows (frozen : ScopeId) (w w' : World) : Prop extends Extends w w' where
  frozen : ∀ scope < frozen, w'.layout scope = w.layout scope
  plan_eq : w'.plan = w.plan
  nextId_eq : w'.nextId = w.nextId

namespace Grows

variable {frozen : ScopeId} {w w₁ w₂ : World}

/-- A world has grown from itself. -/
protected theorem refl (frozen : ScopeId) (w : World) : Grows frozen w w :=
  ⟨⟨Nat.le_refl _, fun _ _ _ h => h, fun _ _ h => h, fun _ h => h⟩, fun _ _ => rfl, rfl, rfl⟩

/-- A world that grows twice has grown. -/
theorem trans (h : Grows frozen w w₁) (h' : Grows frozen w₁ w₂) : Grows frozen w w₂ where
  toExtends := h.toExtends.trans h'.toExtends
  frozen scope hscope := (h'.frozen scope hscope).trans (h.frozen scope hscope)
  plan_eq := h'.plan_eq.trans h.plan_eq
  nextId_eq := h'.nextId_eq.trans h.nextId_eq

/-- A world that has grown above some scopes has done so above fewer of them. -/
theorem weaken {frozen' : ScopeId} (h : Grows frozen' w w₁) (hle : frozen ≤ frozen') :
    Grows frozen w w₁ :=
  { h with frozen := fun scope hscope => h.frozen scope (Nat.lt_of_lt_of_le hscope hle) }

end Grows

/-- An environment agrees with a map of locations, seen through the given scopes. -/
def Scoped (w : World) : LocalScopes → Environment → Lexical.Scope → Prop
  | [], env, visible => env = .outermost ∧ ∀ x, visible.get? x = none
  | names :: outer, .child scope enclosing, visible =>
    2 ≤ scope ∧ scope < w.size ∧ ∃ visible', w.Scoped outer enclosing visible' ∧ ∀ x,
      match names.get? x with
      | some status =>
        (status = true → w.ready scope x) ∧
          ∃ l, visible.get? x = some l ∧ w.layout scope x = some l
      | none => visible.get? x = visible'.get? x
  | _ :: _, .root _, _ => False

/-- Outside all local scopes, no name has a location. -/
theorem scoped_outermost (w : World) : w.Scoped [] .outermost [] := ⟨rfl, fun _ => rfl⟩

section Scoped

variable {w w' : World} {scopes : LocalScopes} {env : Environment} {visible : Lexical.Scope}

/-- An environment agrees with a map of locations in a larger world as well. -/
theorem Scoped.mono (h : w.Scoped scopes env visible) (hw : w.Extends w') :
    w'.Scoped scopes env visible := by
  induction scopes generalizing env visible with
  | nil => exact h
  | cons names outer ih =>
    cases env with
    | root scope => exact h
    | child scope enclosing =>
      obtain ⟨hlocal, hscope, visible', houter, hnames⟩ := h
      refine ⟨hlocal, Nat.lt_of_lt_of_le hscope hw.size, visible', ih houter, fun x => ?_⟩
      have hname := hnames x
      cases hget : names.get? x with
      | some status =>
        rw [hget] at hname
        obtain ⟨hready, l, hvisible, hlayout⟩ := hname
        exact ⟨fun hstatus => hw.ready scope x (hready hstatus), l, hvisible,
          hw.layout scope x l hlayout⟩
      | none =>
        rw [hget] at hname
        exact hname

/-- A name that resolution found is at a location, and this is the location of the name in the scope
at its distance. A name whose declaration is complete has been given a value there. -/
theorem Scoped.local_name (h : w.Scoped scopes env visible) {x : String} {distance : Nat}
    (hx : Resolution.distance? x scopes = some distance) :
    ∃ scope l, (env.ancestor distance).scope = scope ∧ visible.get? x = some l ∧
      w.layout scope x = some l ∧ (scopes.status? x = some true → w.ready scope x) := by
  induction scopes generalizing env visible distance with
  | nil => simp [Resolution.distance?] at hx
  | cons names outer ih =>
    cases env with
    | root scope => exact h.elim
    | child scope enclosing =>
      obtain ⟨-, -, visible', houter, hnames⟩ := h
      have hname := hnames x
      rw [LocalScopes.distance?_cons, Bindings.binds] at hx
      cases hget : names.get? x with
      | some status =>
        rw [hget] at hname
        obtain ⟨hready, l, hvisible, hlayout⟩ := hname
        simp only [hget, Option.isSome_some, if_true, Option.some.injEq] at hx
        subst hx
        refine ⟨scope, l, rfl, hvisible, hlayout, fun hstatus => ?_⟩
        simp only [LocalScopes.status?, hget, Option.some.injEq] at hstatus
        exact hready hstatus
      | none =>
        rw [hget] at hname
        simp only [hget, Option.isSome_none, Bool.false_eq_true, if_false] at hx
        obtain ⟨d, hd, rfl⟩ := Option.map_eq_some_iff.mp hx
        obtain ⟨scope', l, hscope, hvisible, hlayout, hready⟩ := ih houter hd
        refine ⟨scope', l, hscope, hname.trans hvisible, hlayout, fun hstatus => hready ?_⟩
        simpa only [LocalScopes.status?, hget] using hstatus

/-- A name that resolution did not find has no location. -/
theorem Scoped.global_name (h : w.Scoped scopes env visible) {x : String}
    (hx : Resolution.distance? x scopes = none) : visible.get? x = none := by
  induction scopes generalizing env visible with
  | nil => exact h.2 x
  | cons names outer ih =>
    cases env with
    | root scope => exact h.elim
    | child scope enclosing =>
      obtain ⟨-, -, visible', houter, hnames⟩ := h
      have hname := hnames x
      rw [LocalScopes.distance?_cons, Bindings.binds] at hx
      cases hget : names.get? x with
      | some status => simp [hget] at hx
      | none =>
        rw [hget] at hname
        simp only [hget, Option.isSome_none, Bool.false_eq_true, if_false, Option.map_eq_none_iff]
          at hx
        exact hname.trans (ih houter hx)

end Scoped

end World

end Lox
