import Mathlib.Data.List.Nodup
import Lox.Proofs.Simulation.State

/-!
# Walks along a chain

A name is found in two ways: by looking into one environment after the other, or by going out by a number of
links and looking there. They agree at the least number that leads to the name, for a value that is read and for
one that is assigned. Since environments share what stands around them, an assignment is also seen from other
chains; which ones see it, and that nothing else changes, is said of all environments that were made.

Environments are made on their own or inside others, and names are defined and assigned in any order in between.
A chain that does not bind the name is no exception to be left out: both walks end with the error that names it,
and nothing has changed by then.
-/

set_option autoImplicit false

namespace Lox

namespace Environment

variable {env : Environment} {s s' : Store} {name : String} {distance : Nat}

/-- A distance is the least number of links out to an environment that binds the name. -/
structure NearestAt (env : Environment) (s : Store) (name : String) (distance : Nat) : Prop where
  binds : (s.scope (env.ancestor distance).scope).binds name = true
  least : ∀ nearer < distance, (s.scope (env.ancestor nearer).scope).binds name = false

/-- No environment on the chain binds the name. -/
def Unbound (env : Environment) (s : Store) (name : String) : Prop :=
  ∀ distance, (s.scope (env.ancestor distance).scope).binds name = false

/-- Both walks by name, to a value and to a scope, end in the same place. -/
theorem get?_eq_holder? (env : Environment) (s : Store) (name : String) :
    env.get? s name = (env.holder? s name).bind fun scope => (s.scope scope).get? name := by
  induction env with
  | root scope => cases h : (s.scope scope).get? name <;> simp [get?, holder?, Bindings.binds, h]
  | child scope enclosing ih => cases h : (s.scope scope).get? name <;> simp [get?, holder?, Bindings.binds, h, ih]

/-- The walk by name ends where the nearest binding is. -/
theorem NearestAt.holder? (h : env.NearestAt s name distance) :
    env.holder? s name = some (env.ancestor distance).scope := by
  induction env generalizing distance with
  | root scope =>
    have hbinds : (s.scope scope).binds name = true := by
      cases distance <;> exact h.binds
    rw [Environment.holder?, if_pos hbinds]
    cases distance <;> rfl
  | child scope enclosing ih =>
    cases distance with
    | zero =>
      have hbinds : (s.scope scope).binds name = true := h.binds
      rw [Environment.holder?, if_pos hbinds]
      rfl
    | succ distance =>
      have hfree : (s.scope scope).binds name = false := h.least 0 (Nat.succ_pos _)
      rw [Environment.holder?, hfree, if_neg Bool.false_ne_true]
      exact ih ⟨h.binds, fun nearer hlt => h.least (nearer + 1) (Nat.succ_lt_succ hlt)⟩

/-- No scope is found for a name that is bound nowhere on the chain. -/
theorem Unbound.holder? (h : env.Unbound s name) : env.holder? s name = none := by
  induction env with
  | root scope =>
    have hfree : (s.scope scope).binds name = false := h 0
    rw [Environment.holder?, hfree, if_neg Bool.false_ne_true]
  | child scope enclosing ih =>
    have hfree : (s.scope scope).binds name = false := h 0
    rw [Environment.holder?, hfree, if_neg Bool.false_ne_true]
    exact ih fun distance => h (distance + 1)

/-- No value is found for a name that is bound nowhere on the chain. -/
theorem Unbound.get? (h : env.Unbound s name) : env.get? s name = none := by
  rw [get?_eq_holder?, h.holder?]
  rfl

/-- A name that is bound nowhere on the chain cannot be assigned. -/
theorem Unbound.assign? (h : env.Unbound s name) (value : Value) : env.assign? s name value = none := by
  rw [Environment.assign?, h.holder?]
  rfl

/-- At the least number of links, reading by name is reading by distance. -/
theorem NearestAt.get? (h : env.NearestAt s name distance) :
    env.get? s name = some (env.getAt s distance name) := by
  obtain ⟨value, hvalue⟩ := Option.isSome_iff_exists.mp h.binds
  rw [get?_eq_holder?, h.holder?, getAt]
  simp only [Option.bind_some, hvalue, Option.getD_some]

/-- At the least number of links, assigning by name is assigning by distance. -/
theorem NearestAt.assign? (h : env.NearestAt s name distance) (value : Value) :
    env.assign? s name value = some (env.assignAt s distance name value) := by
  rw [Environment.assign?, h.holder?]
  rfl

/-- Where the same names are bound, the walk by name ends in the same place. -/
theorem holder?_congr (h : ∀ scope, (s'.scope scope).binds name = (s.scope scope).binds name) :
    env.holder? s' name = env.holder? s name := by
  induction env with
  | root scope => rw [Environment.holder?, Environment.holder?, h]
  | child scope enclosing ih => rw [Environment.holder?, Environment.holder?, h, ih]

end Environment

/-- Stores that can come about, with the environments that were made on the way. -/
inductive Store.Built : Store → List Environment → Prop where
  | empty : Built .empty []
  /-- An environment that stands in no other. -/
  | root {s : Store} {envs : List Environment} (h : Built s envs) (names : Bindings Value) :
      Built (s.addScope names).2 (envs ++ [.root (s.addScope names).1])
  /-- An environment inside another. -/
  | child {s : Store} {envs : List Environment} (h : Built s envs) {env : Environment} (henv : env ∈ envs)
      (names : Bindings Value) : Built (s.addScope names).2 (envs ++ [.child (s.addScope names).1 env])
  | define {s : Store} {envs : List Environment} (h : Built s envs) {env : Environment} (henv : env ∈ envs)
      (name : String) (value : Value) : Built (s.define env.scope name value) envs
  | assign {s s' : Store} {envs : List Environment} (h : Built s envs) {env : Environment} (henv : env ∈ envs)
      {name : String} {value : Value} (hassign : env.assign? s name value = some s') : Built s' envs
  | assignAt {s : Store} {envs : List Environment} (h : Built s envs) {env : Environment} (henv : env ∈ envs)
      (distance : Nat) (name : String) (value : Value) : Built (env.assignAt s distance name value) envs

namespace Store

variable {s s' : Store} {envs : List Environment}

/-- Each scope belongs to one of the environments, in their order, and everything around an environment is one of them
as well. -/
structure Holds (s : Store) (envs : List Environment) : Prop where
  scopes : envs.map (·.scope) = List.range s.scopes.size
  closed : ∀ scope enclosing, .child scope enclosing ∈ envs → enclosing ∈ envs

namespace Holds

/-- A store with as many scopes holds the same environments. -/
theorem of_size (h : s.Holds envs) (hsize : s'.scopes.size = s.scopes.size) : s'.Holds envs :=
  ⟨hsize ▸ h.scopes, h.closed⟩

/-- A new scope belongs to a new environment, in no other or in one of those before. -/
theorem addScope (h : s.Holds envs) (names : Bindings Value) {env : Environment}
    (hscope : env.scope = s.scopes.size)
    (hclosed : ∀ scope enclosing, env = .child scope enclosing → enclosing ∈ envs) :
    (s.addScope names).2.Holds (envs ++ [env]) where
  scopes := by
    rw [List.map_append, h.scopes, Store.addScope, Array.size_push, List.range_succ]
    simp [hscope]
  closed := fun scope enclosing hchild => by
    rw [List.mem_append, List.mem_singleton] at hchild ⊢
    rcases hchild with hchild | hchild
    · exact .inl (h.closed scope enclosing hchild)
    · exact .inl (hclosed scope enclosing hchild.symm)

/-- The scope of an environment is one of those of the store. -/
theorem scope_lt (h : s.Holds envs) {env : Environment} (henv : env ∈ envs) : env.scope < s.scopes.size := by
  rw [← List.mem_range, ← h.scopes]
  exact List.mem_map_of_mem henv

/-- Environments with the same scope are the same. -/
theorem eq_of_scope_eq (h : s.Holds envs) {env env' : Environment} (henv : env ∈ envs) (henv' : env' ∈ envs)
    (hscope : env.scope = env'.scope) : env = env' :=
  List.inj_on_of_nodup_map (h.scopes ▸ List.nodup_range) henv henv' hscope

/-- A chain leads from one environment to the next. -/
theorem ancestor_mem (h : s.Holds envs) {env : Environment} (henv : env ∈ envs) (distance : Nat) :
    env.ancestor distance ∈ envs := by
  induction distance generalizing env with
  | zero => cases env <;> exact henv
  | succ distance ih =>
    cases env with
    | root scope => exact henv
    | child scope enclosing => exact ih (h.closed scope enclosing henv)

end Holds

/-- A store that came about holds the environments that were made. -/
theorem Built.holds (h : s.Built envs) : s.Holds envs := by
  induction h with
  | empty => exact ⟨rfl, nofun⟩
  | root h names ih => exact ih.addScope names rfl nofun
  | child h henv names ih =>
    refine ih.addScope names rfl fun scope enclosing heq => ?_
    cases heq
    exact henv
  | define h henv name value ih => exact ih.of_size (size_define _ _ _ _)
  | assign h henv hassign ih =>
    obtain ⟨scope, -, rfl⟩ := Option.map_eq_some_iff.mp hassign
    exact ih.of_size (size_define _ _ _ _)
  | assignAt h henv distance name value ih => exact ih.of_size (size_define _ _ _ _)

/-- All is as before, but for one name in one environment. -/
structure Rebound (s : Store) (envs : List Environment) (place : Environment) (name : String) (value : Value)
    (s' : Store) : Prop where
  /-- The name has changed in this environment only, and no other name has in any. -/
  scopes : ∀ env ∈ envs, ∀ other, (s'.scope env.scope).get? other =
    if env = place ∧ other = name then some value else (s.scope env.scope).get? other
  /-- Chains that lead there see it by the distance at which they do. -/
  distances : ∀ env ∈ envs, ∀ distance other, env.getAt s' distance other =
    if env.ancestor distance = place ∧ other = name then value else env.getAt s distance other
  /-- Chains on which this is the nearest binding see it by name. -/
  names : ∀ env ∈ envs, ∀ other, env.get? s' other =
    if other = name ∧ env.holder? s name = some place.scope then some value else env.get? s other
  fields : s'.fields = s.fields
  created : s'.created = s.created

/-- A name that is bound gets its value, and nothing else changes. -/
theorem Holds.rebound (h : s.Holds envs) {place : Environment} (hplace : place ∈ envs) {name : String}
    (hbinds : (s.scope place.scope).binds name = true) (value : Value) :
    s.Rebound envs place name value (s.define place.scope name value) := by
  have hget := s.get?_define (h.scope_lt hplace) name value
  have hscopes : ∀ env ∈ envs, ∀ other, ((s.define place.scope name value).scope env.scope).get? other =
      if env = place ∧ other = name then some value else (s.scope env.scope).get? other := by
    intro env henv other
    have hsame : env.scope = place.scope ↔ env = place := ⟨h.eq_of_scope_eq henv hplace, congrArg _⟩
    simp only [hget, hsame]
  have hkept (other : String) (scope : ScopeId) :
      ((s.define place.scope name value).scope scope).binds other = (s.scope scope).binds other := by
    unfold Bindings.binds at hbinds ⊢
    rw [hget]
    split
    · rename_i heq
      obtain ⟨rfl, rfl⟩ := heq
      rw [hbinds, Option.isSome_some]
    · rfl
  refine ⟨hscopes, fun env henv distance other => ?_, fun env henv other => ?_, rfl, rfl⟩
  · unfold Environment.getAt
    rw [hscopes _ (h.ancestor_mem henv distance)]
    split <;> rfl
  · rw [Environment.get?_eq_holder?, Environment.get?_eq_holder?, Environment.holder?_congr (hkept other)]
    cases hholder : env.holder? s other with
    | none =>
      rw [if_neg]
      · rfl
      · rintro ⟨rfl, hplace⟩
        rw [hholder] at hplace
        cases hplace
    | some scope =>
      simp only [Option.bind_some, hget]
      by_cases hother : other = name
      · subst hother
        simp only [hholder, Option.some.injEq, and_true, true_and]
      · simp only [hother, and_false, false_and]

/-- The two walks agree, whatever has been made, defined and assigned before. Where the name is bound on the chain,
at least so many links out, they read the same value, and they assign it with the same effect: it is changed in
this one environment, and so for every chain that leads there. Where it is not, a look-up and an assignment stop
with an error at the name, and nothing has changed. -/
theorem Built.walks_agree (h : s.Built envs) {env : Environment} (henv : env ∈ envs) (name : Token) (value : Value) :
    (∀ distance, env.NearestAt s name.lexeme distance →
      env.get? s name.lexeme = some (env.getAt s distance name.lexeme) ∧
      env.assign? s name.lexeme value = some (env.assignAt s distance name.lexeme value) ∧
      s.Rebound envs (env.ancestor distance) name.lexeme value (env.assignAt s distance name.lexeme value)) ∧
    (env.Unbound s name.lexeme → env.get? s name.lexeme = none ∧ env.assign? s name.lexeme value = none ∧
      ∀ (m : Interpreter) (id : Occurrence), m.store = s → m.topLevel = env → m.distances.get? id = none →
        ∃ e : RuntimeError, e.line = name.line ∧ e.cause.message = "Undefined variable '" ++ name.lexeme ++ "'." ∧
          Eval.lookUp id name m = .error (.failed (.runtime e)) m ∧
          Eval.assign id name value m = .error (.failed (.runtime e)) m) := by
  refine ⟨fun distance hnearest => ⟨hnearest.get?, hnearest.assign? value, ?_⟩, ?_⟩
  · exact h.holds.rebound (h.holds.ancestor_mem henv distance) hnearest.binds value
  · refine fun hunbound => ⟨hunbound.get?, hunbound.assign? value, ?_⟩
    rintro m id rfl rfl hglobal
    refine ⟨⟨name.line, .undefinedVariable name.lexeme⟩, rfl, ?_, ?_, ?_⟩
    · rfl
    · rw [Eval.lookUp_global hglobal, hunbound.get?]
      rfl
    · rw [Eval.assign_global hglobal, hunbound.holder?]
      rfl

/-- A name of the first environment that the second one has again, and two environments inside of the second. -/
def shadowed : Store :=
  ((((empty.addScope [("a", .bool true)]).2.addScope [("a", .bool false)]).2.addScope []).2.addScope []).2

/-- One of the two assigns the inner name, and the other one sees it; the outer name stays. Neither of them binds
another name. -/
theorem Built.walks_agree_shadowed :
    let inner := Environment.child 1 (.root 0)
    let envs := [.root 0, inner, .child 2 inner, .child 3 inner]
    let a : Token := ⟨.identifier, "a", 1⟩
    let b : Token := ⟨.identifier, "b", 1⟩
    let assigned := (Environment.child 2 inner).assignAt shadowed 1 "a" .nil
    shadowed.Built envs ∧ (Environment.child 2 inner).NearestAt shadowed a.lexeme 1 ∧
      (Environment.child 2 inner).assign? shadowed "a" .nil = some assigned ∧
      (Environment.child 3 inner).get? assigned "a" = some .nil ∧
      (Environment.root 0).get? assigned "a" = some (.bool true) ∧
      (Environment.child 2 inner).Unbound shadowed b.lexeme ∧
      ∃ (m : Interpreter) (e : RuntimeError), m.store = shadowed ∧ m.topLevel = .child 2 inner ∧
        e.cause.message = "Undefined variable 'b'." ∧ Eval.assign 0 b .nil m = .error (.failed (.runtime e)) m := by
  intro inner envs a b assigned
  have hroot : Built _ [.root 0] := Built.empty.root [("a", .bool true)]
  have hinner : Built _ [.root 0, inner] := hroot.child (List.mem_cons_self ..) [("a", .bool false)]
  have hfirst : Built _ [.root 0, inner, .child 2 inner] := hinner.child (by simp) []
  have hbuilt : shadowed.Built envs := hfirst.child (by simp) []
  have hmem : Environment.child 2 inner ∈ envs := by simp [envs]
  have hnearest : (Environment.child 2 inner).NearestAt shadowed a.lexeme 1 :=
    ⟨rfl, fun nearer hlt => by obtain rfl := Nat.lt_one_iff.mp hlt; rfl⟩
  have hunbound : (Environment.child 2 inner).Unbound shadowed b.lexeme
    | 0 => rfl
    | 1 => rfl
    | distance + 2 => by cases distance <;> rfl
  obtain ⟨-, hassign, hrebound⟩ := (hbuilt.walks_agree hmem a .nil).1 1 hnearest
  let m : Interpreter := { Interpreter.fresh (fun _ => 0) .unlimited with
    store := shadowed, topLevel := .child 2 inner }
  obtain ⟨-, -, hstops⟩ := (hbuilt.walks_agree hmem b .nil).2 hunbound
  obtain ⟨e, -, hmessage, -, hfails⟩ := hstops m 0 rfl rfl rfl
  refine ⟨hbuilt, hnearest, hassign, ?_, ?_, hunbound, m, e, rfl, rfl, hmessage, hfails⟩
  · exact hrebound.names _ (by simp [envs]) "a"
  · exact hrebound.names _ (by simp [envs]) "a"

end Store

end Lox
