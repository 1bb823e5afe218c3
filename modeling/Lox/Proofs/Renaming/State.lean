import Lox.Proofs.Renaming.Values
import Lox.Proofs.Simulation.State

/-!
# States of a renamed program

The state of a program and the state of its version with a variable renamed differ in their stores only,
and there in the names of the scopes that declare the variable. What is read from the two stores is
related, and they stay related under the same changes.
-/

set_option autoImplicit false

namespace Lox

/-- The environment at distance zero is the environment itself. -/
@[simp] theorem Environment.ancestor_zero (env : Environment) : env.ancestor 0 = env := by
  cases env <;> rfl

/-- A scope that binds a name is a scope of the environment. -/
theorem Environment.holder?_eq_some {s : Store} {env : Environment} {scope : ScopeId} {x : String}
    (hholder : env.holder? s x = some scope) :
    ∃ distance, (env.ancestor distance).scope = scope := by
  induction env with
  | root root =>
    rw [Environment.holder?] at hholder
    split at hholder
    · exact ⟨0, Option.some.inj hholder⟩
    · cases hholder
  | child inner enclosing ih =>
    rw [Environment.holder?] at hholder
    split at hholder
    · exact ⟨0, Option.some.inj hholder⟩
    · obtain ⟨distance, hscope⟩ := ih hholder
      exact ⟨distance + 1, hscope⟩

namespace Renaming

/-- Two stores hold the same, under the names that the scopes have then. -/
structure RelatesStore (r : Renaming) (w : ScopeMarks) (s s' : Store) : Prop where
  size : s.scopes.size = w.length
  size' : s'.scopes.size = w.length
  scopes : ∀ scope marked, w[scope]? = some marked →
    r.RelatesTable w marked (s.scope scope) (s'.scope scope)
  instances : s'.fields.size = s.fields.size
  fields : ∀ i : Nat, r.RelatesTable w false (s.fields[i]?.getD []) (s'.fields[i]?.getD [])
  created : s'.created = s.created

/-- Two running programs are in the same state, but for the names of variables. -/
structure RelatesState (r : Renaming) (w : ScopeMarks) (m m' : Interpreter) : Prop where
  rest : m' = { m with store := m'.store }
  distances : m.distances = r.distances
  topLevel : w.Lead .none m.topLevel
  store : r.RelatesStore w m.store m'.store

variable {r : Renaming} {w : ScopeMarks} {marks : Marks} {env : Environment} {s s' : Store}
  {v v' : Value}

namespace RelatesStore

variable (h : r.RelatesStore w s s')
include h

/-- A name has related values in a scope that both have. -/
theorem getAt (hlead : w.Lead marks env) (distance : Nat) (x : String) :
    r.Relates w (env.getAt s distance x) (env.getAt s' distance (r.key (marks distance) x)) := by
  have hx := h.scopes _ _ (hlead distance) x
  unfold Environment.getAt
  generalize (s.scope (env.ancestor distance).scope).get? x = v?,
    (s'.scope (env.ancestor distance).scope).get? (r.key (marks distance) x) = v'? at hx ⊢
  cases hx with
  | some hv => exact hv
  | none => exact .nil

/-- Where nothing is renamed, a name is found in both or in neither. -/
theorem get? (hlead : w.Lead .none env) (x : String) :
    Option.Rel (r.Relates w) (env.get? s x) (env.get? s' x) := by
  induction env with
  | root scope => exact h.scopes _ _ (hlead 0) x
  | child scope enclosing ih =>
    have hx : Option.Rel (r.Relates w) ((s.scope scope).get? x) ((s'.scope scope).get? x) :=
      h.scopes _ _ (hlead 0) x
    unfold Environment.get?
    generalize (s.scope scope).get? x = v?, (s'.scope scope).get? x = v'? at hx ⊢
    cases hx with
    | some hv => exact .some hv
    | none => exact ih fun distance => hlead (distance + 1)

/-- Where nothing is renamed, the same scope binds a name. -/
theorem holder? (hlead : w.Lead .none env) (x : String) : env.holder? s' x = env.holder? s x := by
  induction env with
  | root scope =>
    have hbinds : (s'.scope scope).binds x = (s.scope scope).binds x :=
      (h.scopes _ _ (hlead 0)).binds x
    rw [Environment.holder?, Environment.holder?, hbinds]
  | child scope enclosing ih =>
    have hbinds : (s'.scope scope).binds x = (s.scope scope).binds x :=
      (h.scopes _ _ (hlead 0)).binds x
    rw [Environment.holder?, Environment.holder?, hbinds, ih fun distance => hlead (distance + 1)]

/-- A name gets related values in a scope that both have. -/
theorem define {scope : ScopeId} {marked : Bool} (hscope : w[scope]? = some marked) (x : String)
    (hv : r.Relates w v v') :
    r.RelatesStore w (s.define scope x v) (s'.define scope (r.key marked x) v') where
  size := (s.size_define _ _ _).trans h.size
  size' := (s'.size_define _ _ _).trans h.size'
  scopes scope' marked' hscope' := by
    by_cases heq : scope' = scope
    · subst heq
      obtain rfl : marked = marked' := Option.some.inj (hscope.symm.trans hscope')
      have hlt := (List.getElem?_eq_some_iff.mp hscope).1
      intro y
      rw [s.get?_define (h.size ▸ hlt), s'.get?_define (h.size' ▸ hlt)]
      by_cases hname : y = x
      · rw [if_pos ⟨rfl, hname⟩, if_pos ⟨rfl, congrArg _ hname⟩]
        exact .some hv
      · rw [if_neg fun hboth => hname hboth.2,
          if_neg fun hboth => hname (r.key_injective hboth.2)]
        exact h.scopes _ _ hscope y
    · rw [s.scope_define_ne heq, s'.scope_define_ne heq]
      exact h.scopes _ _ hscope'
  instances := h.instances
  fields := h.fields
  created := h.created

/-- A new scope gets the next number. -/
theorem addScope {marked : Bool} {names names' : Bindings Value}
    (hnames : r.RelatesTable w marked names names') :
    r.RelatesStore (w ++ [marked]) (s.addScope names).2 (s'.addScope names').2 where
  size := by simp [Store.addScope, h.size]
  size' := by simp [Store.addScope, h.size']
  scopes scope marked' hscope := by
    unfold Store.addScope Store.scope
    rw [Array.getElem?_push, Array.getElem?_push, h.size, h.size']
    by_cases heq : scope = w.length
    · subst heq
      obtain rfl : marked = marked' := Option.some.inj (List.getElem?_concat_length.symm.trans hscope)
      simpa using hnames.mono (List.prefix_append _ _)
    · have hlt := (List.getElem?_eq_some_iff.mp hscope).1
      rw [List.length_append, List.length_singleton] at hlt
      rw [List.getElem?_append_left (Nat.lt_of_le_of_ne (Nat.le_of_lt_succ hlt) heq)] at hscope
      rw [if_neg heq, if_neg heq]
      exact (h.scopes _ _ hscope).mono (List.prefix_append _ _)
  instances := h.instances
  fields i := (h.fields i).mono (List.prefix_append _ _)
  created := h.created

/-- New instances of related classes leave related stores. -/
theorem addInstance (c c' : ClassValue) :
    r.RelatesStore w (s.addInstance c).2 (s'.addInstance c').2 :=
  { h with
    instances := by simp [Store.addInstance, h.instances]
    fields := fun i => by
      have hfields := h.fields i
      simp only [Store.addInstance, Array.getElem?_push, h.instances]
      split
      · exact relatesTable_nil false
      · exact hfields }

/-- New identities leave related stores. -/
theorem newIdentity : r.RelatesStore w s.newIdentity.2 s'.newIdentity.2 :=
  { h with created := congrArg (· + 1) h.created }

/-- Fields of related instances that get related values leave related stores. -/
theorem setField {i i' : Instance} (hi : r.RelatesInstance w i i') (x : String)
    (hv : r.Relates w v v') : r.RelatesStore w (s.setField i x v) (s'.setField i' x v') :=
  { h with
    instances := by simp [Store.setField, h.instances]
    fields := fun j => by
      have hfields := h.fields j
      simp only [Store.setField, Array.getElem?_modify, hi.identity]
      split
      · by_cases hj : j < s.fields.size
        · have hj' : j < s'.fields.size := h.instances ▸ hj
          simp only [Array.getElem?_eq_getElem, hj, hj', Option.getD_some, Option.map_some] at hfields ⊢
          exact hfields.put hv x
        · have hj' : ¬j < s'.fields.size := h.instances ▸ hj
          simp only [Array.getElem?_eq_none (Nat.le_of_not_lt hj),
            Array.getElem?_eq_none (Nat.le_of_not_lt hj'), Option.map_none, Option.getD_none]
          exact relatesTable_nil false
      · exact hfields }

end RelatesStore

/-- The states differ in their stores only. -/
theorem RelatesState.eq_store {m m' : Interpreter} (h : r.RelatesState w m m') :
    ∃ s', m' = { m with store := s' } := ⟨m'.store, h.rest⟩

/-- Both states get another store. -/
theorem RelatesState.withStore {m m' : Interpreter} (h : r.RelatesState w m m') {w' : ScopeMarks}
    (hw : w <+: w') (hstore : r.RelatesStore w' s s') :
    r.RelatesState w' { m with store := s } { m' with store := s' } where
  rest := by rw [h.rest]
  distances := h.distances
  topLevel := h.topLevel.mono hw
  store := hstore

/-- The environment of what is running is the same in both. -/
theorem RelatesState.within {m m' : Interpreter} (h : r.RelatesState w m m') (env : Environment) :
    r.RelatesState w { m with current := env } { m' with current := env } where
  rest := by rw [h.rest]
  distances := h.distances
  topLevel := h.topLevel
  store := h.store

end Renaming

end Lox
