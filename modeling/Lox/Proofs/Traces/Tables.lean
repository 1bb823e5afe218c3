import Lox.Evaluation

/-!
# The values in a store

Every value that a program finds in a variable or in a field was put there before. So what holds of all values in
a store is kept by each step that only puts values of this kind.
-/

set_option autoImplicit false

namespace Lox

/-- All values of a table have a property. -/
def Bindings.All {α : Type} (P : α → Prop) (b : Bindings α) : Prop := ∀ name v, b.get? name = some v → P v

namespace Bindings.All

variable {α : Type} {P Q : α → Prop} {b : Bindings α}

/-- The empty table has no values. -/
theorem nil : All P ([] : Bindings α) := fun _ _ h => nomatch h

/-- What holds of the values of a table holds when a value of this kind is put. -/
theorem put (h : b.All P) (x : String) {v : α} (hv : P v) : All P (b.put x v) := by
  intro name v' hv'
  rw [Bindings.get?_put] at hv'
  split at hv'
  · cases hv'
    exact hv
  · exact h name v' hv'

/-- The values of a table have every property that follows from one that they have. -/
theorem imp (h : b.All P) (himp : ∀ v, P v → Q v) : b.All Q := fun name v hv => himp v (h name v hv)

/-- What holds of the arguments holds of the parameters. -/
theorem parameters {P : Value → Prop} (params : List Token) {arguments : List Value} (h : ∀ v ∈ arguments, P v) :
    All P (parameterBindings params arguments) := by
  have hpairs : ∀ pair ∈ params.zip arguments, P pair.2 :=
    fun pair hpair => h pair.2 (List.of_mem_zip hpair).2
  unfold parameterBindings
  generalize params.zip arguments = pairs at hpairs
  exact List.foldlRecOn pairs _ nil fun b hb pair hpair => put hb _ (hpairs pair hpair)

end Bindings.All

/-- All values in a store have a property. -/
structure Store.All (P : Value → Prop) (s : Store) : Prop where
  scopes : ∀ scope, (s.scope scope).All P
  fields : ∀ i : Nat, Bindings.All P (s.fields[i]?.getD [])

section Tables

variable {P : Bindings Value → Prop} {tables : Array (Bindings Value)}
  (h : ∀ i : Nat, P (tables[i]?.getD []))
include h

/-- What holds of all tables holds when another one is added. -/
theorem tables_push {b : Bindings Value} (hb : P b) (i : Nat) : P ((tables.push b)[i]?.getD []) := by
  rw [Array.getElem?_push]
  split
  · exact hb
  · exact h i

/-- What holds of all tables holds when one of them changes and keeps it. -/
theorem tables_modify {change : Bindings Value → Bindings Value} (hchange : ∀ b, P b → P (change b))
    (i j : Nat) : P ((tables.modify i change)[j]?.getD []) := by
  have hj := h j
  rw [Array.getElem?_modify]
  split
  · cases htable : tables[j]? with
    | none => rwa [htable] at hj
    | some b =>
      rw [htable] at hj
      exact hchange b hj
  · exact hj

end Tables

namespace Store.All

variable {P Q : Value → Prop} {s : Store}

/-- The values in a store have every property that follows from one that they have. -/
theorem imp (h : s.All P) (himp : ∀ v, P v → Q v) : s.All Q :=
  ⟨fun scope => (h.scopes scope).imp himp, fun i => (h.fields i).imp himp⟩

/-- A variable gets a value. -/
theorem define (h : s.All P) (scope : ScopeId) (x : String) {v : Value} (hv : P v) : (s.define scope x v).All P :=
  ⟨tables_modify h.scopes (fun _ hb => hb.put x hv) scope, h.fields⟩

/-- A new scope comes with its values. -/
theorem addScope (h : s.All P) {names : Bindings Value} (hnames : names.All P) : (s.addScope names).2.All P :=
  ⟨tables_push h.scopes hnames, h.fields⟩

/-- A new instance has no fields yet. -/
theorem addInstance (h : s.All P) (c : ClassValue) : (s.addInstance c).2.All P :=
  ⟨h.scopes, tables_push h.fields .nil⟩

/-- A field gets a value. -/
theorem setField (h : s.All P) (i : Instance) (x : String) {v : Value} (hv : P v) : (s.setField i x v).All P :=
  ⟨h.scopes, tables_modify h.fields (fun _ hb => hb.put x hv) i.identity⟩

/-- The value of a field is in the store. -/
theorem field? (h : s.All P) {i : Instance} {x : String} {v : Value} (hv : s.field? i x = some v) : P v :=
  h.fields i.identity x v hv

/-- The value of a name that is looked up in an environment is in the store. -/
theorem get? (h : s.All P) {env : Environment} {x : String} {v : Value} (hv : env.get? s x = some v) : P v := by
  induction env with
  | root scope => exact h.scopes scope x v hv
  | child scope enclosing ih =>
    rw [Environment.get?] at hv
    cases hscope : (s.scope scope).get? x with
    | some _ =>
      rw [hscope] at hv
      exact h.scopes scope x v (hscope.trans hv)
    | none =>
      rw [hscope] at hv
      exact ih hv

/-- The value of a name at a distance is in the store, or it is `nil`. -/
theorem getAt (h : s.All P) (hnil : P .nil) (env : Environment) (distance : Nat) (x : String) :
    P (env.getAt s distance x) := by
  unfold Environment.getAt
  cases hv : (s.scope (env.ancestor distance).scope).get? x with
  | none => exact hnil
  | some v => exact h.scopes _ x v hv

end Store.All

/-- Before anything has run, the clock is the only value. -/
theorem Interpreter.fresh_good {P : Value → Prop} (h : P .clock) {clock : Nat → Float} {output : Sink} :
    (Interpreter.fresh clock output).store.All P where
  scopes scope := by
    match scope with
    | 0 => exact Bindings.All.nil.put clockName h
    | 1 => exact .nil
    | scope + 2 => exact .nil
  fields _ := .nil

end Lox
