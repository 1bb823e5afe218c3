import Lox.Proofs.Simulation.Values

/-!
# Related states

The relation between the state of a running program and the state of a run of the reference interpreter,
and what is left of it when a variable is given a value. The reference run may have printed something
before, which matters where one run is compared with several.
-/

set_option autoImplicit false

namespace Lox

namespace Store

variable (s : Store)

/-- A variable that gets a value leaves the number of scopes alone. -/
@[simp] theorem size_define (scope : ScopeId) (x : String) (v : Value) :
    (s.define scope x v).scopes.size = s.scopes.size := by
  simp [define]

/-- A name that is defined gets its value; everything else in the scopes stays. -/
theorem get?_define {scope : ScopeId} (hscope : scope < s.scopes.size) (x : String) (v : Value)
    (scope' : ScopeId) (x' : String) :
    ((s.define scope x v).scope scope').get? x' =
      if scope' = scope ∧ x' = x then some v else (s.scope scope').get? x' := by
  unfold define Store.scope
  rw [Array.getElem?_modify]
  by_cases heq : scope = scope'
  · subst heq
    rw [if_pos rfl, Array.getElem?_eq_getElem hscope]
    simp only [Option.map_some, Option.getD_some, Bindings.get?_put, true_and, eq_comm]
  · rw [if_neg heq, if_neg (fun h => heq h.1.symm)]

/-- A variable that gets a value leaves the other scopes alone. -/
theorem scope_define_ne {scope scope' : ScopeId} (h : scope' ≠ scope) (x : String) (v : Value) :
    (s.define scope x v).scope scope' = s.scope scope' := by
  unfold define Store.scope
  rw [Array.getElem?_modify, if_neg (Ne.symm h)]

end Store

/-- The second sink has taken what the first has taken, after what was printed before. Only a sink without a limit may
have taken something before. -/
structure RelatesOutput (printed : ByteArray) (o o' : Sink) : Prop where
  eq : o' = { o with written := printed ++ o.written }
  limit : printed = .empty ∨ o.limit = none

/-- A sink is related to itself, before anything has been printed. -/
theorem RelatesOutput.refl (o : Sink) : RelatesOutput .empty o o :=
  ⟨by rw [ByteArray.empty_append], .inl rfl⟩

/-- If nothing was printed before, the sinks are the same. -/
theorem RelatesOutput.eq_of_empty {o o' : Sink} (h : RelatesOutput .empty o o') : o' = o := by
  rw [h.eq, ByteArray.empty_append]

/-- Sinks that are related take the same text, or refuse it in the same way. -/
theorem RelatesOutput.write {printed : ByteArray} {o o' : Sink} (h : RelatesOutput printed o o')
    (text : String) :
    RelatesOutput printed (o.write text).1 (o'.write text).1 ∧ (o'.write text).2 = (o.write text).2 := by
  obtain ⟨rfl, hlimit⟩ := h
  rcases hlimit with rfl | hlimit
  · simp only [ByteArray.empty_append]
    exact ⟨⟨by simp, .inl rfl⟩, trivial⟩
  · simp only [Sink.write, hlimit]
    exact ⟨⟨by simp [ByteArray.append_assoc], .inr rfl⟩, trivial⟩

/-- A running program is in the same state as a run of the reference interpreter, which has printed something before. -/
structure Simulation (R : Relabeling) (printed : ByteArray) (w : World) (m : Interpreter)
    (n : Lexical.Machine) : Prop where
  size : m.store.scopes.size = w.size
  local_size : 2 ≤ w.size
  topLevel : m.topLevel = .outermost
  distances : ∀ site ∈ w.plan, m.distances.get? site.id = site.distance?
  settled : ∀ site ∈ w.plan, site.Settled
  numbered : ∀ site ∈ w.plan, site.id < w.nextId
  unrecorded : ∀ id, w.nextId ≤ id → m.distances.get? id = none
  natives : w.RelatesTable R (m.store.scope 0) n.natives
  globals : w.RelatesTable R (m.store.scope 1) n.globals
  placed : ∀ scope x l, w.layout scope x = some l →
    2 ≤ scope ∧ scope < w.size ∧ l < n.cells.size
  distinct : ∀ scope x scope' x' l, w.layout scope x = some l → w.layout scope' x' = some l →
    scope = scope' ∧ x = x'
  cells : ∀ scope x l, w.layout scope x = some l →
    w.Relates R (((m.store.scope scope).get? x).getD .nil) (n.cell l)
  unplaced : ∀ scope x, 2 ≤ scope → w.layout scope x = none → (m.store.scope scope).get? x = none
  ready : ∀ scope x, w.ready scope x → (m.store.scope scope).binds x = true
  instances : n.fields.size = m.store.fields.size
  fields : ∀ i : Nat, w.RelatesTable R (m.store.fields[i]?.getD []) (n.fields[i]?.getD [])
  created : n.created = m.store.created
  output : RelatesOutput printed m.output n.output
  clock : n.clock = m.clock
  ticks : n.ticks = m.ticks

namespace World

/-- The world in which a variable has been given its value. -/
def defined (w : World) (scope : ScopeId) (x : String) : World :=
  { w with ready := fun scope' x' => w.ready scope' x' ∨ (scope' = scope ∧ x' = x) }

variable {w : World} (frozen : ScopeId)

/-- A world grows by a declaration that has run. -/
theorem grows_defined (scope : ScopeId) (x : String) : w.Grows frozen (w.defined scope x) :=
  { Grows.refl frozen w with ready := fun _ _ h => .inl h }

/-- A world in which a variable is defined grows with the world. -/
theorem Grows.defined {w' : World} {frozen : ScopeId} (h : w.Grows frozen w') (scope : ScopeId)
    (x : String) : (w.defined scope x).Grows frozen (w'.defined scope x) :=
  { h with ready := fun scope' x' hx => hx.imp (h.ready scope' x') (fun heq => heq) }

end World

namespace Simulation

variable {R : Relabeling} {printed : ByteArray} {w : World} {m : Interpreter} {n : Lexical.Machine}

/-- The environment of what is running is not part of the relation. -/
theorem within (h : Simulation R printed w m n) (env : Environment) :
    Simulation R printed w { m with current := env } n := { h with }

/-- A variable with a location is given a value, perhaps its first one. -/
theorem write (h : Simulation R printed w m n) {scope : ScopeId} {x : String} {l : Lexical.Location}
    (hplace : w.layout scope x = some l) (ready : ScopeId → String → Prop)
    (hmono : ∀ scope' x', w.ready scope' x' → ready scope' x')
    (hready : ∀ scope' x', ready scope' x' → w.ready scope' x' ∨ (scope' = scope ∧ x' = x))
    {v : Value} {v' : Lexical.Value} (hv : { w with ready }.Relates R v v') :
    Simulation R printed { w with ready } { m with store := m.store.define scope x v }
      (n.setCell l v') := by
  obtain ⟨hlocal, hscope, hl⟩ := h.placed scope x l hplace
  have hnatives : (0 : ScopeId) ≠ scope := Nat.ne_of_lt (Nat.lt_of_lt_of_le Nat.zero_lt_two hlocal)
  have hglobals : (1 : ScopeId) ≠ scope := Nat.ne_of_lt hlocal
  have hw : w.Grows 0 { w with ready } := { World.Grows.refl 0 w with ready := hmono }
  have hget := m.store.get?_define (Nat.lt_of_lt_of_eq hscope h.size.symm) x v
  exact
    { h with
      size := (m.store.size_define scope x v).trans h.size
      natives := by
        rw [m.store.scope_define_ne hnatives]
        exact h.natives.mono hw.toExtends
      globals := by
        rw [m.store.scope_define_ne hglobals]
        exact h.globals.mono hw.toExtends
      placed := fun scope' x' l' hl' => by
        simpa [Lexical.Machine.setCell] using h.placed scope' x' l' hl'
      cells := fun scope' x' l' hl' => by
        rw [hget]
        by_cases heq : scope' = scope ∧ x' = x
        · obtain ⟨rfl, rfl⟩ := heq
          obtain rfl : l = l' := Option.some.inj (hplace.symm.trans hl')
          simpa [Lexical.Machine.cell, Lexical.Machine.setCell, hl] using hv
        · have hne : l ≠ l' := fun hll => heq
            (by simpa [eq_comm] using h.distinct scope x scope' x' l hplace (hll ▸ hl'))
          simpa [heq, Lexical.Machine.cell, Lexical.Machine.setCell,
            Array.getElem?_setIfInBounds_ne hne] using (h.cells scope' x' l' hl').mono hw.toExtends
      unplaced := fun scope' x' hscope' hl' => by
        rw [hget, if_neg]
        · exact h.unplaced scope' x' hscope' hl'
        · rintro ⟨rfl, rfl⟩
          rw [hplace] at hl'
          cases hl'
      ready := fun scope' x' hx => by
        rw [Bindings.binds, hget]
        split
        · rfl
        · exact (hready scope' x' hx).elim (h.ready scope' x') (fun heq => absurd heq ‹_›)
      fields := fun i => (h.fields i).mono hw.toExtends }

/-- A variable is assigned. -/
theorem setLocal (h : Simulation R printed w m n) {scope : ScopeId} {x : String}
    {l : Lexical.Location} (hplace : w.layout scope x = some l) {v : Value} {v' : Lexical.Value}
    (hv : w.Relates R v v') :
    Simulation R printed w { m with store := m.store.define scope x v } (n.setCell l v') :=
  h.write hplace w.ready (fun _ _ h => h) (fun _ _ h => .inl h) hv

/-- A variable is given the value of its declaration. -/
theorem defineLocal (h : Simulation R printed w m n) {scope : ScopeId} {x : String}
    {l : Lexical.Location} (hplace : w.layout scope x = some l) {v : Value} {v' : Lexical.Value}
    (hv : (w.defined scope x).Relates R v v') :
    Simulation R printed (w.defined scope x) { m with store := m.store.define scope x v }
      (n.setCell l v') :=
  h.write hplace _ (fun _ _ h => .inl h) (fun _ _ h => h) hv

/-- A global name is given a value. -/
theorem setGlobal (h : Simulation R printed w m n) (x : String) {v : Value} {v' : Lexical.Value}
    (hv : (w.defined 1 x).Relates R v v') :
    Simulation R printed (w.defined 1 x) { m with store := m.store.define 1 x v }
      { n with globals := n.globals.put x v' } := by
  have hw := w.grows_defined 0 1 x
  have hsize : 1 < m.store.scopes.size := Nat.lt_of_lt_of_eq h.local_size h.size.symm
  have hget := m.store.get?_define hsize x v
  exact
    { h with
      size := (m.store.size_define 1 x v).trans h.size
      natives := by
        rw [m.store.scope_define_ne (by decide)]
        exact h.natives.mono hw.toExtends
      globals := fun x' => by
        rw [hget, Bindings.get?_put]
        by_cases heq : x = x'
        · subst heq
          simpa using hv
        · simpa [heq, Ne.symm heq] using h.globals.mono hw.toExtends x'
      cells := fun scope' x' l' hl' => by
        obtain ⟨hlocal, -, -⟩ := h.placed scope' x' l' hl'
        rw [m.store.scope_define_ne (Nat.ne_of_gt hlocal)]
        exact (h.cells scope' x' l' hl').mono hw.toExtends
      unplaced := fun scope' x' hscope' hl' => by
        rw [m.store.scope_define_ne (Nat.ne_of_gt hscope')]
        exact h.unplaced scope' x' hscope' hl'
      ready := fun scope' x' hx => by
        rw [Bindings.binds, hget]
        split
        · rfl
        · exact hx.elim (h.ready scope' x') (fun heq => absurd heq ‹_›)
      fields := fun i => (h.fields i).mono hw.toExtends }

/-- A native function is given another value. -/
theorem setNative (h : Simulation R printed w m n) (x : String) {v : Value} {v' : Lexical.Value}
    (hv : w.Relates R v v') :
    Simulation R printed w { m with store := m.store.define 0 x v }
      { n with natives := n.natives.put x v' } := by
  have hsize : 0 < m.store.scopes.size := by
    have := h.local_size
    rw [h.size]
    omega
  have hget := m.store.get?_define hsize x v
  exact
    { h with
      size := (m.store.size_define 0 x v).trans h.size
      natives := fun x' => by
        rw [hget, Bindings.get?_put]
        by_cases heq : x = x'
        · subst heq
          simpa using hv
        · simpa [heq, Ne.symm heq] using h.natives x'
      globals := by
        rw [m.store.scope_define_ne (by decide)]
        exact h.globals
      cells := fun scope' x' l' hl' => by
        obtain ⟨hlocal, -, -⟩ := h.placed scope' x' l' hl'
        rw [m.store.scope_define_ne (by rintro rfl; cases hlocal)]
        exact h.cells scope' x' l' hl'
      unplaced := fun scope' x' hscope' hl' => by
        rw [m.store.scope_define_ne (by rintro rfl; cases hscope')]
        exact h.unplaced scope' x' hscope' hl'
      ready := fun scope' x' hx => by
        rw [Bindings.binds, hget]
        split
        · rfl
        · exact h.ready scope' x' hx }

end Simulation

end Lox
