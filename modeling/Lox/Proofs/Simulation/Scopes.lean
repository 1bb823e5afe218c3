import Lox.Proofs.Simulation.State

/-!
# Related states with new variables

Variables come into being in two ways. A declaration gives its variable a location in a scope that is
there already; until it runs, nothing in the scope has this name. A call, a block or a bound method
opens a scope, with all its variables given values.
-/

set_option autoImplicit false

namespace Lox

/-- A new scope comes behind the others. -/
theorem Store.scope_addScope (s : Store) (names : Bindings Value) (scope : ScopeId) :
    (s.addScope names).2.scope scope = if scope = s.scopes.size then names else s.scope scope := by
  unfold addScope Store.scope
  rw [Array.getElem?_push]
  split <;> rfl

namespace World

/-- The world in which a variable has been declared at a location. -/
def placing (w : World) (scope : ScopeId) (x : String) (l : Lexical.Location) : World :=
  { w with layout := fun scope' x' => if scope' = scope ∧ x' = x then some l else w.layout scope' x' }

/-- The world in which a scope has been opened, with variables that have their values. -/
def opened (w : World) (places : String → Option Lexical.Location) : World :=
  { w with
    size := w.size + 1
    layout := fun scope => if scope = w.size then places else w.layout scope
    ready := fun scope x => w.ready scope x ∨ (scope = w.size ∧ (places x).isSome) }

variable {w : World} (frozen : ScopeId)

/-- A world grows by a name that gets a location in a scope that may grow. -/
theorem grows_placing {scope : ScopeId} {x : String} (hfrozen : frozen ≤ scope)
    (hnew : w.layout scope x = none) (l : Lexical.Location) :
    w.Grows frozen (w.placing scope x l) where
  size := Nat.le_refl _
  layout scope' x' l' hl' := by
    have hne : ¬(scope' = scope ∧ x' = x) := by
      rintro ⟨rfl, rfl⟩
      rw [hnew] at hl'
      cases hl'
    exact (if_neg hne).trans hl'
  frozen scope' hscope' := by
    funext x'
    exact if_neg (fun h => absurd h.1 (Nat.ne_of_lt (Nat.lt_of_lt_of_le hscope' hfrozen)))
  ready _ _ h := h
  plan _ h := h
  plan_eq := rfl
  nextId_eq := rfl

/-- A world grows by a new scope. -/
theorem grows_opened (hfrozen : frozen ≤ w.size) (places : String → Option Lexical.Location)
    (hplaced : ∀ scope x l, w.layout scope x = some l → scope < w.size) :
    w.Grows frozen (w.opened places) where
  size := Nat.le_succ _
  layout scope x l hl :=
    (congrFun (if_neg (Nat.ne_of_lt (hplaced scope x l hl))) x).trans hl
  frozen _ hscope := if_neg (Nat.ne_of_lt (Nat.lt_of_lt_of_le hscope hfrozen))
  ready _ _ h := .inl h
  plan _ h := h
  plan_eq := rfl
  nextId_eq := rfl

end World

namespace Simulation

variable {R : Relabeling} {printed : ByteArray} {w : World} {m : Interpreter} {n : Lexical.Machine}

/-- A declared variable gets a location of its own. -/
theorem place (h : Simulation R printed w m n) {scope : ScopeId} {x : String} (hlocal : 2 ≤ scope)
    (hscope : scope < w.size) (hnew : w.layout scope x = none) :
    Simulation R printed (w.placing scope x n.cells.size) m { n with cells := n.cells.push .nil } := by
  have hw := w.grows_placing 0 (Nat.zero_le scope) hnew n.cells.size
  have hold {scope' : ScopeId} {x' : String} {l' : Lexical.Location}
      (hl' : (w.placing scope x n.cells.size).layout scope' x' = some l') :
      (scope' = scope ∧ x' = x ∧ l' = n.cells.size) ∨ w.layout scope' x' = some l' := by
    by_cases heq : scope' = scope ∧ x' = x
    · have : some n.cells.size = some l' := (if_pos heq).symm.trans hl'
      exact .inl ⟨heq.1, heq.2, (Option.some.inj this).symm⟩
    · exact .inr ((if_neg heq).symm.trans hl')
  exact
    { h with
      natives := h.natives.mono hw.toExtends
      globals := h.globals.mono hw.toExtends
      placed := fun scope' x' l' hl' => by
        rcases hold hl' with ⟨rfl, -, rfl⟩ | hl'
        · exact ⟨hlocal, hscope, by simp⟩
        · obtain ⟨hlocal', hscope', hl'⟩ := h.placed scope' x' l' hl'
          exact ⟨hlocal', hscope', by simpa using Nat.lt_succ_of_lt hl'⟩
      distinct := fun s₁ x₁ s₂ x₂ l h₁ h₂ => by
        rcases hold h₁ with ⟨rfl, rfl, rfl⟩ | h₁' <;> rcases hold h₂ with ⟨rfl, rfl, heq⟩ | h₂'
        · exact ⟨rfl, rfl⟩
        · exact absurd (h.placed s₂ x₂ _ h₂').2.2 (Nat.lt_irrefl _)
        · exact absurd (heq ▸ (h.placed s₁ x₁ _ h₁').2.2) (Nat.lt_irrefl _)
        · exact h.distinct s₁ x₁ s₂ x₂ l h₁' h₂'
      cells := fun scope' x' l' hl' => by
        rcases hold hl' with ⟨rfl, rfl, rfl⟩ | hl'
        · rw [h.unplaced scope' x' hlocal hnew]
          simpa [Lexical.Machine.cell] using .nil
        · have hl := (h.placed scope' x' l' hl').2.2
          simpa [Lexical.Machine.cell, Array.getElem?_push, Nat.ne_of_lt hl] using
            (h.cells scope' x' l' hl').mono hw.toExtends
      unplaced := fun scope' x' hscope' hl' => by
        refine h.unplaced scope' x' hscope' ?_
        by_cases heq : scope' = scope ∧ x' = x
        · exact heq.1 ▸ heq.2 ▸ hnew
        · exact (if_neg heq).symm.trans hl'
      fields := fun i => (h.fields i).mono hw.toExtends }

/-- A scope is opened, with values for variables at new locations. -/
theorem opened (h : Simulation R printed w m n) (names : Bindings Value)
    (cells : Array Lexical.Value) (places : String → Option Lexical.Location)
    (hsize : n.cells.size ≤ cells.size) (hcells : ∀ l < n.cells.size, cells[l]? = n.cells[l]?)
    (hplaces : ∀ x l, places x = some l → n.cells.size ≤ l ∧ l < cells.size ∧
      ∃ v, names.get? x = some v ∧ w.Relates R v (cells[l]?.getD .nil))
    (hnames : ∀ x, places x = none → names.get? x = none)
    (hdistinct : ∀ x x' l, places x = some l → places x' = some l → x = x') :
    Simulation R printed (w.opened places) { m with store := (m.store.addScope names).2 }
      { n with cells } := by
  have hw := w.grows_opened 0 (Nat.zero_le _) places (fun _ _ _ hl => (h.placed _ _ _ hl).2.1)
  have hscope (scope : ScopeId) : (m.store.addScope names).2.scope scope =
      if scope = w.size then names else m.store.scope scope := by
    rw [m.store.scope_addScope, h.size]
  have hlayout {scope : ScopeId} {x : String} {l : Lexical.Location}
      (hl : (w.opened places).layout scope x = some l) :
      (scope = w.size ∧ places x = some l) ∨ (scope ≠ w.size ∧ w.layout scope x = some l) := by
    by_cases heq : scope = w.size
    · exact .inl ⟨heq, (congrFun (if_pos heq) x).symm.trans hl⟩
    · exact .inr ⟨heq, (congrFun (if_neg heq) x).symm.trans hl⟩
  have hold {scope : ScopeId} (hlt : scope < 2) :
      (m.store.addScope names).2.scope scope = m.store.scope scope := by
    rw [hscope, if_neg (Nat.ne_of_lt (Nat.lt_of_lt_of_le hlt h.local_size))]
  exact
    { h with
      size := by simp [Store.addScope, World.opened, h.size]
      local_size := Nat.le_succ_of_le h.local_size
      natives := (hold Nat.zero_lt_two).symm ▸ h.natives.mono hw.toExtends
      globals := (hold Nat.one_lt_two).symm ▸ h.globals.mono hw.toExtends
      placed := fun scope x l hl => by
        rcases hlayout hl with ⟨rfl, hl'⟩ | ⟨-, hl'⟩
        · exact ⟨h.local_size, Nat.lt_succ_self _, (hplaces x l hl').2.1⟩
        · obtain ⟨hlocal, hlt, hl⟩ := h.placed scope x l hl'
          exact ⟨hlocal, Nat.lt_succ_of_lt hlt, Nat.lt_of_lt_of_le hl hsize⟩
      distinct := fun s₁ x₁ s₂ x₂ l h₁ h₂ => by
        rcases hlayout h₁ with ⟨rfl, h₁'⟩ | ⟨-, h₁'⟩ <;>
          rcases hlayout h₂ with ⟨rfl, h₂'⟩ | ⟨-, h₂'⟩
        · exact ⟨rfl, hdistinct x₁ x₂ l h₁' h₂'⟩
        · exact absurd (h.placed s₂ x₂ l h₂').2.2 (Nat.not_lt.mpr (hplaces x₁ l h₁').1)
        · exact absurd (h.placed s₁ x₁ l h₁').2.2 (Nat.not_lt.mpr (hplaces x₂ l h₂').1)
        · exact h.distinct s₁ x₁ s₂ x₂ l h₁' h₂'
      cells := fun scope x l hl => by
        rw [hscope]
        rcases hlayout hl with ⟨rfl, hl'⟩ | ⟨hne, hl'⟩
        · obtain ⟨-, -, v, hv, hrelated⟩ := hplaces x l hl'
          rw [if_pos rfl, hv]
          exact hrelated.mono hw.toExtends
        · rw [if_neg hne, Lexical.Machine.cell, hcells l (h.placed scope x l hl').2.2]
          exact (h.cells scope x l hl').mono hw.toExtends
      unplaced := fun scope x hlocal hl => by
        rw [hscope]
        split
        · exact hnames x ((congrFun (if_pos ‹_›) x).symm.trans hl)
        · exact h.unplaced scope x hlocal ((congrFun (if_neg ‹_›) x).symm.trans hl)
      ready := fun scope x hx => by
        rw [Bindings.binds, hscope]
        rcases hx with hx | ⟨rfl, hx⟩
        · have hbound := h.ready scope x hx
          split
          · rename_i heq
            rw [heq, Store.scope, ← h.size, Array.getElem?_size] at hbound
            cases hbound
          · exact hbound
        · obtain ⟨l, hl⟩ := Option.isSome_iff_exists.mp hx
          obtain ⟨-, -, v, hv, -⟩ := hplaces x l hl
          rw [if_pos rfl, hv]
          rfl
      fields := fun i => (h.fields i).mono hw.toExtends }

end Simulation

end Lox
