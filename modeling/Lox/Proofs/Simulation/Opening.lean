import Lox.Proofs.Simulation.Scopes

/-!
# Opening scopes

A call gives its parameters values, a bound method gives `this` one, and a block starts without any. On
one side these are the names of a new scope, on the other they are at new locations. `Opens` is built up
name by name, as the reference interpreter takes the locations; both sides may repeat a name, and the
last value counts.
-/

set_option autoImplicit false

namespace Lox

variable {R : Relabeling} {w : World}

/-- Names have got values at new locations, behind the locations in `old`. -/
structure Opens (R : Relabeling) (w : World) (old : Array Lexical.Value) (names : Bindings Value)
    (head : Bindings Bool) (visible visible' : Lexical.Scope) (cells : Array Lexical.Value) :
    Prop where
  size : old.size ≤ cells.size
  kept : ∀ l < old.size, cells[l]? = old[l]?
  head : ∀ x, head.get? x = (names.get? x).map fun _ => true
  bound : ∀ x v, names.get? x = some v → ∃ l, visible'.get? x = some l ∧ old.size ≤ l ∧
    l < cells.size ∧ w.Relates R v (cells[l]?.getD .nil)
  free : ∀ x, names.get? x = none → visible'.get? x = visible.get? x
  distinct : ∀ x x' l, names.binds x = true → names.binds x' = true → visible'.get? x = some l →
    visible'.get? x' = some l → x = x'

variable {old cells : Array Lexical.Value} {names : Bindings Value} {head : Bindings Bool}
  {visible visible' : Lexical.Scope}

/-- No names need no locations. -/
theorem Opens.nil (old : Array Lexical.Value) (visible : Lexical.Scope) :
    Opens R w old [] [] visible visible old where
  size := Nat.le_refl _
  kept _ _ := rfl
  head _ := rfl
  bound _ _ h := by cases h
  free _ _ := rfl
  distinct _ _ _ h := by cases h

/-- One more name gets a location. -/
theorem Opens.put (h : Opens R w old names head visible visible' cells) (x : String) {v : Value}
    {v' : Lexical.Value} (hv : w.Relates R v v') :
    Opens R w old (names.put x v) (head.put x true) visible (visible'.put x cells.size)
      (cells.push v') where
  size := by simpa using Nat.le_succ_of_le h.size
  kept l hl := by
    rw [Array.getElem?_push, if_neg (Nat.ne_of_lt (Nat.lt_of_lt_of_le hl h.size))]
    exact h.kept l hl
  head y := by
    rw [Bindings.get?_put, Bindings.get?_put]
    split
    · rfl
    · exact h.head y
  bound y u hy := by
    rw [Bindings.get?_put] at hy ⊢
    split at hy
    · cases hy
      exact ⟨cells.size, if_pos ‹_›, h.size, by simp, by simpa using hv⟩
    · obtain ⟨l, hl, hle, hlt, hu⟩ := h.bound y u hy
      refine ⟨l, (if_neg ‹_›).trans hl, hle, by simpa using Nat.lt_succ_of_lt hlt, ?_⟩
      rwa [Array.getElem?_push, if_neg (Nat.ne_of_lt hlt)]
  free y hy := by
    rw [Bindings.get?_put] at hy ⊢
    split at hy
    · cases hy
    · exact (if_neg ‹_›).trans (h.free y hy)
  distinct y z l hy hz hl hl' := by
    have hnew {y : String} (hne : x ≠ y) (hy : (names.put x v).binds y = true)
        (hl : (visible'.put x cells.size).get? y = some l) :
        names.binds y = true ∧ visible'.get? y = some l ∧ l < cells.size := by
      rw [Bindings.binds, Bindings.get?_put, if_neg hne] at hy
      rw [Bindings.get?_put, if_neg hne] at hl
      obtain ⟨u, hu⟩ := Option.isSome_iff_exists.mp hy
      obtain ⟨l', hl', -, hlt, -⟩ := h.bound y u hu
      rw [hl] at hl'
      cases hl'
      exact ⟨hy, hl, hlt⟩
    by_cases hxy : x = y <;> by_cases hxz : x = z
    · exact hxy.symm.trans hxz
    · obtain ⟨-, -, hlt⟩ := hnew hxz hz hl'
      rw [Bindings.get?_put, if_pos hxy, Option.some.injEq] at hl
      exact absurd hl (Nat.ne_of_gt hlt)
    · obtain ⟨-, -, hlt⟩ := hnew hxy hy hl
      rw [Bindings.get?_put, if_pos hxz, Option.some.injEq] at hl'
      exact absurd hl' (Nat.ne_of_gt hlt)
    · exact h.distinct y z l (hnew hxy hy hl).1 (hnew hxz hz hl').1 (hnew hxy hy hl).2.1
        (hnew hxz hz hl').2.1

/-- Where the variables of an opened scope are. -/
def places (names : Bindings Value) (visible : Lexical.Scope) (x : String) :
    Option Lexical.Location :=
  if names.binds x then visible.get? x else none

variable {printed : ByteArray} {m : Interpreter} {n : Lexical.Machine} {scopes : LocalScopes}
  {env : Environment}

/-- Opening a scope on one side and getting locations on the other leads to related states. -/
theorem Opens.simulation (h : Opens R w n.cells names head visible visible' cells)
    (hsim : Simulation R printed w m n) :
    Simulation R printed (w.opened (places names visible'))
      { m with store := (m.store.addScope names).2 } { n with cells } := by
  refine hsim.opened names cells _ h.size h.kept (fun x l hl => ?_) (fun x hx => ?_)
    (fun x x' l hl hl' => ?_)
  · unfold places at hl
    split at hl
    · obtain ⟨v, hv⟩ := Option.isSome_iff_exists.mp ‹names.binds x = true›
      obtain ⟨l', hl', hle, hlt, hrelated⟩ := h.bound x v hv
      rw [hl] at hl'
      cases hl'
      exact ⟨hle, hlt, v, hv, hrelated⟩
    · cases hl
  · cases hv : names.get? x with
    | none => rfl
    | some v =>
      obtain ⟨l, hl, -⟩ := h.bound x v hv
      rw [places, Bindings.binds, hv, Option.isSome_some, if_pos rfl, hl] at hx
      cases hx
  · unfold places at hl hl'
    split at hl
    · split at hl'
      · exact h.distinct x x' l ‹_› ‹_› hl hl'
      · cases hl'
    · cases hl

/-- A scope that is opened is none of those that were there. -/
theorem Opens.grows (_ : Opens R w n.cells names head visible visible' cells)
    (hsim : Simulation R printed w m n) {frozen : ScopeId} (hfrozen : frozen ≤ w.size) :
    w.Grows frozen (w.opened (places names visible')) :=
  w.grows_opened frozen hfrozen _ (fun _ _ _ hl => (hsim.placed _ _ _ hl).2.1)

/-- The new scope is one more link, for one more scope of resolution. -/
theorem Opens.scoped (h : Opens R w n.cells names head visible visible' cells)
    (hsim : Simulation R printed w m n) (hscoped : w.Scoped scopes env visible) :
    (w.opened (places names visible')).Scoped (head :: scopes) (.child w.size env) visible' := by
  have hw := h.grows hsim (Nat.zero_le _)
  refine ⟨hsim.local_size, Nat.lt_succ_self _, visible, hscoped.mono hw.toExtends, fun x => ?_⟩
  rw [h.head x]
  cases hv : names.get? x with
  | none => exact h.free x hv
  | some v =>
    obtain ⟨l, hl, -⟩ := h.bound x v hv
    have hplaces : places names visible' x = some l := by
      rw [places, Bindings.binds, hv, Option.isSome_some, if_pos rfl, hl]
    exact ⟨fun _ => .inr ⟨rfl, by rw [hplaces]; rfl⟩, l, hl,
      (congrFun (if_pos rfl) x).trans hplaces⟩

/-- The names of a scope that has just been opened are those that have a location in it. -/
theorem Opens.owns (h : Opens R w n.cells names head visible visible' cells) (x : String) :
    (head.get? x).isSome = ((w.opened (places names visible')).layout w.size x).isSome := by
  have hlayout : (w.opened (places names visible')).layout w.size x = places names visible' x :=
    congrFun (if_pos rfl) x
  rw [hlayout, h.head x, places, Bindings.binds]
  cases hv : names.get? x with
  | none => rfl
  | some v =>
    obtain ⟨l, hl, -⟩ := h.bound x v hv
    rw [hl]
    rfl

end Lox
