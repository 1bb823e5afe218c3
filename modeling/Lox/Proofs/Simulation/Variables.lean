import Lox.Proofs.Simulation.Steps

/-!
# Variables

Reading, assigning and declaring variables, by distance on one side and by location on the other. The
distance of a use leads to the scope of the variable that the use sees, because the environment has one
link for every scope that was open at the use when it was resolved.
-/

set_option autoImplicit false

namespace Lox

section Uses

variable {R : Relabeling} {printed : ByteArray} {frozen : ScopeId} {w : World} {env : Environment}
  {scopes : LocalScopes} {visible : Lexical.Scope} {m : Interpreter} {n : Lexical.Machine}

/-- Global names have related values. -/
theorem Simulation.global (h : Simulation R printed w m n) (x : String) :
    Option.Rel (w.Relates R) (m.topLevel.get? m.store x) (n.global? x) := by
  rw [h.topLevel, Environment.outermost, Environment.get?, Environment.get?, Lexical.Machine.global?]
  have hglobal := h.globals x
  generalize (m.store.scope 1).get? x = v?, n.globals.get? x = v'? at hglobal ⊢
  cases hglobal with
  | some hv => exact .some hv
  | none => exact h.natives x

/-- The same tables bind the same names. -/
theorem World.RelatesTable.binds {b : Bindings Value} {b' : Bindings Lexical.Value}
    (h : w.RelatesTable R b b') (x : String) : b'.binds x = b.binds x := by
  have hx := h x
  unfold Bindings.binds
  generalize b.get? x = v?, b'.get? x = v'? at hx ⊢
  cases hx <;> rfl

/-- A use of a name yields related values. -/
theorem lookUp_simulates (hscoped : w.Scoped scopes env visible) (id : Occurrence) (name : Token)
    {initializing : Option String} {assigns : Bool}
    (hsite : ⟨id, name.lexeme, scopes, initializing, assigns⟩ ∈ w.plan) :
    Simulates R printed frozen w env (Eval.lookUp id name)
      (Lexical.lookUp visible (name.relabel R)) (fun w' => w'.Relates R) := by
  intro m n hsim hcurrent
  have hrecorded : m.distances.get? id = Resolution.distance? name.lexeme scopes :=
    hsim.distances _ hsite
  unfold Lexical.lookUp
  rw [Token.relabel_lexeme]
  cases hdistance : Resolution.distance? name.lexeme scopes with
  | some distance =>
    obtain ⟨scope, l, hscope, hvisible, hlayout, -⟩ := hscoped.local_name hdistance
    rw [Eval.lookUp_local (hrecorded.trans hdistance), hvisible]
    have hcell := hsim.cells scope name.lexeme l hlayout
    rw [← hscope, ← hcurrent] at hcell
    exact ⟨hcurrent, w, .refl frozen w, hsim, hcell⟩
  | none =>
    rw [Eval.lookUp_global (hrecorded.trans hdistance), hscoped.global_name hdistance]
    have hglobal := hsim.global name.lexeme
    generalize m.topLevel.get? m.store name.lexeme = v?, n.global? name.lexeme = v'? at hglobal ⊢
    cases hglobal with
    | some hv => exact ⟨hcurrent, w, .refl frozen w, hsim, hv⟩
    | none => exact Simulates.fail name _ m n hsim hcurrent

/-- An assignment to a name leads to related states. -/
theorem assign_simulates (hscoped : w.Scoped scopes env visible) (id : Occurrence) (name : Token)
    {initializing : Option String} {assigns : Bool}
    (hsite : ⟨id, name.lexeme, scopes, initializing, assigns⟩ ∈ w.plan) {v : Value}
    {v' : Lexical.Value} (hv : w.Relates R v v') :
    Simulates R printed frozen w env (Eval.assign id name v)
      (Lexical.assign visible (name.relabel R) v') (fun _ _ _ => True) := by
  intro m n hsim hcurrent
  have hrecorded : m.distances.get? id = Resolution.distance? name.lexeme scopes :=
    hsim.distances _ hsite
  unfold Lexical.assign
  rw [Token.relabel_lexeme]
  cases hdistance : Resolution.distance? name.lexeme scopes with
  | some distance =>
    obtain ⟨scope, l, hscope, hvisible, hlayout, -⟩ := hscoped.local_name hdistance
    rw [Eval.assign_local (hrecorded.trans hdistance), hvisible]
    rw [← hscope, ← hcurrent] at hlayout
    exact ⟨hcurrent, w, .refl frozen w, hsim.setLocal hlayout hv, trivial⟩
  | none =>
    have hholder : m.topLevel.holder? m.store name.lexeme =
        if (m.store.scope 1).binds name.lexeme then some 1
        else if (m.store.scope 0).binds name.lexeme then some 0 else none := by
      rw [hsim.topLevel]
      rfl
    rw [Eval.assign_global (hrecorded.trans hdistance), hscoped.global_name hdistance, hholder]
    unfold Lexical.Machine.setGlobal?
    rw [hsim.globals.binds, hsim.natives.binds]
    cases (m.store.scope 1).binds name.lexeme with
    | true =>
      have hw := w.grows_defined frozen 1 name.lexeme
      exact ⟨hcurrent, _, hw, hsim.setGlobal _ (hv.mono hw.toExtends), trivial⟩
    | false =>
      cases (m.store.scope 0).binds name.lexeme with
      | true => exact ⟨hcurrent, w, .refl frozen w, hsim.setNative _ hv, trivial⟩
      | false => exact Simulates.fail name _ m n hsim hcurrent

end Uses

section Declarations

variable {R : Relabeling} {printed : ByteArray} {frozen : ScopeId} {w : World} {env : Environment}
  {scopes : LocalScopes} {visible : Lexical.Scope}

/-- A declared name is global, or has a location in the innermost scope. -/
theorem World.Scoped.declared {x : String} (h : w.Scoped (scopes.declare x) env visible) :
    (env = .outermost ∧ visible.get? x = none) ∨
      ∃ l, visible.get? x = some l ∧ w.layout env.scope x = some l := by
  cases scopes with
  | nil => exact .inl ⟨h.1, h.2 x⟩
  | cons names outer =>
    cases env with
    | root scope => exact h.elim
    | child scope enclosing =>
      obtain ⟨-, -, visible', -, hnames⟩ := h
      have hname := hnames x
      cases hget : names.get? x with
      | some status =>
        simp only [Bindings.binds, hget, Option.isSome_some, if_true] at hname
        obtain ⟨-, l, hvisible, hlayout⟩ := hname
        exact .inr ⟨l, hvisible, hlayout⟩
      | none =>
        simp only [Bindings.binds, hget, Option.isSome_none, Bool.false_eq_true, if_false,
          Bindings.get?_put, if_true] at hname
        obtain ⟨-, l, hvisible, hlayout⟩ := hname
        exact .inr ⟨l, hvisible, hlayout⟩

/-- A name is complete once it has been defined. -/
theorem World.Scoped.defined {x : String} (h : w.Scoped (scopes.declare x) env visible) :
    (w.defined env.scope x).Scoped (scopes.complete x) env visible := by
  have hdeclared := h.declared
  have hw := w.grows_defined 0 env.scope x
  cases scopes with
  | nil => exact h
  | cons names outer =>
    cases env with
    | root scope => exact h.elim
    | child scope enclosing =>
      obtain ⟨hlocal, hscope, visible', houter, hnames⟩ := h
      refine ⟨hlocal, hscope, visible', houter.mono hw.toExtends, fun y => ?_⟩
      rw [Bindings.get?_put]
      by_cases heq : x = y
      · subst heq
        rw [if_pos rfl]
        rcases hdeclared with ⟨htop, -⟩ | hplace
        · cases htop
          exact absurd hlocal (by decide)
        · exact ⟨fun _ => .inr ⟨rfl, rfl⟩, hplace⟩
      · rw [if_neg heq]
        have hname := hnames y
        have hsame : Bindings.get? y (if names.binds x then names else names.put x false) =
            names.get? y := by
          split
          · rfl
          · rw [Bindings.get?_put, if_neg heq]
        rw [hsame] at hname
        cases hget : names.get? y with
        | some status =>
          rw [hget] at hname
          exact ⟨fun hstatus => .inl (hname.1 hstatus), hname.2⟩
        | none =>
          rw [hget] at hname
          exact hname

/-- A declared name is defined: by its name if it is global, at its location if it is local. -/
theorem define_simulates {x : String} (hscoped : w.Scoped (scopes.declare x) env visible) {v : Value}
    {v' : Lexical.Value} (hv : (w.defined env.scope x).Relates R v v') :
    Simulates R printed frozen w env (Eval.define x v) (Lexical.define visible x v')
      (fun w' _ _ => w' = w.defined env.scope x) := by
  intro m n hsim hcurrent
  subst hcurrent
  have hdefine : Eval.define x v m =
      .ok () { m with store := m.store.define m.current.scope x v } := rfl
  rw [hdefine]
  unfold Lexical.define
  rcases hscoped.declared with ⟨htop, hvisible⟩ | ⟨l, hvisible, hlayout⟩
  · have hscope : m.current.scope = 1 := by rw [htop]; rfl
    rw [hvisible]
    rw [hscope] at hv ⊢
    exact ⟨rfl, _, w.grows_defined frozen 1 x, hsim.setGlobal x hv, rfl⟩
  · rw [hvisible]
    exact ⟨rfl, _, w.grows_defined frozen _ x, hsim.defineLocal hlayout hv, rfl⟩

end Declarations

end Lox
