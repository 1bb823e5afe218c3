import Mathlib.Data.List.Forall2
import Lox.Proofs.Simulation.Objects
import Lox.Proofs.Simulation.Variables

/-!
# Blocks and calls

Statements run in a scope of their own, which their declarations fill one after the other, while the
reference interpreter makes a larger map for each of them. What carries the induction is that the names
that resolution has seen in the innermost scope are exactly the variables that have got a location
there: resolution lets no scope declare a name twice, so the next declaration finds its name free.
-/

set_option autoImplicit false

namespace Lox

variable {R : Relabeling} {printed : ByteArray} {frozen : ScopeId} {w : World} {env : Environment}
  {scopes outer : LocalScopes} {names : Bindings Bool} {scope : ScopeId} {enclosing : Environment}
  {visible : Lexical.Scope}

/-- Two ways to run a statement agree on all statements that were resolved where they run. -/
def Executes (R : Relabeling) (printed : ByteArray) (execute : Stmt → Eval Flow)
    (execute' : Lexical.Scope → Stmt → Lexical.Eval Lexical.Flow) : Prop :=
  ∀ (s : Stmt) {frozen : ScopeId} {w : World} {env : Environment} {scopes : LocalScopes}
    {visible : Lexical.Scope}, frozen ≤ w.size → w.Scoped (scopes.entering s) env visible →
    s.Resolved w.plan scopes →
    Simulates R printed frozen w env (execute s) (execute' visible (s.relabel R))
      (fun w' f f' => w'.RelatesFlow R f f' ∧ w'.Scoped (scopes.after s) env visible)

/-- A scope of resolution owns a scope at run time if all variables of the one are names of the other. -/
def World.Owns (w : World) (names : Bindings Bool) (scope : ScopeId) : Prop :=
  ∀ x, (names.get? x).isSome = (w.layout scope x).isSome

/-- A name that is declared is at its new location. -/
theorem World.Scoped.declare (h : w.Scoped (names :: outer) (.child scope enclosing) visible)
    {x : String} (hfree : names.get? x = none) (hnew : w.layout scope x = none)
    (l : Lexical.Location) :
    (w.placing scope x l).Scoped (LocalScopes.declare x (names :: outer)) (.child scope enclosing)
      (visible.put x l) := by
  have hw := w.grows_placing 0 (Nat.zero_le scope) hnew l
  obtain ⟨hlocal, hscope, visible', houter, hnames⟩ := h
  have hdeclare : LocalScopes.declare x (names :: outer) = names.put x false :: outer := by
    simp [LocalScopes.declare, Bindings.binds, hfree]
  rw [hdeclare]
  refine ⟨hlocal, hscope, visible', houter.mono hw.toExtends, fun y => ?_⟩
  simp only [Bindings.get?_put]
  by_cases heq : x = y
  · rw [if_pos heq, if_pos heq]
    exact ⟨(fun hstatus => by cases hstatus), l, rfl, if_pos ⟨rfl, heq.symm⟩⟩
  · rw [if_neg heq, if_neg heq]
    have hname := hnames y
    cases hget : names.get? y with
    | some status =>
      rw [hget] at hname
      obtain ⟨hready, l', hvisible, hlayout⟩ := hname
      exact ⟨hready, l', hvisible, hw.layout scope y l' hlayout⟩
    | none =>
      rw [hget] at hname
      exact hname

/-- The reference interpreter enters a local statement: a declaration gets its location. -/
theorem declare_simulates (hfrozen : frozen ≤ scope)
    (hscoped : w.Scoped (names :: outer) (.child scope enclosing) visible)
    (howns : w.Owns names scope) {s : Stmt} (hresolved : s.Resolved w.plan (names :: outer)) :
    Simulates R printed frozen w env (pure ()) (Lexical.declare visible (s.relabel R))
      (fun w' _ visible' =>
        w'.Scoped (LocalScopes.entering s (names :: outer)) (.child scope enclosing) visible' ∧
          w'.Owns (names.behind s) scope) := by
  intro m n hsim hcurrent
  unfold Lexical.declare LocalScopes.entering Bindings.behind
  rw [Stmt.relabel_declared?]
  cases hname : s.declared? with
  | none => exact ⟨hcurrent, w, .refl frozen w, hsim, hscoped, howns⟩
  | some name =>
    have hfree : names.get? name.lexeme = none := hresolved.lacks hname
    have hnew : w.layout scope name.lexeme = none := by
      simpa [hfree] using (howns name.lexeme).symm
    refine ⟨hcurrent, w.placing scope name.lexeme n.cells.size, w.grows_placing frozen hfrozen hnew _,
      hsim.place hscoped.1 hscoped.2.1 hnew, hscoped.declare hfree hnew _, fun x => ?_⟩
    rw [Bindings.get?_put, World.placing]
    by_cases heq : name.lexeme = x
    · simp [heq]
    · simpa [heq, Ne.symm heq] using howns x

/-- Local statements run alike. -/
theorem executeAll_simulates {execute : Stmt → Eval Flow}
    {execute' : Lexical.Scope → Stmt → Lexical.Eval Lexical.Flow}
    (hexecute : Executes R printed execute execute') (ss : List Stmt) (hfrozen : frozen ≤ scope)
    (hscoped : w.Scoped (names :: outer) (.child scope enclosing) visible)
    (howns : w.Owns names scope) (hresolved : Stmt.AllResolved w.plan ss (names :: outer)) :
    Simulates R printed frozen w (.child scope enclosing) (executeAll execute ss)
      (Lexical.executeAll execute' visible (Stmt.relabelAll R ss)) (fun w' => w'.RelatesFlow R) := by
  induction ss generalizing w names visible with
  | nil => exact .pure .normal
  | cons s rest ih =>
    refine (declare_simulates hfrozen hscoped howns hresolved.1).after ?_
    rintro w₁ visible₁ hw₁ ⟨hentered, howns₁⟩
    have hscope : scope < w₁.size := Nat.lt_of_lt_of_le hscoped.2.1 hw₁.size
    have hfirst := hexecute s (Nat.le_refl _) hentered (hresolved.1.mono hw₁.plan)
    -- the scope is frozen while `s` runs, so that its names are still known behind `s`
    refine (hfirst.weaken (Nat.le_trans hfrozen (Nat.le_of_lt hscope))
      (fun w' _ _ hw hpost => And.intro hw hpost)).bind ?_
    rintro w₂ flow flow' - ⟨hw₂, hflow, hafter⟩
    cases hflow with
    | returned hv => exact .pure (.returned hv)
    | normal =>
      rw [LocalScopes.after_cons] at hafter
      refine ih hafter (fun x => ?_) ?_
      · rw [hw₂.frozen scope hscope]
        exact howns₁ x
      · rw [← LocalScopes.after_cons]
        exact hresolved.2.mono (fun _ hsite => hw₂.plan (hw₁.plan hsite))

/-- A step runs alike in a new scope. -/
theorem enclosed_simulates {α β : Type} {captured : Environment} {values : Bindings Value}
    (allocate : Lexical.Eval Lexical.Scope) {step : Eval α} {step' : Lexical.Scope → Lexical.Eval β}
    {post : World → α → β → Prop} (hfrozen : frozen ≤ w.size)
    (hscoped : w.Scoped scopes captured visible)
    (hopens : ∀ n : Lexical.Machine, ∃ visible' cells, allocate n = .ok visible' { n with cells } ∧
      Opens R w n.cells values names visible visible' cells)
    (hstep : ∀ w' visible', w.Grows frozen w' →
      w'.Scoped (names :: scopes) (.child w.size captured) visible' → w'.Owns names w.size →
      Simulates R printed w.size w' (.child w.size captured) step (step' visible') post) :
    Simulates R printed frozen w env
      (do let inner ← Eval.enclose captured values; Eval.within inner step)
      (allocate >>= step') post := by
  intro m n hsim hcurrent
  obtain ⟨visible', cells, hallocate, hopened⟩ := hopens n
  have hw := hopened.grows hsim hfrozen
  have hinner := hstep _ _ hw (hopened.scoped hsim hscoped) hopened.owns
    { m with store := (m.store.addScope values).2, current := .child w.size captured }
    { n with cells } ((hopened.simulation hsim).within _) rfl
  have hstart : (Eval.enclose captured values >>= fun inner => Eval.within inner step) m =
      Eval.within (.child w.size captured) step
        { m with store := (m.store.addScope values).2 } := by
    rw [← hsim.size]
    rfl
  have hstart' : (allocate >>= step') n = step' visible' { n with cells } := by
    simp only [bind, EStateM.bind, hallocate]
  rw [hstart, hstart']
  unfold Eval.within
  generalize step { m with store := (m.store.addScope values).2, current := .child w.size captured } =
    result, step' visible' { n with cells } = result' at hinner ⊢
  have hback := hinner.grow hfrozen hw (fun _ _ _ _ h => h)
  cases result with
  | ok a m' =>
    cases result' with
    | ok b n' =>
      obtain ⟨-, w', hgrown, hsim', hpost⟩ := hback
      exact ⟨hcurrent, w', hgrown, hsim'.within _, hpost⟩
    | error e' n' => exact hback
  | error e m' =>
    cases result' with
    | ok b n' => exact hback
    | error e' n' =>
      obtain ⟨-, he, w', hgrown, hsim'⟩ := hback
      exact ⟨hcurrent, he, w', hgrown, hsim'.within _⟩

/-- Parameters get their arguments. -/
theorem bindAll_opens (params : List Token) {arguments : List Value}
    {arguments' : List Lexical.Value} (harguments : List.Forall₂ (w.Relates R) arguments arguments')
    (hlength : arguments.length = params.length) {old : Array Lexical.Value} {values : Bindings Value}
    {visible' : Lexical.Scope} (n : Lexical.Machine)
    (hopens : Opens R w old values names visible visible' n.cells) :
    ∃ visible'' cells,
      Lexical.bindAll visible' ((params.map (·.relabel R)).zip arguments') n =
        .ok visible'' { n with cells } ∧
      Opens R w old ((params.zip arguments).foldl (fun names p => names.put p.1.lexeme p.2) values)
        (params.foldl (fun scope p => scope.put p.lexeme true) names) visible visible'' cells := by
  induction params generalizing arguments arguments' values names visible' n with
  | nil =>
    cases harguments with
    | nil => exact ⟨visible', n.cells, rfl, hopens⟩
    | cons _ _ => cases hlength
  | cons p rest ih =>
    cases harguments with
    | nil => cases hlength
    | cons hv hvs =>
      exact ih hvs (Nat.succ.inj hlength) { n with cells := n.cells.push _ }
        (hopens.put p.lexeme hv)

/-- Functions run alike. -/
theorem invoke_simulates {execute : Stmt → Eval Flow}
    {execute' : Lexical.Scope → Stmt → Lexical.Eval Lexical.Flow}
    (hexecute : Executes R printed execute execute') (hfrozen : frozen ≤ w.size) {c : Closure}
    {c' : Lexical.Closure} (hc : w.RelatesFunction R c c') {arguments : List Value}
    {arguments' : List Lexical.Value} (harguments : List.Forall₂ (w.Relates R) arguments arguments')
    (hlength : arguments.length = c.arity) :
    Simulates R printed frozen w env (invoke execute c arguments)
      (Lexical.invoke execute' c' arguments') (fun w' => w'.Relates R) := by
  obtain ⟨identity, ⟨name, params, body⟩, captured, isInitializer⟩ := c
  obtain ⟨identity', declaration', visible, isInitializer'⟩ := c'
  obtain ⟨-, hdeclaration, hinitializer, scopes, hscoped, hresolved, hthis⟩ := hc
  dsimp only at hdeclaration hinitializer hscoped hresolved hthis
  subst hdeclaration hinitializer
  have hbody : Simulates R printed frozen w env
      (do
        let inner ← Eval.enclose captured (parameterBindings params arguments)
        Eval.within inner (executeAll execute body))
      (do
        let visible' ← Lexical.bindAll visible ((params.map (·.relabel R)).zip arguments')
        Lexical.executeAll execute' visible' (Stmt.relabelAll R body))
      (fun w' => w'.RelatesFlow R) := by
    refine enclosed_simulates _ hfrozen hscoped
      (fun n => bindAll_opens params harguments hlength n (Opens.nil n.cells visible))
      (fun w' visible' hw hinner howns => ?_)
    exact executeAll_simulates hexecute body (Nat.le_refl _) hinner howns
        (hresolved.mono hw.plan)
  simp only [invoke, Lexical.invoke, FunctionDecl.relabel, ← bind_assoc]
  refine hbody.bind (fun w' flow flow' hw hflow => ?_)
  cases isInitializer' with
  | false =>
    cases hflow with
    | normal => exact .pure .nil
    | returned hv => exact .pure hv
  | true =>
    -- an initializer is bound, so that its instance is in the scope around its body
    obtain ⟨names, outer, rfl, hget⟩ := hthis rfl
    have hdistance : Resolution.distance? thisName (names :: outer) = some 0 := by
      simp [LocalScopes.distance?_cons, Bindings.binds, hget]
    obtain ⟨scope, l, hscope, hvisible, hlayout, -⟩ := (hscoped.mono hw.toExtends).local_name hdistance
    intro m n hsim hcurrent
    have hcell := hsim.cells scope thisName l hlayout
    rw [← hscope] at hcell
    simp only [hvisible, if_true]
    exact ⟨hcurrent, w', .refl frozen w', hsim, hcell⟩

end Lox
