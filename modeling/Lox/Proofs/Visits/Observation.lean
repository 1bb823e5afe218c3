import Lox.Proofs.Visits.Sound

/-!
# All visits are sound

The visits in the trace of evaluation are sound wherever a tree was resolved. As for the agreement with the reference
interpreter, the proof is by induction on the allotted depth; between two parts of a tree, that agreement says in
which states the second part may start.
-/

set_option autoImplicit false

namespace Lox

/-- Every visit in a trace from related states is sound for a site of the plan. -/
def Observes (R : Relabeling) (printed : ByteArray) (w : World) (env : Environment)
    (trace : Interpreter → List Moment) : Prop :=
  ∀ m n, Simulation R printed w m n → m.current = env →
    ∀ x ∈ trace m, ∀ v ∈ x.visit?, ∃ site ∈ w.plan, v.Sound site

section Logic

variable {α β : Type} {R : Relabeling} {printed : ByteArray} {frozen : ScopeId} {w : World}
  {env : Environment} {trace trace' : Interpreter → List Moment}

/-- Moments that are no visits. -/
theorem Observes.silent (h : ∀ m, ∀ x ∈ trace m, x.visit? = none) : Observes R printed w env trace := by
  intro m n _ _ x hx v hv
  rw [h m x hx] at hv
  cases hv

/-- No moments at all. -/
theorem Observes.nil : Observes R printed w env (fun _ => []) := .silent fun _ => nofun

/-- Two traces in a row observe what each observes. -/
theorem Observes.append (h : Observes R printed w env trace) (h' : Observes R printed w env trace') :
    Observes R printed w env (fun m => trace m ++ trace' m) := by
  intro m n hsim hcurrent x hx
  rcases List.mem_append.mp hx with hx | hx
  · exact h m n hsim hcurrent x hx
  · exact h' m n hsim hcurrent x hx

/-- A step from its beginning to its end, whose beginning is a visit or not. -/
theorem Observes.around {event : Event} {step : Eval α} (hbegins : Observes R printed w env fun m => [⟨event, m⟩])
    (h : Observes R printed w env trace) : Observes R printed w env (Trace.around event step trace) := by
  have hends : Observes R printed w env fun m => [⟨.ended, endState (step m)⟩] :=
    .silent fun _ => List.forall_mem_singleton.mpr rfl
  exact hbegins.append (h.append hends)

/-- The moments behind a step happen in a larger world. -/
theorem Simulates.observes {step : Eval α} {step' : Lexical.Eval β} {post : World → α → β → Prop}
    {next : α → Interpreter → List Moment} (h : Simulates R printed frozen w env step step' post)
    (hnext : ∀ w' a b, w.Grows frozen w' → post w' a b → Observes R printed w' env (next a)) :
    Observes R printed w env (fun m => Trace.behind (step m) next) := by
  intro m n hsim hcurrent x hx v hv
  have hstep := h m n hsim hcurrent
  change x ∈ Trace.behind (step m) next at hx
  generalize step m = result, step' n = result' at hstep hx
  cases result with
  | error e m' => cases hx
  | ok a m' =>
    cases result' with
    | error e' n' => exact hstep.elim
    | ok b n' =>
      obtain ⟨hcurrent', w', hw, hsim', hpost⟩ := hstep
      obtain ⟨site, hsite, hsound⟩ := hnext w' a b hw hpost m' n' hsim' hcurrent' x hx v hv
      exact ⟨site, hw.plan_eq ▸ hsite, hsound⟩

/-- A step of the reference interpreter alone visits nothing. -/
theorem Simulates.observes_after {step' : Lexical.Eval β} {before : World → Unit → β → Prop}
    (h : Simulates R printed frozen w env (Pure.pure ()) step' before)
    (hnext : ∀ w' b, w.Grows frozen w' → before w' () b → Observes R printed w' env trace) :
    Observes R printed w env trace := by
  have hbehind : Observes R printed w env
      (fun m => Trace.behind ((Pure.pure () : Eval Unit) m) fun _ => trace) :=
    h.observes fun w' _ b hw hb => hnext w' b hw hb
  exact hbehind

end Logic

section Parts

variable {R : Relabeling} {printed : ByteArray} {frozen : ScopeId} {w w' : World} {env : Environment}
  {scopes : LocalScopes} {visible : Lexical.Scope}

/-- A use of a name that was resolved is sound. -/
theorem World.Scoped.observes (hscoped : w.Scoped scopes env visible) {event : Event} {use : Use} {id : Occurrence}
    {name : String} (hevent : ∀ m, Moment.visit? ⟨event, m⟩ = some ⟨use, id, name, m⟩) {initializing : Option String}
    (hsite : ⟨id, name, scopes, initializing, use != .read⟩ ∈ w.plan) :
    Observes R printed w env (fun m => [⟨event, m⟩]) := by
  intro m n hsim hcurrent x hx v hv
  rw [List.mem_singleton.mp hx, hevent m] at hv
  cases hv
  exact ⟨_, hsite, hsim.sound_of_visit (hcurrent ▸ hscoped) hsite⟩

/-- A method that is taken is no visit. -/
theorem Observes.bindMethod (name : String) (method : Closure) (i : Instance) :
    Observes R printed w env (Trace.bindMethod name method i) :=
  .silent fun _ => List.forall_mem_singleton.mpr rfl

/-- A property access visits nothing behind its object. -/
theorem Observes.property (i : Instance) (name : String) : Observes R printed w env (Trace.property i name) := by
  refine .silent fun m x hx => ?_
  unfold Trace.property at hx
  split at hx
  · cases hx
  · split at hx
    · rw [List.mem_singleton.mp hx]
      rfl
    · cases hx

/-- The visits of expressions are sound wherever they were resolved. -/
def ObservesExprs (R : Relabeling) (printed : ByteArray) (trace : Expr → Interpreter → List Moment) :
    Prop :=
  ∀ (e : Expr) {w : World} {env : Environment} {scopes : LocalScopes} {visible : Lexical.Scope}
    {initializing : Option String}, w.Scoped scopes env visible →
    e.sites scopes initializing ⊆ w.plan → Observes R printed w env (trace e)

/-- The visits of statements are sound wherever they were resolved. -/
def ObservesStmts (R : Relabeling) (printed : ByteArray) (trace : Stmt → Interpreter → List Moment) :
    Prop :=
  ∀ (s : Stmt) {w : World} {env : Environment} {scopes : LocalScopes} {visible : Lexical.Scope},
    w.Scoped (scopes.entering s) env visible → s.Resolved w.plan scopes →
    Observes R printed w env (trace s)

/-- The visits of calls are sound, if these have the right number of arguments. -/
def ObservesCalls (R : Relabeling) (printed : ByteArray)
    (trace : Value → List Value → Interpreter → List Moment) : Prop :=
  ∀ {w : World} {env : Environment} {f : Value} {f' : Lexical.Value} {arguments : List Value}
    {arguments' : List Lexical.Value}, w.Relates R f f' →
    List.Forall₂ (w.Relates R) arguments arguments' → f.arity? = some arguments.length →
    Observes R printed w env (trace f arguments)

/-- An expression is visited later, after something else in the same place. -/
theorem ObservesExprs.later {trace : Expr → Interpreter → List Moment}
    (h : ObservesExprs R printed trace) (hscoped : w.Scoped scopes env visible) {e : Expr}
    {initializing : Option String} (hsites : e.sites scopes initializing ⊆ w.plan)
    (hw : w.Grows frozen w') : Observes R printed w' env (trace e) :=
  h e (hscoped.mono hw.toExtends) (List.Subset.trans hsites hw.plan)

/-- A statement that declares nothing is visited later, after something else in the same place. -/
theorem ObservesStmts.later {trace : Stmt → Interpreter → List Moment}
    (h : ObservesStmts R printed trace) (hscoped : w.Scoped scopes env visible) {s : Stmt}
    (hdeclared : s.declared? = none) (hresolved : s.Resolved w.plan scopes)
    (hw : w.Grows frozen w') : Observes R printed w' env (trace s) := by
  have hentering : scopes.entering s = scopes := by rw [LocalScopes.entering, hdeclared]
  exact h s (hentering.symm ▸ hscoped.mono hw.toExtends) (hresolved.mono hw.plan)

/-- The visits of expressions are those of each, one after the other. -/
theorem evaluateAll_observes {trace : Expr → Interpreter → List Moment}
    {evaluate : Expr → Eval Value} {evaluate' : Lexical.Scope → Expr → Lexical.Eval Lexical.Value}
    (htrace : ObservesExprs R printed trace) (h : Evaluates R printed evaluate evaluate')
    (es : List Expr) {initializing : Option String} (hscoped : w.Scoped scopes env visible)
    (hsites : Expr.sitesAll scopes initializing es ⊆ w.plan) :
    Observes R printed w env (Trace.evaluateAll trace evaluate es) := by
  induction es generalizing w with
  | nil => exact .nil
  | cons e rest ih =>
    obtain ⟨hfirst, hrest⟩ := List.append_subset.mp hsites
    refine (htrace e hscoped hfirst).append ((h e (Nat.zero_le _) hscoped hfirst).observes ?_)
    exact fun w₁ _ _ hw₁ _ => ih (hscoped.mono hw₁.toExtends) (List.Subset.trans hrest hw₁.plan)

/-- The visits of local statements are observed while their declarations fill the scope one after the other. -/
theorem executeAll_observes {trace : Stmt → Interpreter → List Moment}
    {execute : Stmt → Eval Flow} {execute' : Lexical.Scope → Stmt → Lexical.Eval Lexical.Flow}
    (htrace : ObservesStmts R printed trace) (hexecute : Executes R printed execute execute')
    (ss : List Stmt) {names : Bindings Bool} {outer : LocalScopes} {scope : ScopeId}
    {enclosing : Environment} (hscoped : w.Scoped (names :: outer) (.child scope enclosing) visible)
    (howns : w.Owns names scope) (hresolved : Stmt.AllResolved w.plan ss (names :: outer)) :
    Observes R printed w (.child scope enclosing) (Trace.executeAll trace execute ss) := by
  induction ss generalizing w names visible with
  | nil => exact .nil
  | cons s rest ih =>
    refine (declare_simulates (Nat.le_refl scope) hscoped howns hresolved.1).observes_after ?_
    rintro w₁ visible₁ hw₁ ⟨hentered, howns₁⟩
    have hscope : scope < w₁.size := Nat.lt_of_lt_of_le hscoped.2.1 hw₁.size
    have hfirst := hresolved.1.mono hw₁.plan
    refine (htrace s hentered hfirst).append ((hexecute s (Nat.le_refl _) hentered hfirst).observes ?_)
    rintro w₂ flow flow' hw₂ ⟨hflow, hafter⟩
    cases hflow with
    | returned _ => exact .nil
    | normal =>
      rw [LocalScopes.after_cons] at hafter
      refine ih hafter (fun x => ?_) ?_
      · rw [hw₂.frozen scope hscope]
        exact howns₁ x
      · rw [← LocalScopes.after_cons]
        exact hresolved.2.mono (fun _ hsite => hw₂.plan (hw₁.plan hsite))

/-- The visits in a new scope are observed if those of the statements in it are. -/
theorem enclosed_observes {captured : Environment} {values : Bindings Value} {names : Bindings Bool}
    {trace : Interpreter → List Moment} (hscoped : w.Scoped scopes captured visible)
    (hopens : ∀ n : Lexical.Machine, ∃ visible' cells,
      Opens R w n.cells values names visible visible' cells)
    (htrace : ∀ w' visible', w.Grows 0 w' →
      w'.Scoped (names :: scopes) (.child w.size captured) visible' → w'.Owns names w.size →
      Observes R printed w' (.child w.size captured) trace) :
    Observes R printed w env (Trace.enclosed captured values trace) := by
  intro m n hsim hcurrent x hx v hv
  obtain ⟨visible', cells, hopened⟩ := hopens n
  have hw := hopened.grows hsim (Nat.zero_le _)
  have hstart : Trace.enclosed captured values trace m = trace
      { m with store := (m.store.addScope values).2, current := .child w.size captured } := by
    rw [← hsim.size]
    rfl
  rw [hstart] at hx
  exact htrace _ _ hw (hopened.scoped hsim hscoped) hopened.owns _ { n with cells }
    ((hopened.simulation hsim).within _) rfl x hx v hv

/-- The visits of a function are observed if those of its statements are. -/
theorem invoke_observes {trace : Stmt → Interpreter → List Moment} {execute : Stmt → Eval Flow}
    {execute' : Lexical.Scope → Stmt → Lexical.Eval Lexical.Flow}
    (htrace : ObservesStmts R printed trace) (hexecute : Executes R printed execute execute')
    {c : Closure} {c' : Lexical.Closure} (hc : w.RelatesFunction R c c') {arguments : List Value}
    {arguments' : List Lexical.Value} (harguments : List.Forall₂ (w.Relates R) arguments arguments')
    (hlength : arguments.length = c.arity) (depth : Nat) :
    Observes R printed w env (Trace.invoke (Trace.executeAll trace execute) depth c arguments) := by
  obtain ⟨identity, ⟨name, params, body⟩, captured, isInitializer⟩ := c
  obtain ⟨-, -, -, scopes, hscoped, hresolved, -⟩ := hc
  have hopens (n : Lexical.Machine) : ∃ visible' cells, Opens R w n.cells
      (parameterBindings params arguments) (parameterScope params) c'.environment visible' cells := by
    obtain ⟨visible', cells, -, hopened⟩ :=
      bindAll_opens params harguments hlength n (Opens.nil n.cells c'.environment)
    exact ⟨visible', cells, hopened⟩
  have hbegins : Observes R printed w env fun m =>
      [⟨.invocation depth ⟨identity, ⟨name, params, body⟩, captured, isInitializer⟩ arguments, m⟩] :=
    .silent fun _ => List.forall_mem_singleton.mpr rfl
  refine hbegins.append (enclosed_observes hscoped hopens fun w' visible' hw hinner howns => ?_)
  exact executeAll_observes htrace hexecute body hinner howns (hresolved.mono hw.plan)

end Parts

section Trees

variable {R : Relabeling} {printed : ByteArray} {depth : Nat}

/-- Where the evaluation of an expression begins, a name is visited if the expression has one. -/
theorem expression_observes {w : World} {env : Environment} {scopes : LocalScopes} {visible : Lexical.Scope}
    {initializing : Option String} (hscoped : w.Scoped scopes env visible) {e : Expr}
    (hsites : e.sites scopes initializing ⊆ w.plan) :
    Observes R printed w env fun m => [⟨.expression depth e, m⟩] := by
  cases e with
  | «variable» id name => exact hscoped.observes (fun _ => rfl) (hsites (List.mem_singleton_self _))
  | assign id name value =>
    exact hscoped.observes (fun _ => rfl) (hsites (List.mem_append_right _ (List.mem_singleton_self _)))
  | this id keyword => exact hscoped.observes (fun _ => rfl) (hsites (List.mem_singleton_self _))
  | _ => exact .silent fun _ => List.forall_mem_singleton.mpr rfl

/-- The visits of an expression, from those of its parts and of calls. -/
theorem evaluate_observes (h : Agreement R printed depth)
    (hevaluate : ObservesExprs R printed (Trace.evaluate depth))
    (happly : ObservesCalls R printed (Trace.apply depth)) :
    ObservesExprs R printed (Trace.evaluate (depth + 1)) := by
  intro e w env scopes visible initializing hscoped hsites
  refine .around (expression_observes hscoped hsites) ?_
  cases e with
  | literal _ => exact .nil
  | grouping inner => exact hevaluate inner hscoped hsites
  | unary _ right => exact hevaluate right hscoped hsites
  | binary left _ right =>
    obtain ⟨hleft, hright⟩ := List.append_subset.mp hsites
    refine (hevaluate left hscoped hleft).append
      ((h.evaluate left (Nat.zero_le _) hscoped hleft).observes ?_)
    exact fun w₁ _ _ hw₁ _ => hevaluate.later hscoped hright hw₁
  | logical left operator right =>
    obtain ⟨hleft, hright⟩ := List.append_subset.mp hsites
    refine (hevaluate left hscoped hleft).append
      ((h.evaluate left (Nat.zero_le _) hscoped hleft).observes fun w₁ value _ hw₁ _ => ?_)
    cases decides operator value with
    | true => exact .nil
    | false => exact hevaluate.later hscoped hright hw₁
  | «variable» _ _ => exact .nil
  | assign id name value =>
    obtain ⟨hvalue, hsite⟩ := List.append_subset.mp hsites
    refine (hevaluate value hscoped hvalue).append
      ((h.evaluate value (Nat.zero_le _) hscoped hvalue).observes fun w₁ _ _ hw₁ _ => ?_)
    have hscoped₁ := hscoped.mono hw₁.toExtends
    exact hscoped₁.observes (fun _ => rfl) (hw₁.plan (hsite (List.mem_singleton_self _)))
  | call callee _ arguments =>
    obtain ⟨hcallee, harguments⟩ := List.append_subset.mp hsites
    refine (hevaluate callee hscoped hcallee).append
      ((h.evaluate callee (Nat.zero_le _) hscoped hcallee).observes fun w₁ f f' hw₁ hf => ?_)
    have hscoped₁ := hscoped.mono hw₁.toExtends
    have harguments₁ := List.Subset.trans harguments hw₁.plan
    refine (evaluateAll_observes hevaluate h.evaluate arguments hscoped₁ harguments₁).append
      ((evaluateAll_simulates h.evaluate arguments (Nat.zero_le _) hscoped₁ harguments₁).observes
        fun w₂ vs vs' hw₂ hvs => ?_)
    by_cases hcount : f.arity? = some vs.length
    · simpa only [if_pos hcount] using happly (hf.mono hw₂.toExtends) hvs hcount
    · simpa only [if_neg hcount] using .nil
  | get object name =>
    refine (hevaluate object hscoped hsites).append
      ((h.evaluate object (Nat.zero_le _) hscoped hsites).observes fun w₁ o _ _ _ => ?_)
    cases o with
    | «instance» i => exact .property i name.lexeme
    | _ => exact .nil
  | set object _ value =>
    obtain ⟨hvalue, hobject⟩ := List.append_subset.mp hsites
    refine (hevaluate object hscoped hobject).append
      ((h.evaluate object (Nat.zero_le _) hscoped hobject).observes fun w₁ o _ hw₁ _ => ?_)
    cases o with
    | «instance» _ => exact hevaluate.later hscoped hvalue hw₁
    | _ => exact .nil
  | this _ _ => exact .nil

/-- The visits of a call, from those of statements. -/
theorem apply_observes (h : Agreement R printed depth)
    (hexecute : ObservesStmts R printed (Trace.execute depth)) :
    ObservesCalls R printed (Trace.apply (depth + 1)) := by
  intro w env f f' arguments arguments' hf harguments harity
  refine .around (.silent fun _ => List.forall_mem_singleton.mpr rfl) ?_
  cases hf with
  | function hc =>
    exact invoke_observes hexecute h.execute hc harguments (Option.some.inj harity).symm depth
  | @«class» c c' hc =>
    have hlength : arguments.length = c.arity := (Option.some.inj harity).symm
    refine (newInstance_simulates hc).observes fun w₁ i i' (hw₁ : w.Grows 0 w₁) hi => ?_
    have hmethod := (hc.mono hw₁.toExtends).methods initializerName
    unfold ClassOver.arity ClassOver.initializer? at hlength
    unfold ClassOver.initializer?
    generalize c.methods.get? initializerName = method?, c'.methods.get? initializerName = method'?
      at hmethod hlength ⊢
    cases hmethod with
    | none => exact .nil
    | some hmethod =>
      refine (Observes.bindMethod initializerName _ i).append
        ((bindMethod_simulates (Nat.zero_le _) hmethod hi).observes fun w₂ b b' hw₂ hb => ?_)
      exact invoke_observes hexecute h.execute hb.1
        (harguments.imp fun _ _ hv => (hv.mono hw₁.toExtends).mono hw₂.toExtends)
        (hlength.trans hb.2.symm) depth
  | _ => exact .nil

/-- The visits of a statement are observed if those of its expressions and parts are. -/
theorem execute_observes (h : Agreement R printed depth)
    (hevaluate : ObservesExprs R printed (Trace.evaluate depth))
    (hexecute : ObservesStmts R printed (Trace.execute depth)) :
    ObservesStmts R printed (Trace.execute (depth + 1)) := by
  intro s w env scopes visible hscoped hresolved
  refine .around (.silent fun _ => List.forall_mem_singleton.mpr rfl) ?_
  cases s with
  | expression expr => exact hevaluate expr hscoped hresolved
  | print expr => exact hevaluate expr hscoped hresolved
  | «variable» _ initial =>
    cases initial with
    | none => exact .nil
    | some initial => exact hevaluate initial hscoped hresolved.2
  | block body =>
    -- the new scope stands inside the environment that is current when the block begins
    intro m n hsim hcurrent
    subst hcurrent
    refine enclosed_observes hscoped (fun n => ⟨visible, n.cells, Opens.nil n.cells visible⟩)
      (fun w' visible' hw hinner howns => ?_) m n hsim rfl
    exact executeAll_observes hexecute h.execute body hinner howns (hresolved.mono hw.plan)
  | conditional condition thenBranch elseBranch =>
    cases elseBranch with
    | none =>
      obtain ⟨hcondition, hdeclared, hthen⟩ := hresolved
      refine (hevaluate condition hscoped hcondition).append
        ((h.evaluate condition (Nat.zero_le _) hscoped hcondition).observes fun w₁ value _ hw₁ _ => ?_)
      cases value.isTruthy with
      | true => exact hexecute.later hscoped hdeclared hthen hw₁
      | false => exact .nil
    | some elseBranch =>
      obtain ⟨hcondition, ⟨hdeclared, hthen⟩, hdeclared', helse⟩ := hresolved
      refine (hevaluate condition hscoped hcondition).append
        ((h.evaluate condition (Nat.zero_le _) hscoped hcondition).observes fun w₁ value _ hw₁ _ => ?_)
      cases value.isTruthy with
      | true => exact hexecute.later hscoped hdeclared hthen hw₁
      | false => exact hexecute.later hscoped hdeclared' helse hw₁
  | loop condition body =>
    obtain ⟨hcondition, hdeclared, hbody⟩ := id hresolved
    refine (hevaluate condition hscoped hcondition).append
      ((h.evaluate condition (Nat.zero_le _) hscoped hcondition).observes fun w₁ value _ hw₁ _ => ?_)
    cases value.isTruthy with
    | false => exact .nil
    | true =>
      refine (hexecute.later hscoped hdeclared hbody hw₁).append
        ((h.execute.later (Nat.zero_le _) hscoped hdeclared hbody hw₁).observes
          fun w₂ flow _ hw₂ _ => ?_)
      cases flow with
      | normal => exact hexecute.later hscoped rfl hresolved (hw₁.trans hw₂)
      | returned _ => exact .nil
  | function _ => exact .nil
  | «return» _ value =>
    cases value with
    | none => exact .nil
    | some value => exact hevaluate value hscoped hresolved
  | «class» _ _ => exact .nil

/-- The visits of evaluation to a depth are sound. -/
structure Observation (R : Relabeling) (printed : ByteArray) (depth : Nat) : Prop where
  evaluate : ObservesExprs R printed (Trace.evaluate depth)
  execute : ObservesStmts R printed (Trace.execute depth)
  apply : ObservesCalls R printed (Trace.apply depth)

/-- All visits of evaluation are sound. -/
theorem observation (R : Relabeling) (printed : ByteArray) (depth : Nat) :
    Observation R printed depth := by
  induction depth with
  | zero => exact ⟨fun _ _ _ _ _ _ _ _ => .nil, fun _ _ _ _ _ _ _ => .nil, fun _ _ _ => .nil⟩
  | succ depth ih =>
    have h := agreement R printed depth
    exact ⟨evaluate_observes h ih.evaluate ih.apply, execute_observes h ih.evaluate ih.execute,
      apply_observes h ih.execute⟩

/-- All visits of a program that has been resolved are sound. -/
theorem interpret_observes {w : World} {m : Interpreter} {n : Lexical.Machine}
    (h : Simulation R printed w m n) (depth : Nat) (program : List Stmt)
    (hresolved : Stmt.AllResolved w.plan program []) :
    ∀ v ∈ Visits.interpret depth program m, ∃ site ∈ w.plan, v.Sound site := by
  have hobserves (ss : List Stmt) {w : World} (hresolved : Stmt.AllResolved w.plan ss []) :
      Observes R printed w .outermost (Trace.executeProgram depth ss) := by
    induction ss generalizing w with
    | nil => exact .nil
    | cons s rest ih =>
      have hscoped : w.Scoped (LocalScopes.entering s []) .outermost [] :=
        (LocalScopes.entering_nil s).symm ▸ w.scoped_outermost
      refine ((observation R printed depth).execute s hscoped hresolved.1).append
        (((agreement R printed depth).execute s (Nat.zero_le _) hscoped hresolved.1).observes ?_)
      exact fun w₁ _ _ hw₁ _ => ih ((LocalScopes.after_nil s ▸ hresolved.2).mono hw₁.plan)
  intro v hv
  obtain ⟨x, hx, hvisit⟩ := List.mem_filterMap.mp hv
  rcases List.mem_append.mp hx with hx | hx
  · exact hobserves program hresolved _ n (h.within _) h.topLevel x hx v hvisit
  · rw [List.mem_singleton.mp hx] at hvisit
    cases hvisit

end Trees

end Lox
