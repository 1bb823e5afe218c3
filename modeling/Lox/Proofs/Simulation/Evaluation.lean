import Lox.Proofs.Simulation.Calls

/-!
# Evaluation is lexical

Evaluation with distances and evaluation with lexical scopes agree on everything that was resolved where
it runs. The proof is by induction on the allotted depth, and goes through both definitions side by
side: what holds of expressions, statements and calls at a depth follows from what holds of them at the
depth below.
-/

set_option autoImplicit false

namespace Lox

variable {R : Relabeling} {printed : ByteArray} {frozen : ScopeId} {w w' : World} {env : Environment}
  {scopes : LocalScopes} {visible : Lexical.Scope}

/-- Two ways to evaluate agree on all expressions that were resolved where they are evaluated. -/
def Evaluates (R : Relabeling) (printed : ByteArray) (evaluate : Expr → Eval Value)
    (evaluate' : Lexical.Scope → Expr → Lexical.Eval Lexical.Value) : Prop :=
  ∀ (e : Expr) {frozen : ScopeId} {w : World} {env : Environment} {scopes : LocalScopes}
    {visible : Lexical.Scope} {initializing : Option String}, frozen ≤ w.size →
    w.Scoped scopes env visible → e.sites scopes initializing ⊆ w.plan →
    Simulates R printed frozen w env (evaluate e) (evaluate' visible (e.relabel R))
      (fun w' => w'.Relates R)

/-- Two ways to call values agree on all calls with the right number of arguments. -/
def Applies (R : Relabeling) (printed : ByteArray) (apply : Value → List Value → Eval Value)
    (apply' : Lexical.Value → List Lexical.Value → Lexical.Eval Lexical.Value) : Prop :=
  ∀ {frozen : ScopeId} {w : World} {env : Environment} {f : Value} {f' : Lexical.Value}
    {arguments : List Value} {arguments' : List Lexical.Value}, frozen ≤ w.size →
    w.Relates R f f' → List.Forall₂ (w.Relates R) arguments arguments' →
    f.arity? = some arguments.length →
    Simulates R printed frozen w env (apply f arguments) (apply' f' arguments')
      (fun w' => w'.Relates R)

section Expressions

variable {evaluate : Expr → Eval Value}
  {evaluate' : Lexical.Scope → Expr → Lexical.Eval Lexical.Value}

/-- An expression is evaluated later, after something else in the same place. -/
theorem Evaluates.later (h : Evaluates R printed evaluate evaluate') (hfrozen : frozen ≤ w.size)
    (hscoped : w.Scoped scopes env visible) {e : Expr} {initializing : Option String}
    (hsites : e.sites scopes initializing ⊆ w.plan) (hw : w.Grows frozen w') :
    Simulates R printed frozen w' env (evaluate e) (evaluate' visible (e.relabel R))
      (fun w'' => w''.Relates R) :=
  h e (Nat.le_trans hfrozen hw.size) (hscoped.mono hw.toExtends) (List.Subset.trans hsites hw.plan)

/-- Expressions are evaluated alike, one after the other. -/
theorem evaluateAll_simulates (h : Evaluates R printed evaluate evaluate') (es : List Expr)
    {initializing : Option String} (hfrozen : frozen ≤ w.size)
    (hscoped : w.Scoped scopes env visible) (hsites : Expr.sitesAll scopes initializing es ⊆ w.plan) :
    Simulates R printed frozen w env (evaluateAll evaluate es)
      (evaluateAll (evaluate' visible) (Expr.relabelAll R es))
      (fun w' => List.Forall₂ (w'.Relates R)) := by
  induction es generalizing w with
  | nil => exact .pure .nil
  | cons e rest ih =>
    obtain ⟨hfirst, hrest⟩ := List.append_subset.mp hsites
    refine (h e hfrozen hscoped hfirst).bind fun w₁ v v' hw₁ hv => ?_
    refine (ih (Nat.le_trans hfrozen hw₁.size) (hscoped.mono hw₁.toExtends)
      (List.Subset.trans hrest hw₁.plan)).bind fun w₂ vs vs' hw₂ hvs => ?_
    exact .pure (.cons (hv.mono hw₂.toExtends) hvs)

end Expressions

/-- Expressions are evaluated alike if their parts and calls are. -/
theorem evaluate_simulates {depth : Nat}
    (hevaluate : Evaluates R printed (evaluate depth) (Lexical.evaluate depth))
    (happly : Applies R printed (apply depth) (Lexical.apply depth)) :
    Evaluates R printed (evaluate (depth + 1)) (Lexical.evaluate (depth + 1)) := by
  intro e frozen w env scopes visible initializing hfrozen hscoped hsites
  cases e with
  | literal value => exact .pure (.ofLiteral value)
  | grouping inner => exact hevaluate inner hfrozen hscoped hsites
  | unary operator right =>
    exact (hevaluate right hfrozen hscoped hsites).bind
      fun w₁ v v' _ hv => applyUnary_simulates operator hv
  | binary left operator right =>
    obtain ⟨hleft, hright⟩ := List.append_subset.mp hsites
    refine (hevaluate left hfrozen hscoped hleft).bind fun w₁ a a' hw₁ ha => ?_
    refine (hevaluate.later hfrozen hscoped hright hw₁).bind fun w₂ b b' hw₂ hb => ?_
    exact applyBinary_simulates operator (ha.mono hw₂.toExtends) hb
  | logical left operator right =>
    obtain ⟨hleft, hright⟩ := List.append_subset.mp hsites
    refine (hevaluate left hfrozen hscoped hleft).bind fun w₁ a a' hw₁ ha => ?_
    rw [decides_relabel operator ha]
    split
    · exact .pure ha
    · exact hevaluate.later hfrozen hscoped hright hw₁
  | «variable» id name => exact lookUp_simulates hscoped id name (hsites (List.mem_singleton_self _))
  | assign id name value =>
    obtain ⟨hvalue, hsite⟩ := List.append_subset.mp hsites
    refine (hevaluate value hfrozen hscoped hvalue).bind fun w₁ v v' hw₁ hv => ?_
    refine (assign_simulates (hscoped.mono hw₁.toExtends) id name
      (hw₁.plan (hsite (List.mem_singleton_self _))) hv).bind fun w₂ _ _ hw₂ _ => ?_
    exact .pure (hv.mono hw₂.toExtends)
  | call callee paren arguments =>
    obtain ⟨hcallee, harguments⟩ := List.append_subset.mp hsites
    refine (hevaluate callee hfrozen hscoped hcallee).bind fun w₁ f f' hw₁ hf => ?_
    have hfrozen₁ := Nat.le_trans hfrozen hw₁.size
    refine (evaluateAll_simulates hevaluate arguments hfrozen₁ (hscoped.mono hw₁.toExtends)
      (List.Subset.trans harguments hw₁.plan)).bind fun w₂ vs vs' hw₂ hvs => ?_
    have hf₂ := hf.mono hw₂.toExtends
    rw [hf₂.arity?, ← hvs.length_eq]
    cases harity : f.arity? with
    | none => exact .fail paren _
    | some arity =>
      dsimp only
      split
      · exact .fail paren _
      · rename_i hcount
        refine happly (Nat.le_trans hfrozen₁ hw₂.size) hf₂ hvs ?_
        rw [harity, not_not.mp hcount]
  | get object name =>
    refine (hevaluate object hfrozen hscoped hsites).bind fun w₁ v v' hw₁ hv => ?_
    cases hv with
    | «instance» hi => exact property_simulates (Nat.le_trans hfrozen hw₁.size) hi name
    | _ => exact .fail name _
  | set object name value =>
    obtain ⟨hvalue, hobject⟩ := List.append_subset.mp hsites
    refine (hevaluate object hfrozen hscoped hobject).bind fun w₁ v v' hw₁ hv => ?_
    cases hv with
    | «instance» hi =>
      refine (hevaluate.later hfrozen hscoped hvalue hw₁).bind fun w₂ u u' hw₂ hu => ?_
      refine (setField_simulates (hi.mono hw₂.toExtends) name.lexeme hu).bind fun w₃ _ _ hw₃ _ => ?_
      exact .pure (hu.mono hw₃.toExtends)
    | _ => exact .fail name _
  | this id keyword => exact lookUp_simulates hscoped id keyword (hsites (List.mem_singleton_self _))

/-- Values are called alike if statements run alike. -/
theorem apply_simulates {depth : Nat}
    (hexecute : Executes R printed (execute depth) (Lexical.execute depth)) :
    Applies R printed (apply (depth + 1)) (Lexical.apply (depth + 1)) := by
  intro frozen w env f f' arguments arguments' hfrozen hf harguments harity
  cases hf with
  | clock => exact readClock_simulates
  | function hc =>
    exact invoke_simulates hexecute hfrozen hc harguments (Option.some.inj harity).symm
  | @«class» c c' hc =>
    have hlength : arguments.length = c.arity := (Option.some.inj harity).symm
    refine (newInstance_simulates hc).bind fun w₁ i i' hw₁ hi => ?_
    have hfrozen₁ := Nat.le_trans hfrozen hw₁.size
    have hmethod := (hc.mono hw₁.toExtends).methods initializerName
    unfold ClassOver.arity ClassOver.initializer? at hlength
    unfold ClassOver.initializer?
    generalize c.methods.get? initializerName = method?, c'.methods.get? initializerName = method'?
      at hmethod hlength ⊢
    cases hmethod with
    | none => exact .pure (.instance hi)
    | some hmethod =>
      refine (bindMethod_simulates hfrozen₁ hmethod hi).bind fun w₂ b b' hw₂ hb => ?_
      refine (invoke_simulates hexecute (Nat.le_trans hfrozen₁ hw₂.size) hb.1
        (harguments.imp fun _ _ hv => (hv.mono hw₁.toExtends).mono hw₂.toExtends) (hlength.trans hb.2.symm)).bind
          fun w₃ _ _ hw₃ _ => ?_
      exact .pure (.instance ((hi.mono hw₂.toExtends).mono hw₃.toExtends))
  | _ => cases harity

/-- A statement that declares nothing runs later, after something else in the same place. -/
theorem Executes.later {execute : Stmt → Eval Flow}
    {execute' : Lexical.Scope → Stmt → Lexical.Eval Lexical.Flow}
    (h : Executes R printed execute execute') (hfrozen : frozen ≤ w.size)
    (hscoped : w.Scoped scopes env visible) {s : Stmt} (hdeclared : s.declared? = none)
    (hresolved : s.Resolved w.plan scopes) (hw : w.Grows frozen w') :
    Simulates R printed frozen w' env (execute s) (execute' visible (s.relabel R))
      (fun w'' f f' => w''.RelatesFlow R f f' ∧ w''.Scoped scopes env visible) := by
  have hentering : scopes.entering s = scopes := by rw [LocalScopes.entering, hdeclared]
  have hs := h s (Nat.le_trans hfrozen hw.size) (hentering.symm ▸ hscoped.mono hw.toExtends)
    (hresolved.mono hw.plan)
  rwa [LocalScopes.after_of_not_declared hdeclared] at hs

/-- Statements run alike if their expressions and parts do. -/
theorem execute_simulates {depth : Nat}
    (hevaluate : Evaluates R printed (evaluate depth) (Lexical.evaluate depth))
    (hexecute : Executes R printed (execute depth) (Lexical.execute depth)) :
    Executes R printed (execute (depth + 1)) (Lexical.execute (depth + 1)) := by
  intro s frozen w env scopes visible hfrozen hscoped hresolved
  cases s with
  | expression expr =>
    exact (hevaluate expr hfrozen hscoped hresolved).bind
      fun w₁ _ _ hw₁ _ => .pure ⟨.normal, hscoped.mono hw₁.toExtends⟩
  | print expr =>
    refine (hevaluate expr hfrozen hscoped hresolved).bind fun w₁ v v' hw₁ hv => ?_
    rw [hv.text]
    exact (printLine_simulates v.text).bind
      fun w₂ _ _ hw₂ _ => .pure ⟨.normal, hscoped.mono (hw₁.trans hw₂).toExtends⟩
  | «variable» name initial =>
    have hdefine {w₁ : World} {v : Value} {v' : Lexical.Value} (hw₁ : w.Grows frozen w₁)
        (hv : w₁.Relates R v v') :
        Simulates R printed frozen w₁ env (do Eval.define name.lexeme v; return .normal)
          (do Lexical.define visible name.lexeme v'; return .normal)
          (fun w' f f' => w'.RelatesFlow R f f' ∧
            w'.Scoped (scopes.complete name.lexeme) env visible) := by
      refine (define_simulates (hscoped.mono hw₁.toExtends) (hv.mono (w₁.grows_defined 0 _ _).toExtends)).bind ?_
      rintro w₂ _ _ - rfl
      exact .pure ⟨.normal, (hscoped.mono hw₁.toExtends).defined⟩
    cases initial with
    | some expr =>
      exact (hevaluate expr hfrozen hscoped hresolved.2).bind fun w₁ v v' hw₁ hv => hdefine hw₁ hv
    | none => exact hdefine (.refl frozen w) .nil
  | block body =>
    refine .get fun m hcurrent => ?_
    rw [hcurrent]
    refine (enclosed_simulates (pure visible) hfrozen hscoped
      (fun n => ⟨visible, n.cells, rfl, Opens.nil n.cells visible⟩)
      (fun w' visible' hw hinner howns => executeAll_simulates hexecute body (Nat.le_refl _) hinner
        howns (hresolved.mono hw.plan))).imp ?_
    exact fun w' _ _ hw hflow => ⟨hflow, hscoped.mono hw.toExtends⟩
  | conditional condition thenBranch elseBranch =>
    cases elseBranch with
    | none =>
      obtain ⟨hcondition, hdeclared, hthen⟩ := hresolved
      refine (hevaluate condition hfrozen hscoped hcondition).bind fun w₁ v v' hw₁ hv => ?_
      rw [hv.isTruthy]
      split
      · exact hexecute.later hfrozen hscoped hdeclared hthen hw₁
      · exact .pure ⟨.normal, hscoped.mono hw₁.toExtends⟩
    | some elseBranch =>
      obtain ⟨hcondition, ⟨hdeclared, hthen⟩, hdeclared', helse⟩ := hresolved
      refine (hevaluate condition hfrozen hscoped hcondition).bind fun w₁ v v' hw₁ hv => ?_
      rw [hv.isTruthy]
      split
      · exact hexecute.later hfrozen hscoped hdeclared hthen hw₁
      · exact hexecute.later hfrozen hscoped hdeclared' helse hw₁
  | loop condition body =>
    obtain ⟨hcondition, hdeclared, hbody⟩ := id hresolved
    refine (hevaluate condition hfrozen hscoped hcondition).bind fun w₁ v v' hw₁ hv => ?_
    rw [hv.isTruthy]
    split
    · refine (hexecute.later hfrozen hscoped hdeclared hbody hw₁).bind fun w₂ f f' hw₂ hf => ?_
      obtain ⟨hflow, -⟩ := hf
      have hw := hw₁.trans hw₂
      cases hflow with
      | normal => exact hexecute.later hfrozen hscoped rfl hresolved hw
      | returned hu => exact .pure ⟨.returned hu, hscoped.mono hw.toExtends⟩
    · exact .pure ⟨.normal, hscoped.mono hw₁.toExtends⟩
  | function declaration =>
    refine .get fun m hcurrent => ?_
    rw [hcurrent]
    refine (newClosure_simulates declaration env visible false).bind ?_
    rintro w₁ c c' hw₁ ⟨i, rfl, rfl⟩
    have hdefined := (hscoped.mono hw₁.toExtends).defined
    have hc : (w₁.defined env.scope declaration.name.lexeme).RelatesFunction R
        ⟨i, declaration, env, false⟩ ⟨i, declaration.relabel R, visible, false⟩ :=
      ⟨rfl, rfl, rfl, _, hdefined, hresolved.2.mono hw₁.plan, fun h => by cases h⟩
    rw [FunctionDecl.relabel_name, Token.relabel_lexeme]
    refine (define_simulates (hscoped.mono hw₁.toExtends) (.function hc)).bind ?_
    rintro w₂ _ _ - rfl
    exact .pure ⟨.normal, hdefined⟩
  | «return» keyword value =>
    cases value with
    | some expr =>
      exact (hevaluate expr hfrozen hscoped hresolved).bind
        fun w₁ v v' hw₁ hv => .pure ⟨.returned hv, hscoped.mono hw₁.toExtends⟩
    | none => exact .pure ⟨.returned .nil, hscoped⟩
  | «class» name methods =>
    -- the methods see the name of the class, in the world in which it is defined
    have hlater := hscoped.defined
    refine (closeMethods_simulates hlater methods hresolved.2 (fun _ => .none)).bind
      fun w₁ c c' hw₁ hmethods => ?_
    refine (newClass_simulates name.lexeme hmethods).bind fun w₂ c c' hw₂ hc => ?_
    have hw := hw₁.trans hw₂
    refine (define_simulates (hscoped.mono hw.toExtends) (.class (hc.mono (hw.defined _ _).toExtends))).bind ?_
    rintro w₃ _ _ - rfl
    exact .pure ⟨.normal, (hscoped.mono hw.toExtends).defined⟩

/-- What holds of evaluation at a depth. -/
structure Agreement (R : Relabeling) (printed : ByteArray) (depth : Nat) : Prop where
  evaluate : Evaluates R printed (evaluate depth) (Lexical.evaluate depth)
  execute : Executes R printed (execute depth) (Lexical.execute depth)
  apply : Applies R printed (apply depth) (Lexical.apply depth)

/-- Evaluation with distances agrees with evaluation with lexical scopes. -/
theorem agreement (R : Relabeling) (printed : ByteArray) (depth : Nat) :
    Agreement R printed depth := by
  induction depth with
  | zero => exact ⟨fun _ _ _ _ _ _ _ _ _ _ => .exhausted, fun _ _ _ _ _ _ _ _ _ => .exhausted,
      fun _ _ _ _ => .exhausted⟩
  | succ depth ih =>
    exact ⟨evaluate_simulates ih.evaluate ih.apply, execute_simulates ih.evaluate ih.execute,
      apply_simulates ih.execute⟩

end Lox
