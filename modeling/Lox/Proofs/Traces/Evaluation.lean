import Lox.Proofs.Traces.Steps

/-!
# Evaluation keeps invariants

Whatever an invariant is, evaluation keeps it. Each constructor of the trees is one case, put together from the
steps that it takes in order; the induction is on the depth that is allotted to the three functions of evaluation
together. A program keeps an invariant from the top level, so a run of it is a path, and each of its moments fits
what is known by then.
-/

set_option autoImplicit false

namespace Lox

/-- Expressions keep an invariant wherever they may be evaluated. -/
def KeepsExprs (I : Invariant) (evaluate : Expr → Eval Value) (trace : Expr → Interpreter → List Moment) : Prop :=
  ∀ (e : Expr) {w : I.World} {env : Environment}, I.MayEvaluate w env e →
    Keeps I w env (evaluate e) (trace e) I.Good I.MayFail

/-- Statements keep an invariant wherever they may run. -/
def KeepsStmts (I : Invariant) (execute : Stmt → Eval Flow) (trace : Stmt → Interpreter → List Moment) : Prop :=
  ∀ (s : Stmt) {w : I.World} {env : Environment}, I.MayExecute w env s →
    Keeps I w env (execute s) (trace s) I.GoodFlow I.MayFail

/-- Calls of good values with good arguments keep an invariant. -/
def KeepsCalls (I : Invariant) (apply : Value → List Value → Eval Value)
    (trace : Value → List Value → Interpreter → List Moment) : Prop :=
  ∀ (f : Value) (arguments : List Value) {w : I.World} {env : Environment}, (∀ v ∈ f :: arguments, I.Good w v) →
    Keeps I w env (apply f arguments) (trace f arguments) I.Good I.MayFail

variable {I : Invariant} {w : I.World} {env : Environment}

/-- The value with which a statement ended stays good. -/
theorem Invariant.goodFlow_mono {w' : I.World} {moments : List Moment} (hw : I.Leads w moments w') {flow : Flow}
    (h : I.GoodFlow w flow) : I.GoodFlow w' flow := by
  cases flow with
  | normal => trivial
  | returned v => exact I.good_mono hw h

section Parts

/-- The operands of an expression are evaluated one after the other. -/
theorem KeepsExprs.evaluateAll {evaluate : Expr → Eval Value} {trace : Expr → Interpreter → List Moment}
    (h : KeepsExprs I evaluate trace) (es : List Expr) (hes : ∀ e ∈ es, I.MayEvaluate w env e) :
    Keeps I w env (evaluateAll evaluate es) (Trace.evaluateAll trace evaluate es)
      (fun w' vs => vs.length = es.length ∧ ∀ v ∈ vs, I.Good w' v) I.MayFail := by
  induction es generalizing w with
  | nil => exact KeepsQuietly.pure ⟨rfl, nofun⟩
  | cons e rest ih =>
    obtain ⟨he, hrest⟩ := List.forall_mem_cons.mp hes
    refine (h e he).bind fun v hw hv => ?_
    refine (ih fun e' he' => I.mayEvaluate_mono hw (hrest e' he')).thenQuietly fun vs hw' hvs => ?_
    exact .pure ⟨congrArg (· + 1) hvs.1, List.forall_mem_cons.mpr ⟨I.good_mono hw' hv, hvs.2⟩⟩

/-- Statements run one after the other, until one of them returns. -/
theorem KeepsStmts.executeAll {execute : Stmt → Eval Flow} {trace : Stmt → Interpreter → List Moment}
    (h : KeepsStmts I execute trace) (ss : List Stmt) (hss : ∀ s ∈ ss, I.MayExecute w env s) :
    Keeps I w env (executeAll execute ss) (Trace.executeAll trace execute ss) I.GoodFlow I.MayFail := by
  induction ss generalizing w with
  | nil => exact KeepsQuietly.pure trivial
  | cons s rest ih =>
    obtain ⟨hs, hrest⟩ := List.forall_mem_cons.mp hss
    refine (h s hs).bind fun flow hw hflow => ?_
    cases flow with
    | normal => exact ih fun s' hs' => I.mayExecute_mono hw (hrest s' hs')
    | returned v => exact KeepsQuietly.pure hflow

/-- A good function runs on good arguments, in the environment that it remembers. -/
theorem KeepsStmts.invoke {depth : Nat} (h : KeepsStmts I (execute depth) (Trace.execute depth)) {c : Closure}
    {arguments : List Value} (hvalues : ∀ v ∈ .function c :: arguments, I.Good w v) :
    Keeps I w env (invoke (execute depth) c arguments)
      (Trace.invoke (Trace.executeAll (Trace.execute depth) (execute depth)) depth c arguments) I.Good I.MayFail := by
  refine Keeps.cons nofun hvalues nofun fun hw => ?_
  obtain ⟨hc, harguments⟩ := List.forall_mem_cons.mp fun v hv => I.good_mono hw (hvalues v hv)
  rw [invoke_eq_runBody]
  have hparameters := Bindings.All.parameters c.declaration.params harguments
  refine (Keeps.enclosed (fun m hm _ => ⟨I.opens_function hm.holds hc harguments, hparameters⟩)
    fun hbody => h.executeAll _ hbody).thenQuietly fun flow _ hflow => ?_
  cases c.isInitializer with
  | true => exact .get fun m hm _ => .pure (hm.good.getAt (I.good_plain trivial) _ _ _)
  | false =>
    cases flow with
    | normal => exact .pure (I.good_plain trivial)
    | returned v => exact .pure hflow

/-- The operand of an expression fails only as a run may have. -/
theorem KeepsExprs.operand {evaluate : Expr → Eval Value} {trace : Expr → Interpreter → List Moment}
    (h : KeepsExprs I evaluate trace) {e operand : Expr} (he : I.MayEvaluate w env e) (hmem : operand ∈ e.operands) :
    Keeps I w env (evaluate operand) (trace operand) I.Good (I.Owns e) :=
  (h operand (I.operand he hmem)).imp (fun _ hv => hv) .inl

end Parts

section Trees

variable {depth : Nat}

/-- What an expression fails with by itself, and not by its parts. -/
theorem Knowledge.Owns.of_fails {K : Knowledge} {w : K.World} {e : Expr} {error : RuntimeError}
    (h : e.FailsBy (K.Good w) error) : K.Owns e w (.runtime error) :=
  .inr ⟨error, rfl, h⟩

/-- Behind the beginning of an expression, what it fails with is one thing that a run may have failed with. -/
theorem Knowledge.Owns.mayFail {w' : I.World} {e : Expr} {m t : Interpreter} {moments : List Moment}
    {failure : Failure} (h : I.Owns e w' failure) (he : I.MayEvaluate w m.current e)
    (hw : I.Leads w (⟨.expression depth e, m⟩ :: moments) w')
    (hrun : Lox.evaluate depth e m = .error (.failed failure) t) : I.MayFail w' failure := by
  obtain hfails | ⟨error, herror, hfails⟩ := h
  · exact hfails
  · obtain rfl := Failure.eq_of_runtime? herror
    exact I.mayFail_own hw he hfails hrun

/-- Expressions, from their parts and calls. -/
theorem keeps_evaluate (hevaluate : KeepsExprs I (evaluate depth) (Trace.evaluate depth))
    (happly : KeepsCalls I (apply depth) (Trace.apply depth)) :
    KeepsExprs I (evaluate (depth + 1)) (Trace.evaluate (depth + 1)) := by
  intro e w env he
  have hbegins (d : Nat) (e' : Expr) (heq : Event.expression (depth + 1) e = .expression d e') :
      0 < d ∧ I.MayEvaluate w env e' := by
    cases heq
    exact ⟨Nat.succ_pos depth, he⟩
  refine Keeps.around nofun nofun hbegins (fun hw hv => I.good_mono hw hv)
    (fun hcurrent hw hrun hfails => Knowledge.Owns.mayFail hfails (hcurrent ▸ he) hw hrun) fun hw => ?_
  replace he := I.mayEvaluate_mono hw he
  cases e with
  | literal l => exact KeepsQuietly.pure (I.good_plain (ValueOver.isPlain_ofLiteral l))
  | grouping inner => exact hevaluate.operand he (List.mem_singleton_self _)
  | unary operator right =>
    refine (hevaluate.operand he (List.mem_singleton_self _)).thenQuietly fun v _ _ => ?_
    exact .computes (.applyUnary operator v) fun m error hrun => .of_fails (.unary hrun)
  | binary left operator right =>
    refine (hevaluate.operand he (List.mem_cons_self ..)).bind fun a hw₁ _ => ?_
    refine (hevaluate.operand (I.mayEvaluate_mono hw₁ he) ?_).thenQuietly fun b _ _ => ?_
    · exact List.mem_cons_of_mem _ (List.mem_singleton_self _)
    · exact .computes (.applyBinary operator a b) fun m error hrun => .of_fails (.binary hrun)
  | logical left operator right =>
    refine (hevaluate.operand he (List.mem_cons_self ..)).bind fun value hw₁ hvalue => ?_
    cases decides operator value with
    | true => exact KeepsQuietly.pure hvalue
    | false =>
      exact hevaluate.operand (I.mayEvaluate_mono hw₁ he) (List.mem_cons_of_mem _ (List.mem_singleton_self _))
  | «variable» id name => exact KeepsQuietly.lookUp id (.of_fails .variable)
  | assign id name value =>
    refine (hevaluate.operand he (List.mem_singleton_self _)).bind fun v hw₁ hv => ?_
    refine Keeps.cons nofun nofun nofun fun hw₂ => ?_
    have he₂ := I.mayEvaluate_mono hw₂ (I.mayEvaluate_mono hw₁ he)
    have hv₂ := I.good_mono hw₂ hv
    exact (KeepsQuietly.assign he₂ hv₂ (.of_fails .assign)).thenQuietly
      fun _ hw₃ _ => .pure (I.good_mono hw₃ hv₂)
  | call callee paren arguments =>
    refine (hevaluate.operand he (List.mem_cons_self ..)).bind fun f hw₁ hf => ?_
    have he₁ := I.mayEvaluate_mono hw₁ he
    have hoperands : ∀ e ∈ arguments, I.MayEvaluate _ env e :=
      fun e hmem => I.operand he₁ (List.mem_cons_of_mem _ hmem)
    refine ((hevaluate.evaluateAll arguments hoperands).imp (fun _ h => h) .inl).bind
      fun vs hw₂ ⟨hlength, hvs⟩ => ?_
    have hf₂ := I.good_mono hw₂ hf
    cases harity : f.arity? with
    | none => exact KeepsQuietly.fail (.of_fails .callee)
    | some arity =>
      by_cases hcount : vs.length = arity
      · subst hcount
        have hcall : Keeps I _ env (apply depth f vs) (Trace.apply depth f vs) I.Good
            (I.Owns (.call callee paren arguments)) :=
          (happly f vs (List.forall_mem_cons.mpr ⟨hf₂, hvs⟩)).imp (fun _ hv => hv) .inl
        simpa only [ne_eq, not_true_eq_false, if_true, if_false] using hcall
      · have hne : some arity ≠ some vs.length := fun heq => hcount (Option.some.inj heq).symm
        simp only [ne_eq, hcount, not_false_eq_true, if_true, if_neg hne]
        rw [hlength] at hcount ⊢
        exact KeepsQuietly.fail (.of_fails (.count hf₂ harity (Ne.symm hcount ∘ Eq.symm)))
  | get object name =>
    refine (hevaluate.operand he (List.mem_singleton_self _)).bind fun o _ ho => ?_
    cases o with
    | «instance» i => exact .property ho (.of_fails .property)
    | _ => exact KeepsQuietly.fail (.of_fails .noProperties)
  | set object name value =>
    refine (hevaluate.operand he (List.mem_cons_self ..)).bind fun o hw₁ _ => ?_
    cases o with
    | «instance» i =>
      refine (hevaluate.operand (I.mayEvaluate_mono hw₁ he) ?_).thenQuietly fun v _ hv => ?_
      · exact List.mem_cons_of_mem _ (List.mem_singleton_self _)
      · exact (KeepsQuietly.setField i name.lexeme hv).thenQuietly fun _ hw₃ _ => .pure (I.good_mono hw₃ hv)
    | _ => exact KeepsQuietly.fail (.of_fails .noFields)
  | this id keyword => exact KeepsQuietly.lookUp id (.of_fails .this)

/-- Calls, from statements. A class makes an instance, and takes its initializer from this. -/
theorem keeps_apply (hexecute : KeepsStmts I (execute depth) (Trace.execute depth)) :
    KeepsCalls I (apply (depth + 1)) (Trace.apply (depth + 1)) := by
  intro f arguments w env hvalues
  refine Keeps.around nofun hvalues nofun (fun hw hv => I.good_mono hw hv) (fun _ _ _ hfails => hfails) fun hw => ?_
  replace hvalues := fun v hv => I.good_mono hw (hvalues v hv)
  cases f with
  | function c => exact hexecute.invoke hvalues
  | «class» c =>
    obtain ⟨hc, harguments⟩ := List.forall_mem_cons.mp hvalues
    refine (KeepsQuietly.newInstance c).behind fun i hw₁ hblueprint => ?_
    subst hblueprint
    have hi := I.good_instance (I.good_mono hw₁ hc)
    cases hmethod : i.blueprint.initializer? with
    | none => exact KeepsQuietly.pure hi
    | some method =>
      refine (Keeps.bindMethod hi hmethod).bind fun bound hw₂ hbound => ?_
      have harguments₂ : ∀ v ∈ arguments, I.Good _ v :=
        fun v hv => I.good_mono hw₂ (I.good_mono hw₁ (harguments v hv))
      exact (hexecute.invoke (List.forall_mem_cons.mpr ⟨hbound, harguments₂⟩)).thenQuietly
        fun _ hw₃ _ => .pure (I.good_mono hw₃ (I.good_mono hw₂ hi))
  | clock => exact KeepsQuietly.readClock
  | _ => exact KeepsQuietly.pure (I.good_plain trivial)

/-- Statements keep the invariant if their expressions and parts do. -/
theorem keeps_execute (hevaluate : KeepsExprs I (evaluate depth) (Trace.evaluate depth))
    (hexecute : KeepsStmts I (execute depth) (Trace.execute depth)) :
    KeepsStmts I (execute (depth + 1)) (Trace.execute (depth + 1)) := by
  intro s w env hs
  refine Keeps.around nofun nofun nofun (fun hw hflow => I.goodFlow_mono hw hflow) (fun _ _ _ hfails => hfails)
    fun hw => ?_
  replace hs := I.mayExecute_mono hw hs
  cases s with
  | expression expr =>
    exact (hevaluate expr (I.operand_stmt hs (List.mem_singleton_self _))).thenQuietly fun _ _ _ => .pure trivial
  | print expr =>
    refine (hevaluate expr (I.operand_stmt hs (List.mem_singleton_self _))).thenQuietly fun value _ _ => ?_
    exact (KeepsQuietly.printLine value.text fun _ => I.mayFail_output).thenQuietly fun _ _ _ => .pure trivial
  | «variable» name initial =>
    have hdefine {w' : I.World} {moments : List Moment} (v : Value) (hw' : I.Leads _ moments w') (hv : I.Good w' v) :
        KeepsQuietly I w' env (do Eval.define name.lexeme v; return .normal) I.GoodFlow I.MayFail :=
      (KeepsQuietly.define (I.mayExecute_mono hw' hs) rfl hv).thenQuietly fun _ _ _ => .pure trivial
    cases initial with
    | none =>
      have hnil {w : I.World} : I.Good w .nil := I.good_plain trivial
      exact (KeepsQuietly.pure hnil).thenQuietly hdefine
    | some initial =>
      exact (hevaluate initial (I.operand_stmt hs (List.mem_singleton_self _))).thenQuietly hdefine
  | block body =>
    -- the new scope stands inside the environment that is current when the block begins
    intro m hm hcurrent
    subst hcurrent
    exact Keeps.enclosed (fun m' hm' heq => ⟨heq ▸ I.opens_block hm'.holds (heq.symm ▸ hs), .nil⟩)
      (fun hbody => hexecute.executeAll body hbody) m hm rfl
  | conditional condition thenBranch elseBranch =>
    cases elseBranch with
    | none =>
      refine (hevaluate condition (I.operand_stmt hs (List.mem_singleton_self _))).bind fun value hw₁ _ => ?_
      cases value.isTruthy with
      | true => exact hexecute thenBranch (I.branch (I.mayExecute_mono hw₁ hs) (List.mem_singleton_self _))
      | false => exact KeepsQuietly.pure trivial
    | some elseBranch =>
      refine (hevaluate condition (I.operand_stmt hs (List.mem_singleton_self _))).bind fun value hw₁ _ => ?_
      have hs₁ := I.mayExecute_mono hw₁ hs
      cases value.isTruthy with
      | true => exact hexecute thenBranch (I.branch hs₁ (List.mem_cons_self ..))
      | false => exact hexecute elseBranch (I.branch hs₁ (List.mem_cons_of_mem _ (List.mem_singleton_self _)))
  | loop condition body =>
    refine (hevaluate condition (I.operand_stmt hs (List.mem_singleton_self _))).bind fun value hw₁ _ => ?_
    have hs₁ := I.mayExecute_mono hw₁ hs
    cases value.isTruthy with
    | true =>
      refine (hexecute body (I.branch hs₁ (List.mem_singleton_self _))).bind fun flow hw₂ hflow => ?_
      cases flow with
      | normal => exact hexecute (.loop condition body) (I.mayExecute_mono hw₂ hs₁)
      | returned v => exact KeepsQuietly.pure hflow
    | false => exact KeepsQuietly.pure trivial
  | function declaration =>
    refine Keeps.entered fun henv => KeepsQuietly.get fun m hm hcurrent => ?_
    rw [hcurrent]
    refine (KeepsQuietly.newClosure declaration env false).thenQuietly fun c hw₁ ⟨hdeclaration, hcaptured, hkind⟩ => ?_
    have hs₁ := I.mayExecute_mono hw₁ hs
    have hc : I.Good _ (.function c) :=
      I.good_function (hcaptured ▸ I.mayEnter_mono hw₁ henv) (hcaptured ▸ hdeclaration ▸ hs₁) hkind
    exact (KeepsQuietly.define hs₁ rfl hc).thenQuietly fun _ _ _ => .pure trivial
  | «return» keyword value =>
    cases value with
    | none => exact KeepsQuietly.pure (I.good_plain trivial)
    | some value =>
      exact (hevaluate value (I.operand_stmt hs (List.mem_singleton_self _))).thenQuietly fun _ _ hv => .pure hv
  | «class» name methods =>
    refine Keeps.entered fun henv => ?_
    refine (KeepsQuietly.declareMethods methods).thenQuietly fun closures hw₁ hclosures => ?_
    refine (KeepsQuietly.newClass name.lexeme closures).thenQuietly fun c hw₂ hc => ?_
    have hs₂ := I.mayExecute_mono hw₂ (I.mayExecute_mono hw₁ hs)
    have hclass : I.Good _ (.class c) :=
      I.good_class (I.mayEnter_mono hw₂ (I.mayEnter_mono hw₁ henv)) hs₂ (hc ▸ hclosures)
    exact (KeepsQuietly.define hs₂ rfl hclass).thenQuietly fun _ _ _ => .pure trivial

/-- Evaluation to a depth keeps an invariant. -/
structure KeepsAt (I : Invariant) (depth : Nat) : Prop where
  evaluate : KeepsExprs I (evaluate depth) (Trace.evaluate depth)
  execute : KeepsStmts I (execute depth) (Trace.execute depth)
  apply : KeepsCalls I (apply depth) (Trace.apply depth)

/-- Evaluation keeps every invariant. -/
theorem keepsAt (I : Invariant) (depth : Nat) : KeepsAt I depth := by
  induction depth with
  | zero =>
    exact ⟨fun _ _ _ _ => KeepsQuietly.exhausted, fun _ _ _ _ => KeepsQuietly.exhausted,
      fun _ _ _ _ _ => KeepsQuietly.exhausted⟩
  | succ depth ih =>
    exact ⟨keeps_evaluate ih.evaluate ih.apply, keeps_execute ih.evaluate ih.execute, keeps_apply ih.execute⟩

end Trees

section Programs

/-- Top-level statements run one after the other. -/
theorem Keeps.executeProgram (depth : Nat) (ss : List Stmt) (hss : ∀ s ∈ ss, I.MayExecute w env s) :
    Keeps I w env (executeProgram (execute depth) ss) (Trace.executeProgram depth ss) (fun _ _ => True) I.MayFail := by
  induction ss generalizing w with
  | nil => exact KeepsQuietly.pure trivial
  | cons s rest ih =>
    obtain ⟨hs, hrest⟩ := List.forall_mem_cons.mp hss
    exact ((keepsAt I depth).execute s hs).bind fun _ hw _ => ih fun s' hs' => I.mayExecute_mono hw (hrest s' hs')

/-- Flushing the output leaves the state alone. -/
theorem endState_flush (m : Interpreter) : endState (Eval.flush m) = m := by
  unfold Eval.flush
  split <;> rfl

/-- Flushing fails only where the output does. -/
theorem Meets.flush {fails : Failure → Prop} (h : ∀ e, fails (.output e)) (m : Interpreter) :
    Meets (fun _ => True) fails (Eval.flush m) := by
  unfold Eval.flush
  split
  · trivial
  · exact h _

/-- A program ends where its statements end, but for the environment, which may be the one of the top level. -/
theorem endState_interpret (depth : Nat) (program : List Stmt) (m : Interpreter) :
    ∃ t env, t = endState (executeProgram (execute depth) program { m with current := m.topLevel }) ∧
      (env = t.current ∨ env = t.topLevel) ∧ endState (interpret depth program m) = { t with current := env } := by
  unfold interpret
  cases hrun : executeProgram (execute depth) program { m with current := m.topLevel } with
  | ok a t =>
    refine ⟨t, t.current, rfl, .inl rfl, ?_⟩
    show endState (Eval.flush t) = t
    rw [endState_flush]
  | error e t =>
    cases e with
    | exhausted => exact ⟨t, t.current, rfl, .inl rfl, rfl⟩
    | failed failure =>
      refine ⟨t, t.topLevel, rfl, .inr rfl, ?_⟩
      have hflush := endState_flush { t with current := t.topLevel }
      dsimp only
      split <;> rename_i hflushed <;> rw [hflushed] at hflush <;> exact hflush

/-- A program fails as its statements do, or because the output cannot be flushed. -/
theorem Meets.interpret {post : Unit → Prop} {fails : Failure → Prop} {depth : Nat} {program : List Stmt}
    {m : Interpreter} (h : Meets post fails (executeProgram (execute depth) program { m with current := m.topLevel }))
    (houtput : ∀ e, fails (.output e)) : Meets (fun _ => True) fails (interpret depth program m) := by
  unfold Lox.interpret
  cases hrun : Lox.executeProgram (execute depth) program { m with current := m.topLevel } with
  | ok a t => exact flush houtput t
  | error e t =>
    rw [hrun] at h
    cases e with
    | exhausted => trivial
    | failed failure =>
      have hflush := flush houtput { t with current := t.topLevel }
      dsimp only
      split <;> rename_i hflushed
      · exact h
      · rwa [hflushed] at hflush

/-- A program keeps an invariant from the top level, wherever the one before it has ended. -/
theorem interpret_keeps {m : Interpreter} (hm : I.Possible w m) (depth : Nat) {program : List Stmt}
    (hprogram : ∀ s ∈ program, I.MayExecute w m.topLevel s) :
    ∃ w', I.Path w (Trace.interpret depth program m) w' ∧ I.Possible w' (endState (interpret depth program m)) ∧
      Meets (fun _ => True) (I.MayFail w') (interpret depth program m) := by
  obtain ⟨-, -, w₁, hw₁, hend, hmeets⟩ := Keeps.executeProgram depth program hprogram
    { m with current := m.topLevel } (hm.entering (I.mayEnter_topLevel hm.holds)) rfl
  have hfails := hmeets.interpret fun _ => I.mayFail_output
  have hended : I.Possible w₁ (endState (interpret depth program m)) := by
    obtain ⟨t, env, rfl, henv, heq⟩ := endState_interpret depth program m
    rw [heq]
    refine hend.entering ?_
    obtain rfl | rfl := henv
    · exact I.mayEnter_current hend.holds
    · exact I.mayEnter_topLevel hend.holds
  obtain ⟨w₂, hw₂, hend₂⟩ := hended.passes Event.ended_ne_taken
  refine ⟨w₂, hw₁.append (.moment hw₂ ⟨hend₂, nofun, nofun, nofun⟩ (.silent (I.leads_refl w₂))), hend₂, ?_⟩
  exact hfails.imp (fun _ _ => trivial) fun _ hfailure => I.mayFail_mono hw₂ hfailure

end Programs

end Lox
