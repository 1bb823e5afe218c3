import Mathlib.Data.List.Forall2
import Lox.Proofs.Renaming.Steps

/-!
# Evaluation of a renamed program

A tree and a tree that is like it do the same, in scopes that declare the variable where the trees say so.
The proof is by induction on the allotted depth and goes through the two trees side by side; the marks of
the open scopes lead from the place where a function was declared into its body.
-/

set_option autoImplicit false

namespace Lox

namespace Renaming

variable {r : Renaming} {w w' : ScopeMarks} {marks : Marks} {env : Environment}

/-- A way to evaluate yields the same for all expressions with the variable renamed. -/
def Evaluates (r : Renaming) (evaluate : Expr → Eval Value) : Prop :=
  ∀ (e : Expr) {w : ScopeMarks} {marks : Marks} {env : Environment}, w.Lead marks env → e.Clear r →
    Simulates r w env (evaluate e) (evaluate (e.rename r marks)) (fun w' => r.Relates w')

/-- A way to run statements does the same for all statements that are alike. -/
def Executes (r : Renaming) (execute : Stmt → Eval Flow) : Prop :=
  ∀ {s s' : Stmt} {w : ScopeMarks} {marks : Marks} {env : Environment}, w.Lead marks env →
    Stmt.Alike r marks s s' → Simulates r w env (execute s) (execute s') (fun w' => r.RelatesFlow w')

/-- A way to call values does the same for related values. -/
def Applies (r : Renaming) (apply : Value → List Value → Eval Value) : Prop :=
  ∀ {w : ScopeMarks} {env : Environment} {f f' : Value} {arguments arguments' : List Value},
    r.Relates w f f' → List.Forall₂ (r.Relates w) arguments arguments' →
    Simulates r w env (apply f arguments) (apply f' arguments') (fun w' => r.Relates w')

section Parts

variable {execute : Stmt → Eval Flow} {evaluate : Expr → Eval Value}

/-- Expressions have related values under the other names, one after the other. -/
theorem evaluateAll_simulates (hevaluate : Evaluates r evaluate) {es : List Expr}
    (hlead : w.Lead marks env) (hclear : Expr.AllClear r es) :
    Simulates r w env (evaluateAll evaluate es) (evaluateAll evaluate (Expr.renameAll r marks es))
      (fun w' => List.Forall₂ (r.Relates w')) := by
  induction es generalizing w with
  | nil => exact .pure .nil
  | cons e rest ih =>
    refine (hevaluate e hlead hclear.1).bind fun w₁ v v' hw₁ hv => ?_
    refine (ih (hlead.mono hw₁) hclear.2).bind fun w₂ vs vs' hw₂ hvs => ?_
    exact .pure (.cons (hv.mono hw₂) hvs)

/-- Statements that are alike end in the same way, one after the other. -/
theorem executeAll_simulates (hexecute : Executes r execute) {ss ss' : List Stmt}
    (hlead : w.Lead marks env) (halike : Stmt.AllAlike r marks ss ss') :
    Simulates r w env (executeAll execute ss) (executeAll execute ss')
      (fun w' => r.RelatesFlow w') := by
  induction ss generalizing w ss' with
  | nil =>
    cases halike
    exact .pure .normal
  | cons s rest ih =>
    cases halike with
    | cons hs hrest =>
      refine (hexecute hlead hs).bind fun w₁ flow flow' hw₁ hflow => ?_
      cases hflow with
      | normal => exact ih (hlead.mono hw₁) hrest
      | returned hv => exact .pure (.returned hv)

/-- Functions run alike: their parameters and their body are in a scope with the mark of the function. -/
theorem invoke_simulates (hthis : r.SparesThis) (hexecute : Executes r execute) {c c' : Closure}
    (hc : r.RelatesFunction w c c') {arguments arguments' : List Value}
    (harguments : List.Forall₂ (r.Relates w) arguments arguments') :
    Simulates r w env (invoke execute c arguments) (invoke execute c' arguments')
      (fun w' => r.Relates w') := by
  obtain ⟨identity, declaration, captured, isInitializer⟩ := c
  obtain ⟨identity', declaration', captured', isInitializer'⟩ := c'
  obtain ⟨-, henvironment, hinitializer, marks, hlead, halike⟩ := hc
  dsimp only [id] at henvironment hinitializer hlead halike
  subst henvironment hinitializer
  cases halike with
  | mk hparams hbody =>
    simp only [invoke, ← bind_assoc]
    refine (Simulates.enclosed (.parameters hparams harguments)
      (executeAll_simulates hexecute (hlead.child _) hbody)).bind fun w₁ flow flow' hw₁ hflow => ?_
    cases isInitializer' with
    | false =>
      cases hflow with
      | normal => exact .pure .nil
      | returned hv => exact .pure hv
    | true =>
      refine .get fun m m' hstate _ => .pure ?_
      have hvalue := hstate.store.getAt (hlead.mono hw₁) 0 thisName
      rwa [r.key_of_ne (fun _ => hthis.1.symm) hthis.2.symm] at hvalue

end Parts

variable {depth : Nat}

/-- Expressions do the same under the other names if their parts and calls do. -/
theorem evaluate_simulates (hthis : r.SparesThis) (hevaluate : Evaluates r (evaluate depth))
    (happly : Applies r (apply depth)) : Evaluates r (evaluate (depth + 1)) := by
  intro e w marks env hlead hclear
  cases e with
  | literal value => exact .pure (.ofLiteral value)
  | grouping inner => exact hevaluate inner hlead hclear
  | unary operator right =>
    exact (hevaluate right hlead hclear).bind fun w₁ v v' _ hv => applyUnary_simulates operator hv
  | binary left operator right =>
    refine (hevaluate left hlead hclear.1).bind fun w₁ a a' hw₁ ha => ?_
    refine (hevaluate right (hlead.mono hw₁) hclear.2).bind fun w₂ b b' hw₂ hb => ?_
    exact applyBinary_simulates operator (ha.mono hw₂) hb
  | logical left operator right =>
    refine (hevaluate left hlead hclear.1).bind fun w₁ a a' hw₁ ha => ?_
    rw [ha.decides operator]
    split
    · exact .pure ha
    · exact hevaluate right (hlead.mono hw₁) hclear.2
  | «variable» id name => exact lookUp_simulates hlead id hclear
  | assign id name value =>
    refine (hevaluate value hlead hclear.2).bind fun w₁ v v' hw₁ hv => ?_
    refine (assign_simulates (hlead.mono hw₁) id hclear.1 hv).bind fun w₂ _ _ hw₂ _ => ?_
    exact .pure (hv.mono hw₂)
  | call callee paren arguments =>
    refine (hevaluate callee hlead hclear.1).bind fun w₁ f f' hw₁ hf => ?_
    refine (evaluateAll_simulates hevaluate (hlead.mono hw₁) hclear.2).bind fun w₂ vs vs' hw₂ hvs => ?_
    rw [hf.arity?, ← hvs.length_eq]
    cases f.arity? with
    | none => exact .fail rfl _
    | some arity =>
      dsimp only
      split
      · exact .fail rfl _
      · exact happly (hf.mono hw₂) hvs
  | get object name =>
    refine (hevaluate object hlead hclear).bind fun w₁ v v' hw₁ hv => ?_
    cases hv with
    | «instance» hi => exact property_simulates hi name
    | _ => exact .fail rfl _
  | set object name value =>
    refine (hevaluate object hlead hclear.1).bind fun w₁ v v' hw₁ hv => ?_
    cases hv with
    | «instance» hi =>
      refine (hevaluate value (hlead.mono hw₁) hclear.2).bind fun w₂ u u' hw₂ hu => ?_
      refine (setField_simulates (hi.mono hw₂) name.lexeme hu).bind fun w₃ _ _ hw₃ _ => ?_
      exact .pure (hu.mono hw₃)
    | _ => exact .fail rfl _
  | this id keyword => exact lookUp_this_simulates hthis hlead id hclear

/-- Statements that are alike do the same if their parts do. -/
theorem execute_simulates (hevaluate : Evaluates r (evaluate depth)) (hexecute : Executes r (execute depth)) :
    Executes r (execute (depth + 1)) := by
  intro s s' w marks env hlead halike
  cases halike with
  | @expression _ e hclear =>
    exact (hevaluate e hlead hclear).bind fun w₁ v v' _ _ => .pure .normal
  | @print _ e hclear =>
    refine (hevaluate e hlead hclear).bind fun w₁ v v' _ hv => ?_
    rw [hv.text]
    exact (printLine_simulates _).bind fun _ _ _ _ _ => .pure .normal
  | @«variable» _ name initial hname hinitial =>
    have hdefine {w₁ : ScopeMarks} {v v' : Value} (hw₁ : w <+: w₁) (hv : r.Relates w₁ v v') :
        Simulates r w₁ env (do Eval.define name.lexeme v; return FlowOver.normal)
          (do Eval.define (r.token (marks 0) name).lexeme v'; return FlowOver.normal)
          (fun w' => r.RelatesFlow w') := by
      rw [r.token_lexeme _ hname]
      exact (define_simulates (hlead.mono hw₁) name.lexeme hv).bind fun _ _ _ _ _ => .pure .normal
    cases initial with
    | some e =>
      exact (hevaluate e hlead (hinitial e rfl)).bind fun w₁ v v' hw₁ hv => hdefine hw₁ hv
    | none => exact hdefine (List.prefix_refl _) .nil
  | @block _ marked body body' hbody =>
    refine .get fun m m' hstate hcurrent => ?_
    obtain ⟨s', rfl⟩ := hstate.eq_store
    subst hcurrent
    exact .enclosed (relatesTable_nil marked) (executeAll_simulates hexecute (hlead.child marked) hbody)
  | @conditional _ condition _ _ hclear hthen =>
    refine (hevaluate condition hlead hclear).bind fun w₁ v v' hw₁ hv => ?_
    rw [hv.isTruthy]
    split
    · exact hexecute (hlead.mono hw₁) hthen
    · exact .pure .normal
  | @conditionalElse _ condition _ _ _ _ hclear hthen helse =>
    refine (hevaluate condition hlead hclear).bind fun w₁ v v' hw₁ hv => ?_
    rw [hv.isTruthy]
    split
    · exact hexecute (hlead.mono hw₁) hthen
    · exact hexecute (hlead.mono hw₁) helse
  | @loop _ condition _ _ hclear hbody =>
    refine (hevaluate condition hlead hclear).bind fun w₁ v v' hw₁ hv => ?_
    rw [hv.isTruthy]
    split
    · refine (hexecute (hlead.mono hw₁) hbody).bind fun w₂ flow flow' hw₂ hflow => ?_
      cases hflow with
      | normal => exact hexecute (hlead.mono (hw₁.trans hw₂)) (.loop hclear hbody)
      | returned hv => exact .pure (.returned hv)
    · exact .pure .normal
  | @function _ d d' hname hd =>
    refine .get fun m m' hstate hcurrent => ?_
    obtain ⟨s', rfl⟩ := hstate.eq_store
    rw [hd.name_eq]
    refine (newClosure_simulates id (hcurrent ▸ hlead) hd _).bind fun w₁ c c' hw₁ hc => ?_
    have hdefine := define_simulates (hlead.mono hw₁) d.name.lexeme (.function hc)
    rw [hname.key] at hdefine
    exact hdefine.bind fun _ _ _ _ _ => .pure .normal
  | @«return» _ keyword value hvalue =>
    cases value with
    | some e =>
      exact (hevaluate e hlead (hvalue e rfl)).bind fun w₁ v v' _ hv => .pure (.returned hv)
    | none => exact .pure (.returned .nil)
  | @«class» _ name methods methods' hname hmethods =>
    refine (closeMethods_simulates hlead hmethods fun _ => .none).bind fun w₁ c c' hw₁ hclosed => ?_
    refine (newClass_simulates name.lexeme hclosed).bind fun w₂ c c' hw₂ hc => ?_
    have hdefine := define_simulates (hlead.mono (hw₁.trans hw₂)) name.lexeme (.class hc)
    rw [hname.key] at hdefine
    exact hdefine.bind fun _ _ _ _ _ => .pure .normal

/-- Calls of related values do the same if statements that are alike do. -/
theorem apply_simulates (hthis : r.SparesThis) (hexecute : Executes r (execute depth)) :
    Applies r (apply (depth + 1)) := by
  intro w env f f' arguments arguments' hf harguments
  cases hf with
  | clock => exact readClock_simulates
  | function hc => exact invoke_simulates hthis hexecute hc harguments
  | @«class» c c' hc =>
    refine (newInstance_simulates hc).bind fun w₁ i i' hw₁ hi => ?_
    have hmethod := relatesMethods_mono hc.methods hw₁ initializerName
    unfold ClassOver.initializer?
    generalize c.methods.get? initializerName = method, c'.methods.get? initializerName = method'
      at hmethod ⊢
    cases hmethod with
    | none => exact .pure (.instance hi)
    | some hm =>
      refine (bindMethod_simulates hm hi).bind fun w₂ b b' hw₂ hb => ?_
      refine (invoke_simulates hthis hexecute hb (harguments.imp fun _ _ hv =>
        hv.mono (hw₁.trans hw₂))).bind fun w₃ _ _ hw₃ _ => ?_
      exact .pure (.instance (hi.mono (hw₂.trans hw₃)))
  | _ => exact .pure .nil

/-- What holds of evaluation at a depth. -/
structure Agreement (r : Renaming) (depth : Nat) : Prop where
  evaluate : Evaluates r (evaluate depth)
  execute : Executes r (execute depth)
  apply : Applies r (apply depth)

/-- Evaluation does the same with a variable renamed. -/
theorem agreement (hthis : r.SparesThis) (depth : Nat) : Agreement r depth := by
  induction depth with
  | zero => exact ⟨fun _ _ _ _ _ _ => .exhausted, fun _ _ => .exhausted, fun _ _ => .exhausted⟩
  | succ depth ih =>
    exact ⟨evaluate_simulates hthis ih.evaluate ih.apply, execute_simulates ih.evaluate ih.execute,
      apply_simulates hthis ih.execute⟩

/-- Top-level statements do the same. -/
theorem executeProgram_simulates (hthis : r.SparesThis) (depth : Nat) {ss ss' : List Stmt}
    (hlead : w.Lead .none env) (halike : Stmt.AllAlike r .none ss ss') :
    Simulates r w env (executeProgram (execute depth) ss) (executeProgram (execute depth) ss')
      (fun _ _ _ => True) := by
  induction ss generalizing w ss' with
  | nil =>
    cases halike
    exact .pure trivial
  | cons s rest ih =>
    cases halike with
    | cons hs hrest =>
      exact ((agreement hthis depth).execute hlead hs).bind fun w₁ _ _ hw₁ _ => ih (hlead.mono hw₁) hrest

/-- Programs do the same, and end in the same way. -/
theorem interpret_agrees (hthis : r.SparesThis) (depth : Nat) {program program' : List Stmt}
    (halike : Stmt.AllAlike r .none program program') {m m' : Interpreter} (h : r.RelatesState w m m') :
    ∃ env, Agrees r w env (fun _ _ _ => True) (interpret depth program m) (interpret depth program' m') := by
  obtain ⟨s', rfl⟩ := h.eq_store
  have hrun := executeProgram_simulates hthis depth h.topLevel halike _ _ (h.within m.topLevel) rfl
  unfold interpret
  dsimp only at hrun ⊢
  generalize executeProgram (execute depth) program { m with current := m.topLevel } = result,
    executeProgram (execute depth) program' { m with store := s', current := m.topLevel } = result'
    at hrun ⊢
  cases result with
  | ok a n =>
    cases result' with
    | error e' n' => exact hrun.elim
    | ok b n' =>
      obtain ⟨hcurrent, w', hw, hstate, -⟩ := hrun
      exact ⟨_, (flush_simulates n n' hstate hcurrent).grow hw⟩
  | error e n =>
    cases result' with
    | ok b n' => exact hrun.elim
    | error e' n' =>
      obtain ⟨hcurrent, rfl, w', hw, hstate⟩ := hrun
      obtain ⟨s'', rfl⟩ := hstate.eq_store
      have hflushed := (flush_simulates _ _ (hstate.within n.topLevel) rfl).grow hw
      cases e' with
      | exhausted => exact ⟨_, hcurrent, rfl, w', hw, hstate⟩
      | failed failure =>
        dsimp only at hflushed ⊢
        generalize Eval.flush { n with current := n.topLevel } = flushed,
          Eval.flush { n with store := s'', current := n.topLevel } = flushed' at hflushed ⊢
        cases flushed with
        | ok _ t =>
          cases flushed' with
          | ok _ t' =>
            obtain ⟨hcurrent, w'', hw', hstate', -⟩ := hflushed
            exact ⟨_, hcurrent, rfl, w'', hw', hstate'⟩
          | error _ _ => exact hflushed.elim
        | error _ t =>
          cases flushed' with
          | ok _ _ => exact hflushed.elim
          | error _ t' => exact ⟨_, hflushed⟩

end Renaming

end Lox
