import Lox.Proofs.Simulation.Scopes

/-!
# Related steps

A step of a running program and a step of the reference interpreter are related if, from related states,
they end in the same way, with related results in related states, and the program is back in the
environment it started in. Related steps compose, so that evaluation is compared by going through both
definitions side by side.
-/

set_option autoImplicit false

namespace Lox

/-- The same failure of a run, on its new line. Errors that are found before a run are left as they are. -/
def Failure.relabel (R : Relabeling) : Failure → Failure
  | .runtime e => .runtime ⟨R.line e.line, e.cause⟩
  | failure => failure

/-- The same end of a run, on its new line. -/
def Halt.relabel (R : Relabeling) : Halt → Halt
  | .failed failure => .failed (failure.relabel R)
  | .exhausted => .exhausted

section Logic

variable {α β γ δ : Type} (R : Relabeling) (printed : ByteArray) (frozen : ScopeId) (w : World)
  (env : Environment)

/-- Two steps have ended in the same way, in a larger world that relates their states. -/
def Agrees (post : World → α → β → Prop) :
    EStateM.Result Halt Interpreter α → EStateM.Result Halt Lexical.Machine β → Prop
  | .ok a m, .ok b n =>
    m.current = env ∧ ∃ w', w.Grows frozen w' ∧ Simulation R printed w' m n ∧ post w' a b
  | .error e m, .error e' n =>
    m.current = env ∧ e' = e.relabel R ∧ ∃ w', w.Grows frozen w' ∧ Simulation R printed w' m n
  | _, _ => False

/-- Two steps end in the same way from all related states. -/
def Simulates (step : Eval α) (step' : Lexical.Eval β) (post : World → α → β → Prop) : Prop :=
  ∀ m n, Simulation R printed w m n → m.current = env →
    Agrees R printed frozen w env post (step m) (step' n)

variable {R printed frozen w env} {step : Eval α} {step' : Lexical.Eval β}
  {post : World → α → β → Prop}

/-- Results that agree in a larger world agree in the world itself. -/
theorem Agrees.grow {w' : World} {frozen' : ScopeId} {post' : World → α → β → Prop}
    {result : EStateM.Result Halt Interpreter α} {result' : EStateM.Result Halt Lexical.Machine β}
    (h : Agrees R printed frozen' w' env post result result') (hfrozen : frozen ≤ frozen')
    (hw : w.Grows frozen w')
    (hpost : ∀ w'' a b, w'.Grows frozen' w'' → post w'' a b → post' w'' a b) :
    Agrees R printed frozen w env post' result result' := by
  cases result with
  | ok a m =>
    cases result' with
    | ok b n =>
      obtain ⟨hcurrent, w'', hgrown, hsim, hab⟩ := h
      exact ⟨hcurrent, w'', hw.trans (hgrown.weaken hfrozen), hsim, hpost w'' a b hgrown hab⟩
    | error e' n => exact h.elim
  | error e m =>
    cases result' with
    | ok b n => exact h.elim
    | error e' n =>
      obtain ⟨hcurrent, he, w'', hgrown, hsim⟩ := h
      exact ⟨hcurrent, he, w'', hw.trans (hgrown.weaken hfrozen), hsim⟩

/-- Steps that freeze more scopes freeze fewer, and what is known of their results may be weakened. -/
theorem Simulates.weaken {frozen' : ScopeId} {post' : World → α → β → Prop}
    (h : Simulates R printed frozen' w env step step' post) (hfrozen : frozen ≤ frozen')
    (hpost : ∀ w' a b, w.Grows frozen' w' → post w' a b → post' w' a b) :
    Simulates R printed frozen w env step step' post' :=
  fun m n hsim hcurrent =>
    (h m n hsim hcurrent).grow hfrozen (.refl frozen w) hpost

/-- Two steps that end in the same way also do so where less is asked. -/
theorem Simulates.imp {post' : World → α → β → Prop}
    (h : Simulates R printed frozen w env step step' post)
    (hpost : ∀ w' a b, w.Grows frozen w' → post w' a b → post' w' a b) :
    Simulates R printed frozen w env step step' post' :=
  h.weaken (Nat.le_refl _) hpost

/-- Two steps in a row do the same if each does. -/
theorem Simulates.bind {next : α → Eval γ} {next' : β → Lexical.Eval δ}
    {post' : World → γ → δ → Prop} (h : Simulates R printed frozen w env step step' post)
    (hnext : ∀ w' a b, w.Grows frozen w' → post w' a b →
      Simulates R printed frozen w' env (next a) (next' b) post') :
    Simulates R printed frozen w env (step >>= next) (step' >>= next') post' := by
  intro m n hsim hcurrent
  have hfirst := h m n hsim hcurrent
  show Agrees R printed frozen w env post' (EStateM.bind step next m) (EStateM.bind step' next' n)
  unfold EStateM.bind
  cases hm : step m with
  | ok a m' =>
    cases hn : step' n with
    | ok b n' =>
      rw [hm, hn] at hfirst
      obtain ⟨hcurrent', w', hw, hsim', hab⟩ := hfirst
      exact (hnext w' a b hw hab m' n' hsim' hcurrent').grow (Nat.le_refl _) hw
        (fun _ _ _ _ h => h)
    | error e' n' => rw [hm, hn] at hfirst; exact hfirst.elim
  | error e m' =>
    cases hn : step' n with
    | ok b n' => rw [hm, hn] at hfirst; exact hfirst.elim
    | error e' n' => rw [hm, hn] at hfirst; exact hfirst

/-- A step of the reference interpreter alone. -/
theorem Simulates.after {next' : β → Lexical.Eval δ} {step : Eval γ} {before : World → Unit → β → Prop}
    {post : World → γ → δ → Prop}
    (h : Simulates R printed frozen w env (Pure.pure ()) step' before)
    (hnext : ∀ w' b, w.Grows frozen w' → before w' () b →
      Simulates R printed frozen w' env step (next' b) post) :
    Simulates R printed frozen w env step (step' >>= next') post := by
  have hboth : Simulates R printed frozen w env (Pure.pure () >>= fun _ => step) (step' >>= next')
      post := h.bind fun w' _ b hw hb => hnext w' b hw hb
  exact hboth

/-- Two related values at hand are the results of both steps. -/
theorem Simulates.pure {a : α} {b : β} (h : post w a b) :
    Simulates R printed frozen w env (Pure.pure a) (Pure.pure b) post :=
  fun _ _ hsim hcurrent => ⟨hcurrent, w, .refl frozen w, hsim, h⟩

/-- A step that looks at its own state first may be handed any state of its environment. -/
theorem Simulates.get {next : Interpreter → Eval α}
    (h : ∀ m, m.current = env → Simulates R printed frozen w env (next m) step' post) :
    Simulates R printed frozen w env (MonadState.get >>= next) step' post :=
  fun m n hsim hcurrent => h m hcurrent m n hsim hcurrent

/-- Both stop with an error at the same token. -/
theorem Simulates.fail (token : Token) (cause : RuntimeCause) :
    Simulates R printed frozen w env (Eval.fail token cause) (Eval.fail (token.relabel R) cause)
      post :=
  fun _ _ hsim hcurrent => ⟨hcurrent, rfl, w, .refl frozen w, hsim⟩

/-- Both stop because the depth is used up. -/
theorem Simulates.exhausted :
    Simulates R printed frozen w env Eval.exhausted Eval.exhausted post :=
  fun _ _ hsim hcurrent => ⟨hcurrent, rfl, w, .refl frozen w, hsim⟩

end Logic

section Operators

variable {R : Relabeling} {printed : ByteArray} {frozen : ScopeId} {w : World} {env : Environment}
  {v u : Value} {v' u' : Lexical.Value}

/-- A prefix operator does the same to related values. -/
theorem applyUnary_simulates (operator : Token) (hv : w.Relates R v v') :
    Simulates R printed frozen w env (applyUnary operator v) (applyUnary (operator.relabel R) v')
      (fun w' => w'.Relates R) := by
  unfold applyUnary
  rw [Token.relabel_kind]
  split
  · cases hv with
    | number x => exact .pure (.number _)
    | _ => exact .fail operator _
  · rw [hv.isTruthy]
    exact .pure (.bool _)
  · exact .fail operator _

/-- An operator on two numbers does the same to related values. -/
theorem onNumbers_simulates (operator : Token) (hv : w.Relates R v v') (hu : w.Relates R u u')
    {f : Float → Float → Value} {f' : Float → Float → Lexical.Value}
    (hf : ∀ x y, w.Relates R (f x y) (f' x y)) :
    Simulates R printed frozen w env (onNumbers operator v u f)
      (onNumbers (operator.relabel R) v' u' f') (fun w' => w'.Relates R) := by
  cases hv with
  | number x =>
    cases hu with
    | number y => exact .pure (hf x y)
    | _ => exact .fail operator _
  | _ => exact .fail operator _

/-- A sum does the same to related values. -/
theorem add_simulates (operator : Token) (hv : w.Relates R v v') (hu : w.Relates R u u') :
    Simulates R printed frozen w env (add operator v u) (add (operator.relabel R) v' u')
      (fun w' => w'.Relates R) := by
  cases hv with
  | number x =>
    cases hu with
    | number y => exact .pure (.number _)
    | _ => exact .fail operator _
  | string text =>
    cases hu with
    | string text' => exact .pure (.string _)
    | _ => exact .fail operator _
  | _ => exact .fail operator _

/-- An infix operator does the same to related values. -/
theorem applyBinary_simulates (operator : Token) (hv : w.Relates R v v') (hu : w.Relates R u u') :
    Simulates R printed frozen w env (applyBinary operator v u)
      (applyBinary (operator.relabel R) v' u') (fun w' => w'.Relates R) := by
  unfold applyBinary
  rw [Token.relabel_kind, hv.equals hu]
  split
  · exact add_simulates operator hv hu
  · exact onNumbers_simulates operator hv hu (fun _ _ => .number _)
  · exact onNumbers_simulates operator hv hu (fun _ _ => .number _)
  · exact onNumbers_simulates operator hv hu (fun _ _ => .number _)
  · exact onNumbers_simulates operator hv hu (fun _ _ => .bool _)
  · exact onNumbers_simulates operator hv hu (fun _ _ => .bool _)
  · exact onNumbers_simulates operator hv hu (fun _ _ => .bool _)
  · exact onNumbers_simulates operator hv hu (fun _ _ => .bool _)
  · exact .pure (.bool _)
  · exact .pure (.bool _)
  · exact .fail operator _

/-- Related left operands decide alike. -/
theorem decides_relabel (operator : Token) (hv : w.Relates R v v') :
    decides (operator.relabel R) v' = decides operator v := by
  rw [decides, decides, hv.isTruthy]
  rfl

end Operators

end Lox
