import Lox.Proofs.Renaming.State

/-!
# Steps of a renamed program

Two steps are related if, from related states, they end in the same way, with related results in related
states, and the program is back in the environment it started in. A local name is found because its
distance says whether it was renamed; a global name was not.
-/

set_option autoImplicit false

namespace Lox

namespace Renaming

section Logic

variable {α β γ δ : Type} (r : Renaming) (w : ScopeMarks) (env : Environment)

/-- Two steps have ended in the same way, with related results in related states. -/
def Agrees (post : ScopeMarks → α → β → Prop) :
    EStateM.Result Halt Interpreter α → EStateM.Result Halt Interpreter β → Prop
  | .ok a m, .ok b m' => m.current = env ∧ ∃ w', w <+: w' ∧ r.RelatesState w' m m' ∧ post w' a b
  | .error e m, .error e' m' => m.current = env ∧ e' = e ∧ ∃ w', w <+: w' ∧ r.RelatesState w' m m'
  | _, _ => False

/-- Two steps end in the same way from all related states. -/
def Simulates (step : Eval α) (step' : Eval β) (post : ScopeMarks → α → β → Prop) : Prop :=
  ∀ m m', r.RelatesState w m m' → m.current = env → Agrees r w env post (step m) (step' m')

variable {r w env} {w' : ScopeMarks} {step : Eval α} {step' : Eval β} {post : ScopeMarks → α → β → Prop}

/-- Results that agree when there are more scopes agree. -/
theorem Agrees.grow {result : EStateM.Result Halt Interpreter α}
    {result' : EStateM.Result Halt Interpreter β} (h : Agrees r w' env post result result')
    (hw : w <+: w') : Agrees r w env post result result' := by
  cases result with
  | ok a m =>
    cases result' with
    | ok b m' =>
      obtain ⟨hcurrent, w'', hgrown, hstate, hab⟩ := h
      exact ⟨hcurrent, w'', hw.trans hgrown, hstate, hab⟩
    | error e' m' => exact h.elim
  | error e m =>
    cases result' with
    | ok b m' => exact h.elim
    | error e' m' =>
      obtain ⟨hcurrent, he, w'', hgrown, hstate⟩ := h
      exact ⟨hcurrent, he, w'', hw.trans hgrown, hstate⟩

/-- Two steps in a row do the same if each does. -/
theorem Simulates.bind {next : α → Eval γ} {next' : β → Eval δ} {post' : ScopeMarks → γ → δ → Prop}
    (h : Simulates r w env step step' post)
    (hnext : ∀ w' a b, w <+: w' → post w' a b → Simulates r w' env (next a) (next' b) post') :
    Simulates r w env (step >>= next) (step' >>= next') post' := by
  intro m m' hstate hcurrent
  have hfirst := h m m' hstate hcurrent
  show Agrees r w env post' (EStateM.bind step next m) (EStateM.bind step' next' m')
  unfold EStateM.bind
  generalize step m = result, step' m' = result' at hfirst ⊢
  cases result with
  | ok a m₁ =>
    cases result' with
    | ok b m₁' =>
      obtain ⟨hcurrent', w', hw, hstate', hab⟩ := hfirst
      exact (hnext w' a b hw hab m₁ m₁' hstate' hcurrent').grow hw
    | error e' m₁' => exact hfirst.elim
  | error e m₁ =>
    cases result' with
    | ok b m₁' => exact hfirst.elim
    | error e' m₁' => exact hfirst

/-- Two related values at hand are the results of both steps. -/
theorem Simulates.pure {a : α} {b : β} (h : post w a b) :
    Simulates r w env (Pure.pure a) (Pure.pure b) post :=
  fun _ _ hstate hcurrent => ⟨hcurrent, w, List.prefix_refl _, hstate, h⟩

/-- Steps that look at their own states first, which are related. -/
theorem Simulates.get {next : Interpreter → Eval α} {next' : Interpreter → Eval β}
    (h : ∀ m m', r.RelatesState w m m' → m.current = env →
      Simulates r w env (next m) (next' m') post) :
    Simulates r w env (MonadState.get >>= next) (MonadState.get >>= next') post :=
  fun m m' hstate hcurrent => h m m' hstate hcurrent m m' hstate hcurrent

/-- Both stop with an error in the same line. -/
theorem Simulates.fail {token token' : Token} (hline : token'.line = token.line) (cause : RuntimeCause) :
    Simulates r w env (Eval.fail token cause) (Eval.fail token' cause) post :=
  fun _ _ hstate hcurrent => ⟨hcurrent, by rw [hline], w, List.prefix_refl _, hstate⟩

/-- Both stop because the depth is used up. -/
theorem Simulates.exhausted : Simulates r w env Eval.exhausted Eval.exhausted post :=
  fun _ _ hstate hcurrent => ⟨hcurrent, rfl, w, List.prefix_refl _, hstate⟩

/-- Steps do the same in a new scope if they do so inside it, with the same mark. -/
theorem Simulates.enclosed {captured : Environment} {marked : Bool}
    {names names' : Bindings Value} (hnames : r.RelatesTable w marked names names')
    (h : Simulates r (w ++ [marked]) (.child w.length captured) step step' post) :
    Simulates r w env (do let inner ← Eval.enclose captured names; Eval.within inner step)
      (do let inner ← Eval.enclose captured names'; Eval.within inner step') post := by
  intro m m' hstate hcurrent
  have hw : w <+: w ++ [marked] := List.prefix_append _ _
  obtain ⟨s', rfl⟩ := hstate.eq_store
  have hinner := h _ _ ((hstate.withStore hw (hstate.store.addScope hnames)).within _) rfl
  have hstart (n : Interpreter) (hn : n.store.scopes.size = w.length) (values : Bindings Value)
      {ε : Type} (inside : Eval ε) :
      (Eval.enclose captured values >>= fun inner => Eval.within inner inside) n =
        Eval.within (.child w.length captured) inside { n with store := (n.store.addScope values).2 } := by
    rw [← hn]
    rfl
  rw [hstart m hstate.store.size, hstart { m with store := s' } hstate.store.size']
  unfold Eval.within
  generalize step { m with store := (m.store.addScope names).2, current := .child w.length captured } =
    result, step' { m with store := (s'.addScope names').2, current := .child w.length captured } =
    result' at hinner ⊢
  have hback := hinner.grow hw
  cases result with
  | ok a m₁ =>
    cases result' with
    | ok b m₁' =>
      obtain ⟨-, w', hgrown, hstate', hpost⟩ := hback
      exact ⟨hcurrent, w', hgrown, hstate'.within _, hpost⟩
    | error e' m₁' => exact hback
  | error e m₁ =>
    cases result' with
    | ok b m₁' => exact hback
    | error e' m₁' =>
      obtain ⟨-, he, w', hgrown, hstate'⟩ := hback
      exact ⟨hcurrent, he, w', hgrown, hstate'.within _⟩

end Logic

section Steps

variable {r : Renaming} {w : ScopeMarks} {marks : Marks} {env : Environment} {v v' u u' : Value}

/-- A use of a name yields related values, also where it is renamed. -/
theorem lookUp_simulates (hlead : w.Lead marks env) (id : Occurrence) {name : Token}
    (hname : name.lexeme ≠ r.new) :
    Simulates r w env (Eval.lookUp id name) (Eval.lookUp id (r.use marks id name))
      (fun w' => r.Relates w') := by
  intro m m' hstate hcurrent
  obtain ⟨s', rfl⟩ := hstate.eq_store
  rw [← hcurrent] at hlead
  rw [Renaming.use, ← hstate.distances]
  cases hdistance : m.distances.get? id with
  | some distance =>
    have hvalue := hstate.store.getAt hlead distance name.lexeme
    rw [← r.token_lexeme _ hname] at hvalue
    rw [Eval.lookUp_local hdistance, Eval.lookUp_local (m := { m with store := s' }) hdistance]
    exact ⟨hcurrent, w, List.prefix_refl _, hstate, hvalue⟩
  | none =>
    have hvalue := hstate.store.get? hstate.topLevel name.lexeme
    rw [Eval.lookUp_global hdistance, Eval.lookUp_global (m := { m with store := s' }) hdistance,
      Option.any_none, r.token_false]
    dsimp only at hvalue ⊢
    generalize m.topLevel.get? m.store name.lexeme = v?, m.topLevel.get? s' name.lexeme = v'?
      at hvalue ⊢
    cases hvalue with
    | some hv => exact ⟨hcurrent, w, List.prefix_refl _, hstate, hv⟩
    | none => exact Simulates.fail rfl _ m _ hstate hcurrent

/-- `this` is not renamed. -/
theorem lookUp_this_simulates (hthis : r.SparesThis) (hlead : w.Lead marks env) (id : Occurrence)
    {name : Token} (hname : name.lexeme = thisName) :
    Simulates r w env (Eval.lookUp id name) (Eval.lookUp id name) (fun w' => r.Relates w') := by
  have hkeeps (marked : Bool) : r.Keeps marked name :=
    ⟨hname ▸ hthis.2.symm, fun _ => hname ▸ hthis.1.symm⟩
  have hlookUp := lookUp_simulates hlead id (hkeeps false).1
  rwa [Renaming.use, (hkeeps _).token] at hlookUp

/-- An assignment to a name leads to related states, also where it is renamed. -/
theorem assign_simulates (hlead : w.Lead marks env) (id : Occurrence) {name : Token}
    (hname : name.lexeme ≠ r.new) (hv : r.Relates w v v') :
    Simulates r w env (Eval.assign id name v) (Eval.assign id (r.use marks id name) v')
      (fun _ _ _ => True) := by
  intro m m' hstate hcurrent
  obtain ⟨s', rfl⟩ := hstate.eq_store
  rw [← hcurrent] at hlead
  rw [Renaming.use, ← hstate.distances]
  cases hdistance : m.distances.get? id with
  | some distance =>
    have hstore := hstate.store.define (hlead distance) name.lexeme hv
    rw [← r.token_lexeme _ hname] at hstore
    rw [Eval.assign_local hdistance, Eval.assign_local (m := { m with store := s' }) hdistance]
    exact ⟨hcurrent, w, List.prefix_refl _, hstate.withStore (List.prefix_refl _) hstore, trivial⟩
  | none =>
    have hholder' := hstate.store.holder? hstate.topLevel name.lexeme
    rw [Eval.assign_global hdistance, Eval.assign_global (m := { m with store := s' }) hdistance,
      Option.any_none, r.token_false, hholder']
    cases hholder : m.topLevel.holder? m.store name.lexeme with
    | none => exact Simulates.fail rfl _ m _ hstate hcurrent
    | some scope =>
      have hscope : w[scope]? = some false := by
        obtain ⟨distance, rfl⟩ := Environment.holder?_eq_some hholder
        exact hstate.topLevel distance
      exact ⟨hcurrent, w, List.prefix_refl _, hstate.withStore (List.prefix_refl _)
        (hstate.store.define hscope name.lexeme hv), trivial⟩

/-- A name is defined in the current scope, also where it is renamed. -/
theorem define_simulates (hlead : w.Lead marks env) (x : String) (hv : r.Relates w v v') :
    Simulates r w env (Eval.define x v) (Eval.define (r.key (marks 0) x) v') (fun _ _ _ => True) := by
  intro m m' hstate hcurrent
  obtain ⟨s', rfl⟩ := hstate.eq_store
  have hscope := hlead 0
  rw [← hcurrent, Environment.ancestor_zero] at hscope
  exact ⟨hcurrent, w, List.prefix_refl _,
    hstate.withStore (List.prefix_refl _) (hstate.store.define hscope x hv), trivial⟩

/-- Both create the same function. -/
theorem newClosure_simulates (around : Marks → Marks) {d d' : FunctionDecl} {captured : Environment}
    (hlead : w.Lead marks captured) (halike : FunctionDecl.Alike r (around marks) d d')
    (isInitializer : Bool) :
    Simulates r w env (Eval.newClosure d captured isInitializer) (Eval.newClosure d' captured isInitializer)
      (fun w' => r.RelatesCode w' around) := by
  intro m m' hstate hcurrent
  refine ⟨hcurrent, w, List.prefix_refl _,
    hstate.withStore (List.prefix_refl _) hstate.store.newIdentity, ?_, rfl, rfl, marks, hlead, halike⟩
  exact hstate.store.created

/-- Both create the same class. -/
theorem newClass_simulates (name : String) {methods methods' : Bindings Closure}
    (hmethods : ∀ x, Option.Rel (r.RelatesMethod w) (methods.get? x) (methods'.get? x)) :
    Simulates r w env (Eval.newClass name methods) (Eval.newClass name methods')
      (fun w' => r.RelatesClass w') := by
  intro m m' hstate hcurrent
  exact ⟨hcurrent, w, List.prefix_refl _, hstate.withStore (List.prefix_refl _) hstate.store.newIdentity,
    hstate.store.created, rfl, hmethods⟩

/-- Both create the same instance. -/
theorem newInstance_simulates {c c' : ClassValue} (hc : r.RelatesClass w c c') :
    Simulates r w env (Eval.newInstance c) (Eval.newInstance c') (fun w' => r.RelatesInstance w') := by
  intro m m' hstate hcurrent
  exact ⟨hcurrent, w, List.prefix_refl _,
    hstate.withStore (List.prefix_refl _) (hstate.store.addInstance c c'), hstate.store.instances, hc⟩

/-- Both close the same methods. -/
theorem closeMethods_simulates {ds ds' : List FunctionDecl} (hlead : w.Lead marks env)
    (halike : FunctionDecl.AllAlike r (marks.enter false) ds ds') {methods methods' : Bindings Closure}
    (hmethods : ∀ x, Option.Rel (r.RelatesMethod w) (methods.get? x) (methods'.get? x)) :
    Simulates r w env (closeMethods ds methods) (closeMethods ds' methods')
      (fun w' c c' => ∀ x, Option.Rel (r.RelatesMethod w') (c.get? x) (c'.get? x)) := by
  induction ds generalizing w ds' methods methods' with
  | nil =>
    cases halike
    exact .pure hmethods
  | cons d rest ih =>
    cases halike with
    | cons hd hrest =>
      refine .get fun m m' hstate hcurrent => ?_
      obtain ⟨s', rfl⟩ := hstate.eq_store
      rw [hd.isInitializer_eq, hd.name_eq]
      refine (newClosure_simulates (·.enter false) (hcurrent ▸ hlead) hd _).bind fun w₁ c c' hw hc => ?_
      refine ih (hlead.mono hw) hrest fun x => ?_
      rw [Bindings.get?_put, Bindings.get?_put]
      split
      · exact .some hc
      · exact relatesMethods_mono hmethods hw x

/-- A method is bound to an instance by a scope of its own, in which nothing is renamed. -/
theorem bindMethod_simulates {c c' : Closure} (hc : r.RelatesMethod w c c')
    {i i' : Instance} (hi : r.RelatesInstance w i i') :
    Simulates r w env (Eval.bindMethod c i) (Eval.bindMethod c' i') (fun w' => r.RelatesFunction w') := by
  intro m m' hstate hcurrent
  obtain ⟨marks, hlead, halike⟩ := hc.alike
  have hw : w <+: w ++ [false] := List.prefix_append _ _
  have hstore := hstate.store.addScope ((relatesTable_nil false).put (.instance hi) thisName)
  have hstart (n : Interpreter) (hn : n.store.scopes.size = w.length) (method : Closure) (j : Instance) :
      Eval.bindMethod method j n =
        Eval.newClosure method.declaration (.child w.length method.environment) method.isInitializer
          { n with store := (n.store.addScope [(thisName, .instance j)]).2 } := by
    rw [← hn]
    rfl
  rw [hstart m hstate.store.size, hstart m' hstate.store.size', hc.environment, hc.isInitializer]
  exact (newClosure_simulates id (hlead.child false) halike _ _ _
    (hstate.withStore hw hstore) hcurrent).grow hw

/-- Both find the same property. -/
theorem property_simulates {i i' : Instance} (hi : r.RelatesInstance w i i')
    (name : Token) :
    Simulates r w env (Eval.property i name) (Eval.property i' name) (fun w' => r.Relates w') := by
  refine .get fun m m' hstate hcurrent => ?_
  have hfield : Option.Rel (r.Relates w) (m.store.field? i name.lexeme) (m'.store.field? i' name.lexeme) := by
    rw [Store.field?, Store.field?, hi.identity]
    exact hstate.store.fields i.identity name.lexeme
  have hmethod := hi.blueprint.methods name.lexeme
  generalize m.store.field? i name.lexeme = v?, m'.store.field? i' name.lexeme = v'? at hfield ⊢
  cases hfield with
  | some hv => exact .pure hv
  | none =>
    dsimp only
    generalize i.blueprint.methods.get? name.lexeme = c?, i'.blueprint.methods.get? name.lexeme = c'?
      at hmethod ⊢
    cases hmethod with
    | some hc => exact (bindMethod_simulates hc hi).bind fun w' b b' _ hb => .pure (.function hb)
    | none => exact .fail rfl _

/-- Both set the same field. -/
theorem setField_simulates {i i' : Instance} (hi : r.RelatesInstance w i i') (x : String)
    (hv : r.Relates w v v') :
    Simulates r w env (Eval.setField i x v) (Eval.setField i' x v') (fun _ _ _ => True) :=
  fun _ _ hstate hcurrent => ⟨hcurrent, w, List.prefix_refl _,
    hstate.withStore (List.prefix_refl _) (hstate.store.setField hi x hv), trivial⟩

/-- Both print the same line. -/
theorem printLine_simulates (text : String) :
    Simulates r w env (Eval.printLine text) (Eval.printLine text) (fun _ _ _ => True) := by
  intro m m' hstate hcurrent
  obtain ⟨s', rfl⟩ := hstate.eq_store
  unfold Eval.printLine
  generalize m.output.write (text ++ "\n") = result
  obtain ⟨output, e⟩ := result
  have hstate' : r.RelatesState w { m with output } { m with store := s', output } :=
    { hstate with rest := rfl }
  cases e with
  | none => exact ⟨hcurrent, w, List.prefix_refl _, hstate', trivial⟩
  | some e => exact ⟨hcurrent, rfl, w, List.prefix_refl _, hstate'⟩

/-- Both read the same clock. -/
theorem readClock_simulates :
    Simulates r w env Eval.readClock Eval.readClock (fun w' => r.Relates w') := by
  intro m m' hstate hcurrent
  obtain ⟨s', rfl⟩ := hstate.eq_store
  exact ⟨hcurrent, w, List.prefix_refl _, { hstate with rest := rfl }, .number _⟩

/-- Both flush the same output. -/
theorem flush_simulates : Simulates r w env Eval.flush Eval.flush (fun _ _ _ => True) := by
  intro m m' hstate hcurrent
  obtain ⟨s', rfl⟩ := hstate.eq_store
  unfold Eval.flush
  cases m.output.flush with
  | none => exact ⟨hcurrent, w, List.prefix_refl _, hstate, trivial⟩
  | some e => exact ⟨hcurrent, rfl, w, List.prefix_refl _, hstate⟩

end Steps

section Operators

variable {r : Renaming} {w : ScopeMarks} {env : Environment} {v v' u u' : Value}

/-- A prefix operator does the same to related values. -/
theorem applyUnary_simulates (operator : Token) (hv : r.Relates w v v') :
    Simulates r w env (applyUnary operator v) (applyUnary operator v') (fun w' => r.Relates w') := by
  unfold applyUnary
  split
  · cases hv with
    | number x => exact .pure (.number _)
    | _ => exact .fail rfl _
  · rw [hv.isTruthy]
    exact .pure (.bool _)
  · exact .fail rfl _

/-- An operator on two numbers does the same to related values. -/
theorem onNumbers_simulates (operator : Token) (hv : r.Relates w v v') (hu : r.Relates w u u')
    {f : Float → Float → Value} (hf : ∀ x y, r.Relates w (f x y) (f x y)) :
    Simulates r w env (onNumbers operator v u f) (onNumbers operator v' u' f)
      (fun w' => r.Relates w') := by
  cases hv with
  | number x =>
    cases hu with
    | number y => exact .pure (hf x y)
    | _ => exact .fail rfl _
  | _ => exact .fail rfl _

/-- A sum does the same to related values. -/
theorem add_simulates (operator : Token) (hv : r.Relates w v v') (hu : r.Relates w u u') :
    Simulates r w env (add operator v u) (add operator v' u') (fun w' => r.Relates w') := by
  cases hv with
  | number x =>
    cases hu with
    | number y => exact .pure (.number _)
    | _ => exact .fail rfl _
  | string text =>
    cases hu with
    | string text' => exact .pure (.string _)
    | _ => exact .fail rfl _
  | _ => exact .fail rfl _

/-- An infix operator does the same to related values. -/
theorem applyBinary_simulates (operator : Token) (hv : r.Relates w v v') (hu : r.Relates w u u') :
    Simulates r w env (applyBinary operator v u) (applyBinary operator v' u')
      (fun w' => r.Relates w') := by
  unfold applyBinary
  rw [hv.equals hu]
  split
  · exact add_simulates operator hv hu
  · exact onNumbers_simulates operator hv hu (fun _ _ => .number _)
  · exact onNumbers_simulates operator hv hu (fun _ _ => .number _)
  · exact onNumbers_simulates operator hv hu (fun _ _ => .number _)
  · exact onNumbers_simulates operator hv hu (fun _ _ => .bool _)
  · exact onNumbers_simulates operator hv hu (fun _ _ => .bool _)
  · exact onNumbers_simulates operator hv hu (fun _ _ => .bool _)
  · exact onNumbers_simulates operator hv hu (fun _ _ => .bool _)
  · exact .pure (.bool _)
  · exact .pure (.bool _)
  · exact .fail rfl _

/-- Related left operands decide alike. -/
theorem Relates.decides (operator : Token) (hv : r.Relates w v v') :
    Lox.decides operator v' = Lox.decides operator v := by
  rw [Lox.decides, Lox.decides, hv.isTruthy]

end Operators

end Renaming

end Lox
