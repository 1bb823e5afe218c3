import Mathlib.Data.List.Basic
import Lox.Proofs.Methods.Stage
import Lox.Proofs.Traces.Evaluation

/-!
# Evaluation keeps methods and their instances

What is known of methods at a stage is an invariant. Expressions and statements may be evaluated where they are
placed, and functions run in the environment that they remember. Assignments and declarations lead to scopes that
belong to no method. The one step that takes a method makes a scope for it, in which `this` is the instance.
-/

set_option autoImplicit false

namespace Lox

section Placed

variable {plan : List Site} {frames : List Frame}

/-- Expressions are placed if each of them is. -/
theorem Expr.AllPlaced.of_mem {es : List Expr} (h : Expr.AllPlaced plan frames es) {e : Expr} (he : e ∈ es) :
    e.Placed plan frames := by
  induction es with
  | nil => cases he
  | cons e' rest ih =>
    rcases List.mem_cons.mp he with rfl | he
    · exact h.1
    · exact ih h.2 he

/-- Statements are placed if each of them is. -/
theorem Stmt.AllPlaced.of_mem {ss : List Stmt} (h : Stmt.AllPlaced plan ss frames) {s : Stmt} (hs : s ∈ ss) :
    s.Placed plan frames := by
  induction ss with
  | nil => cases hs
  | cons s' rest ih =>
    rcases List.mem_cons.mp hs with rfl | hs
    · exact h.1
    · exact ih h.2 hs

/-- A method of a class is placed inside of its own frame. -/
theorem FunctionDecl.AllMethods.of_mem {ds : List FunctionDecl} (h : FunctionDecl.AllMethods plan ds frames)
    {d : FunctionDecl} (hd : d ∈ ds) :
    d.Placed plan (.method d :: frames) ∧ (d.isInitializer → ∀ value ∈ Stmt.returnsAll d.body, value = none) := by
  induction ds with
  | nil => cases hd
  | cons d' rest ih =>
    rcases List.mem_cons.mp hd with rfl | hd
    · exact h.1
    · exact ih h.2 hd

/-- The operands of an expression are placed where it is. -/
theorem Expr.Placed.operand {e operand : Expr} (h : e.Placed plan frames) (hmem : operand ∈ e.operands) :
    operand.Placed plan frames := by
  cases e with
  | grouping inner => exact List.mem_singleton.mp hmem ▸ h
  | unary operator right => exact List.mem_singleton.mp hmem ▸ h
  | binary left operator right =>
    rcases List.mem_pair.mp hmem with rfl | rfl
    · exact h.1
    · exact h.2
  | logical left operator right =>
    rcases List.mem_pair.mp hmem with rfl | rfl
    · exact h.1
    · exact h.2
  | assign id name value => exact List.mem_singleton.mp hmem ▸ h.2
  | call callee paren arguments =>
    rcases List.mem_cons.mp hmem with rfl | hmem
    · exact h.1
    · exact h.2.of_mem hmem
  | get object name => exact List.mem_singleton.mp hmem ▸ h
  | set object name value =>
    rcases List.mem_pair.mp hmem with rfl | rfl
    · exact h.1
    · exact h.2
  | _ => cases hmem

/-- The expressions of a statement are placed where it is. -/
theorem Stmt.Placed.operand {s : Stmt} {operand : Expr} (h : s.Placed plan frames) (hmem : operand ∈ s.operands) :
    operand.Placed plan frames := by
  cases s with
  | expression expr => exact List.mem_singleton.mp hmem ▸ h
  | print expr => exact List.mem_singleton.mp hmem ▸ h
  | «variable» name initial => exact h.2 operand (Option.mem_toList.mp hmem)
  | conditional condition thenBranch elseBranch =>
    rw [List.mem_singleton.mp hmem]
    cases elseBranch <;> exact h.1
  | loop condition body => exact List.mem_singleton.mp hmem ▸ h.1
  | «return» keyword value => exact h operand (Option.mem_toList.mp hmem)
  | _ => cases hmem

/-- The branches of a statement are placed where it is. -/
theorem Stmt.Placed.branch {s branch : Stmt} (h : s.Placed plan frames) (hmem : branch ∈ s.branches) :
    branch.Placed plan frames := by
  cases s with
  | conditional condition thenBranch elseBranch =>
    cases elseBranch with
    | none => exact List.mem_singleton.mp hmem ▸ h.2
    | some elseBranch =>
      rcases List.mem_pair.mp hmem with rfl | rfl
      · exact h.2.1
      · exact h.2.2
  | loop condition body => exact List.mem_singleton.mp hmem ▸ h.2
  | _ => cases hmem

/-- What a placed statement declares is not `this`. -/
theorem Stmt.Placed.declared {s : Stmt} (h : s.Placed plan frames) {name : Token} (hname : s.declared? = some name) :
    name.lexeme ≠ thisName := by
  cases s with
  | «variable» name initial =>
    cases hname
    exact h.1
  | function declaration =>
    cases hname
    exact h.1
  | «class» name methods =>
    cases hname
    exact h.1
  | _ => cases hname

end Placed

/-- A global variable is in one of the two scopes of the top level. -/
theorem holder?_outermost {s : Store} {x : String} {scope : ScopeId}
    (h : Environment.outermost.holder? s x = some scope) : scope < 2 := by
  unfold Environment.outermost Environment.holder? Environment.holder? at h
  split at h
  · cases h
    decide
  · split at h
    · cases h
      decide
    · cases h

namespace Stage

/-- What is known of methods and their instances. -/
def knowledge : Knowledge where
  World := Stage
  Leads := Leads
  Holds := Holds
  Good := Good
  MayEnter _ _ := True
  MayEvaluate w env e := ∃ plan frames, w.At plan frames env ∧ e.Placed plan frames
  MayExecute w env s := ∃ plan frames, w.At plan frames env ∧ Frame.Inner frames ∧ s.Placed plan frames
  MayFail _ _ := True

variable {w : Stage} {m : Interpreter} {plan : List Site} {frames : List Frame} {env : Environment}

/-- A new scope that is not that of a method belongs to no method. -/
theorem Holds.opens (h : w.Holds m) (hat : w.At plan frames env) {names : Bindings Value}
    (hthis : names.get? thisName = none) {body : List Stmt} (hbody : Stmt.AllPlaced plan body (.plain :: frames)) :
    knowledge.Opens w m env names body := by
  have hopened := Leads.opened w
  have hnew (i : Instance) (name : String) (bound : Closure) (htaken : Takes w.past i name bound) :
      bound.environment.scope ≠ m.store.scopes.size :=
    h.size ▸ Nat.ne_of_lt (h.bound i name bound htaken).2.1
  have hat' : w.opened.At plan (.plain :: frames) (.child m.store.scopes.size env) :=
    ⟨hat.plan, h.size ▸ Nat.lt_succ_self _, hnew, hopened.grows.fits hat.fits⟩
  exact ⟨w.opened, hopened, h.addScope hthis, trivial,
    fun s hs => ⟨plan, _, hat', Frame.inner_plain frames, hbody.of_mem hs⟩⟩

/-- An assignment changes no method's scope: a local one leads to a plain frame, and a global one to the
top level. -/
theorem Holds.assigns (h : w.Holds m) (hat : w.At plan frames m.current) {id : Occurrence}
    (hassigns : Frame.Assigns plan frames id) {name : Token} (hname : name.lexeme ≠ thisName) (v : Value) :
    w.Holds (endState (Eval.assign id name v m)) := by
  obtain ⟨site, hsite, rfl, hplain⟩ := hassigns
  have hdistance := h.distances site (hat.plan hsite)
  cases hd : site.distance? with
  | some distance =>
    obtain ⟨hscope, hfree⟩ := hat.fits.plain (hplain distance hd)
    rw [Eval.assign_local (hdistance.trans hd)]
    exact h.define hscope hfree hname v
  | none =>
    rw [Eval.assign_global (hdistance.trans hd)]
    cases hholder : m.topLevel.holder? m.store name.lexeme with
    | some scope =>
      have hscope : scope < 2 := holder?_outermost (h.topLevel ▸ hholder)
      exact h.define (Nat.lt_of_lt_of_le hscope h.local_size) (h.free_of_lt hscope) hname v
    | none => exact h

/-- A method is taken: from then on, its scope holds just the instance. -/
theorem Holds.takes (h : w.Holds m) {i : Instance} (hi : w.Good (.instance i)) {name : String} {method : Closure}
    (hmethod : i.blueprint.methods.get? name = some method) :
    ∃ w', w.Leads [⟨.taken i name (m.bound method), m.binding i⟩] w' ∧ w'.Holds (m.binding i) ∧
      w'.Good (.function (m.bound method)) := by
  obtain ⟨plan, frames, hat, hplaced, hreturns, hinit⟩ := hi name method hmethod
  have henvironment : (m.bound method).environment = .child w.size method.environment := by
    rw [← h.size]
    rfl
  have htake := h.take (x := ⟨.taken i name (m.bound method), m.binding i⟩) henvironment hinit rfl
  have hleads : w.Leads [⟨.taken i name (m.bound method), m.binding i⟩]
      (w.opened.push ⟨.taken i name (m.bound method), m.binding i⟩) :=
    Leads.take rfl (by rw [henvironment]; rfl)
  refine ⟨_, hleads, htake.congr rfl rfl rfl, plan, .method method.declaration :: frames, ?_, hplaced, hreturns⟩
  refine ⟨List.Subset.trans hat.plan hleads.grows.plan, ?_⟩
  rw [henvironment]
  exact ⟨⟨i, name, m.bound method, takes_append.mpr (.inr rfl), henvironment, rfl⟩, hleads.grows.fits hat.fits⟩

/-- A class is good where its declaration is placed. -/
theorem goodMethods_of_placed (hat : w.At plan frames env) {ds : List FunctionDecl}
    (hplaced : FunctionDecl.AllMethods plan ds frames) {methods : Bindings Closure}
    (hmethods : ∀ x c, methods.get? x = some c → ∃ d ∈ ds, c.IsMethod x d env) : w.GoodMethods methods := by
  intro name c hc
  obtain ⟨d, hd, hname, hdeclaration, henv, hkind⟩ := hmethods name c hc
  obtain ⟨hplaced', hreturns⟩ := hplaced.of_mem hd
  refine ⟨plan, frames, henv ▸ hat, hdeclaration ▸ hplaced', ?_, fun hinitializer => ?_⟩
  · rw [hkind, hdeclaration]
    exact hreturns
  · rw [hkind, FunctionDecl.isInitializer, hname, hinitializer, beq_self_eq_true]

/-- What is known of methods and their instances is an invariant. -/
def invariant : Invariant where
  toKnowledge := knowledge
  leads_refl := Leads.refl
  leads_trans := Leads.trans
  good_mono hw := hw.grows.good
  mayEnter_mono _ _ := trivial
  mayEvaluate_mono := fun hw ⟨plan, frames, hat, hplaced⟩ => ⟨plan, frames, hw.grows.at hat, hplaced⟩
  mayExecute_mono := fun hw ⟨plan, frames, hat, hplaced⟩ => ⟨plan, frames, hw.grows.at hat, hplaced⟩
  mayFail_mono _ _ := trivial
  passes hm hevent := ⟨_, .push hevent, hm.push hevent⟩
  operand := fun ⟨plan, frames, hat, hplaced⟩ hmem => ⟨plan, frames, hat, hplaced.operand hmem⟩
  operand_stmt := fun ⟨plan, frames, hat, _, hplaced⟩ hmem => ⟨plan, frames, hat, hplaced.operand hmem⟩
  branch := fun ⟨plan, frames, hat, hinner, hplaced⟩ hmem => ⟨plan, frames, hat, hinner, hplaced.branch hmem⟩
  mayEnter_current _ := trivial
  mayEnter_topLevel _ := trivial
  entering hm _ := hm.congr rfl rfl rfl
  opens_block := fun hm ⟨_, _, hat, _, hplaced⟩ => hm.opens hat rfl hplaced
  opens_function := fun hm ⟨_, _, hat, hplaced, _⟩ _ =>
    hm.opens hat (parameterBindings_this hplaced.params _) hplaced.body
  good_plain {_ v} hv := by
    cases v <;> trivial
  good_instance h := h
  good_function := fun _ ⟨plan, frames, hat, _, hplaced⟩ hordinary =>
    ⟨plan, frames, hat, hplaced.2, fun hinit => by rw [hordinary] at hinit; cases hinit⟩
  good_class := fun _ ⟨_, _, hat, _, hplaced⟩ hmethods => goodMethods_of_placed hat hplaced.2 hmethods
  elsewhere hm hscopes _ htopLevel hdistances := hm.congr hscopes htopLevel hdistances
  assigns := fun hm ⟨_, _, hat, hplaced⟩ _ => hm.assigns hat hplaced.1.2 hplaced.1.1 _
  defines := fun hm ⟨_, _, hat, hinner, hplaced⟩ hname _ =>
    let ⟨hscope, hfree⟩ := hm.free_scope hat.fits hinner
    hm.define hscope hfree (hplaced.declared hname) _
  takes hm hi hmethod := hm.takes hi hmethod
  mayFail_output := trivial
  mayFail_own _ _ _ _ := trivial

end Stage

end Lox
