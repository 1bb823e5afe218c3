import Lox.Proofs.Traces.Invariant

/-!
# Elementary steps keep invariants

What the laws of an invariant say of the elementary steps of evaluation: what they yield is good, and what they do
to a state leaves it as it is known to be. Operators only compute, so they are dealt with whatever is known. The
one step with a trace of its own is the one that takes a method from an instance.
-/

set_option autoImplicit false

namespace Lox

section Operators

/-- A step only computes: it changes nothing, and yields a plain value or fails with a runtime error. -/
def Eval.Computes (p : Eval Value) : Prop :=
  ∀ m, (∃ v, p m = .ok v m ∧ v.IsPlain) ∨ ∃ error, p m = .error (.failed (.runtime error)) m

namespace Eval.Computes

/-- A step that yields a plain value at hand only computes. -/
theorem pure {v : Value} (h : v.IsPlain) : Computes (Pure.pure v) := fun _ => .inl ⟨v, rfl, h⟩

/-- A step that fails with a runtime error only computes. -/
theorem fail (token : Token) (cause : RuntimeCause) : Computes (Eval.fail token cause) :=
  fun _ => .inr ⟨_, rfl⟩

/-- A prefix operator only computes. -/
theorem applyUnary (operator : Token) (right : Value) : Computes (applyUnary operator right) := by
  unfold Lox.applyUnary
  split
  · split
    · exact .pure trivial
    · exact .fail _ _
  · exact .pure trivial
  · exact .fail _ _

/-- An operator on two numbers only computes if its results are plain. -/
theorem onNumbers (operator : Token) (left right : Value) {f : Float → Float → Value}
    (hf : ∀ a b, (f a b).IsPlain) : Computes (onNumbers operator left right f) := by
  unfold Lox.onNumbers
  split
  · exact .pure (hf _ _)
  · exact .fail _ _

/-- A sum only computes, of two numbers as of two strings. -/
theorem add (operator : Token) (left right : Value) : Computes (add operator left right) := by
  unfold Lox.add
  split
  · exact .pure trivial
  · exact .pure trivial
  · exact .fail _ _

/-- An infix operator only computes. -/
theorem applyBinary (operator : Token) (left right : Value) : Computes (applyBinary operator left right) := by
  unfold Lox.applyBinary
  split
  · exact .add _ _ _
  all_goals first
    | exact .onNumbers _ _ _ fun _ _ => trivial
    | exact .pure trivial
    | exact .fail _ _

end Eval.Computes

end Operators

section Rules

variable {I : Invariant} {w : I.World} {env : Environment} {fails : I.World → Failure → Prop}

/-- A constant is plain. -/
theorem ValueOver.isPlain_ofLiteral (l : Literal) : (ValueOver.ofLiteral l : Value).IsPlain := by
  cases l <;> trivial

/-- What a step computes is good. -/
theorem KeepsQuietly.computes {p : Eval Value} (hp : p.Computes)
    (h : ∀ m error, p m = .error (.failed (.runtime error)) m → fails w (.runtime error)) :
    KeepsQuietly I w env p I.Good fails := by
  refine .of_holds fun m hm _ => ?_
  rcases hp m with ⟨v, hrun, hv⟩ | ⟨error, hrun⟩
  · rw [hrun]
    exact ⟨rfl, rfl, hm, I.good_plain hv⟩
  · have hfails := h m error hrun
    rw [hrun]
    exact ⟨rfl, rfl, hm, hfails⟩

section Variables

/-- A name that is looked up has a good value, or the look-up fails. -/
theorem KeepsQuietly.lookUp (id : Occurrence) {name : Token}
    (h : fails w (.runtime ⟨name.line, .undefinedVariable name.lexeme⟩)) :
    KeepsQuietly I w env (Eval.lookUp id name) I.Good fails := by
  refine .get fun m hm _ => ?_
  split
  · exact .pure (hm.good.getAt (I.good_plain trivial) _ _ _)
  · split
    · exact .pure (hm.good.get? ‹_›)
    · exact .fail h

/-- An assignment stores a good value, or fails. -/
theorem KeepsQuietly.assign {id : Occurrence} {name : Token} {value : Expr}
    (he : I.MayEvaluate w env (.assign id name value)) {v : Value} (hv : I.Good w v)
    (h : fails w (.runtime ⟨name.line, .undefinedVariable name.lexeme⟩)) :
    KeepsQuietly I w env (Eval.assign id name v) (fun _ _ => True) fails := by
  refine .of_holds fun m hm hcurrent => ?_
  have hend := I.assigns hm.holds (hcurrent ▸ he) hv
  cases hdistance : m.distances.get? id with
  | some distance =>
    rw [Eval.assign_local hdistance] at hend ⊢
    exact ⟨rfl, rfl, ⟨hend, hm.good.define _ _ hv⟩, trivial⟩
  | none =>
    rw [Eval.assign_global hdistance] at hend ⊢
    cases hscope : m.topLevel.holder? m.store name.lexeme with
    | some scope =>
      rw [hscope] at hend
      exact ⟨rfl, rfl, ⟨hend, hm.good.define _ _ hv⟩, trivial⟩
    | none => exact ⟨rfl, rfl, hm, h⟩

/-- A declaration stores a good value. -/
theorem KeepsQuietly.define {s : Stmt} (hs : I.MayExecute w env s) {name : Token} (hname : s.declared? = some name)
    {v : Value} (hv : I.Good w v) : KeepsQuietly I w env (Eval.define name.lexeme v) (fun _ _ => True) fails :=
  .of_ok (fun _ => rfl) (fun _ => rfl) (fun _ => rfl)
    fun _ hm hcurrent => ⟨⟨I.defines hm.holds (hcurrent ▸ hs) hname hv, hm.good.define _ _ hv⟩, trivial⟩

end Variables

section Objects

/-- A new function only has a new identity. -/
theorem KeepsQuietly.newClosure (declaration : FunctionDecl) (captured : Environment) (isInitializer : Bool) :
    KeepsQuietly I w env (Eval.newClosure declaration captured isInitializer)
      (fun _ c => c.declaration = declaration ∧ c.environment = captured ∧ c.isInitializer = isInitializer) fails :=
  .of_ok (fun _ => rfl) (fun _ => rfl) (fun _ => rfl)
    fun _ hm _ => ⟨hm.elsewhere ⟨hm.good.scopes, hm.good.fields⟩ rfl rfl rfl rfl, rfl, rfl, rfl⟩

/-- A new class only has a new identity. -/
theorem KeepsQuietly.newClass (name : String) (methods : Bindings Closure) :
    KeepsQuietly I w env (Eval.newClass name methods) (fun _ c => c.methods = methods) fails :=
  .of_ok (fun _ => rfl) (fun _ => rfl) (fun _ => rfl)
    fun _ hm _ => ⟨hm.elsewhere ⟨hm.good.scopes, hm.good.fields⟩ rfl rfl rfl rfl, rfl⟩

/-- A new instance is one of the class. -/
theorem KeepsQuietly.newInstance (c : ClassValue) :
    KeepsQuietly I w env (Eval.newInstance c) (fun _ i => i.blueprint = c) fails :=
  .of_ok (fun _ => rfl) (fun _ => rfl) (fun _ => rfl)
    fun _ hm _ => ⟨hm.elsewhere (hm.good.addInstance c) rfl rfl rfl rfl, rfl⟩

/-- A field gets a good value. -/
theorem KeepsQuietly.setField (i : Instance) (name : String) {v : Value} (hv : I.Good w v) :
    KeepsQuietly I w env (Eval.setField i name v) (fun _ _ => True) fails :=
  .of_ok (fun _ => rfl) (fun _ => rfl) (fun _ => rfl)
    fun _ hm _ => ⟨hm.elsewhere (hm.good.setField i name hv) rfl rfl rfl rfl, trivial⟩

/-- The output may fail, and only the output changes. -/
theorem KeepsQuietly.printLine (text : String) (h : ∀ e, fails w (.output e)) :
    KeepsQuietly I w env (Eval.printLine text) (fun _ _ => True) fails := by
  refine .of_holds fun m hm _ => ?_
  unfold Eval.printLine
  split
  · exact ⟨rfl, rfl, hm.elsewhere hm.good rfl rfl rfl rfl, trivial⟩
  · exact ⟨rfl, rfl, hm.elsewhere hm.good rfl rfl rfl rfl, h _⟩

/-- The clock yields a number. -/
theorem KeepsQuietly.readClock : KeepsQuietly I w env Eval.readClock I.Good fails :=
  .of_ok (fun _ => rfl) (fun _ => rfl) (fun _ => rfl)
    fun _ hm _ => ⟨hm.elsewhere hm.good rfl rfl rfl rfl, I.good_plain trivial⟩

/-- A method is taken from a good instance, which is a moment that fits. -/
theorem Keeps.bindMethod {i : Instance} (hi : I.Good w (.instance i)) {name : String} {method : Closure}
    (hmethod : i.blueprint.methods.get? name = some method) :
    Keeps I w env (Eval.bindMethod method i) (Trace.bindMethod name method i)
      (fun w' bound => I.Good w' (.function bound)) fails := by
  intro m hm hcurrent
  obtain ⟨w', hw', hend, hbound⟩ := I.takes hm.holds hi hmethod
  have hgood := hm.good.addScope (Bindings.All.nil.put thisName hi)
  have hm' : I.Possible w' (m.binding i) :=
    ⟨hend, ⟨fun scope => (hgood.scopes scope).imp fun _ hv => I.good_mono hw' hv,
      fun identity => (hgood.fields identity).imp fun _ hv => I.good_mono hw' hv⟩⟩
  have hfits : I.Fits w' ⟨.taken i name (m.bound method), m.binding i⟩ := by
    refine ⟨hm', ?_, nofun, ?_⟩
    · exact List.forall_mem_cons.mpr ⟨I.good_mono hw' hi, List.forall_mem_singleton.mpr hbound⟩
    · intro _ _ _ heq
      cases heq
      exact ⟨method, m.store.scopes.size, hmethod, rfl, rfl⟩
  exact ⟨rfl, rfl, w', .moment hw' hfits (.silent (I.leads_refl w')), hm', hbound⟩

/-- A property is a field, or else a method that is taken. -/
theorem Keeps.property {i : Instance} (hi : I.Good w (.instance i)) {name : Token}
    (h : fails w (.runtime ⟨name.line, .undefinedProperty name.lexeme⟩)) :
    Keeps I w env (Eval.property i name) (Trace.property i name.lexeme) I.Good fails := by
  intro m hm hcurrent
  unfold Eval.property Trace.property
  rw [get_bind]
  cases hfield : m.store.field? i name.lexeme with
  | some v => exact KeepsQuietly.pure (hm.good.field? hfield) m hm hcurrent
  | none =>
    cases hmethod : i.blueprint.methods.get? name.lexeme with
    | some method =>
      have hstep : Keeps I w env (do return .function (← Eval.bindMethod method i))
          (Trace.bindMethod name.lexeme method i) I.Good fails :=
        (Keeps.bindMethod hi hmethod).thenQuietly fun _ _ hbound => .pure hbound
      exact hstep m hm hcurrent
    | none => exact KeepsQuietly.fail h m hm hcurrent

/-- The methods of a class are closed over the environment in which it is declared. -/
theorem KeepsQuietly.closeMethods {ds all : List FunctionDecl} (hds : ds ⊆ all) {methods : Bindings Closure}
    (hmethods : ∀ x c, methods.get? x = some c → ∃ d ∈ all, c.IsMethod x d env) :
    KeepsQuietly I w env (closeMethods ds methods)
      (fun _ methods => ∀ x c, methods.get? x = some c → ∃ d ∈ all, c.IsMethod x d env) fails := by
  induction ds generalizing w methods with
  | nil => exact .pure hmethods
  | cons d rest ih =>
    obtain ⟨hd, hrest⟩ := List.cons_subset.mp hds
    refine .get fun m hm hcurrent => ?_
    rw [hcurrent]
    refine (KeepsQuietly.newClosure d env d.isInitializer).thenQuietly
      fun c _ ⟨hdeclaration, henv, hinit⟩ => ih hrest fun x method hmethod => ?_
    rw [Bindings.get?_put] at hmethod
    split at hmethod
    · rename_i hname
      cases hmethod
      exact ⟨d, hd, hname, hdeclaration, henv, hinit⟩
    · exact hmethods x method hmethod

/-- The methods of a class are those of its declaration. -/
theorem KeepsQuietly.declareMethods (ds : List FunctionDecl) :
    KeepsQuietly I w env (Lox.closeMethods ds [])
      (fun _ methods => ∀ x c, methods.get? x = some c → ∃ d ∈ ds, c.IsMethod x d env) fails :=
  .closeMethods (List.Subset.refl ds) nofun

end Objects

end Rules

end Lox
