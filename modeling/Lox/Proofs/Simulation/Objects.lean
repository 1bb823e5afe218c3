import Lox.Proofs.Simulation.Opening
import Lox.Proofs.Simulation.Steps

/-!
# Functions, classes, instances and output

The steps that create functions, classes and instances, read and set fields, print, and read the clock.
Functions and classes get the same identities on both sides, since both sides create them in the same
order. What a class remembers is stated in a world of its own: its methods see its name, which is
defined only after they have been closed.
-/

set_option autoImplicit false

namespace Lox

variable {R : Relabeling} {printed : ByteArray} {frozen : ScopeId} {w : World} {env : Environment}

/-- Both sides create the same function. -/
theorem newClosure_simulates (declaration : FunctionDecl) (captured : Environment)
    (visible : Lexical.Scope) (isInitializer : Bool) :
    Simulates R printed frozen w env (Eval.newClosure declaration captured isInitializer)
      (Lexical.newClosure (declaration.relabel R) visible isInitializer)
      (fun _ c c' => ∃ i, c = ⟨i, declaration, captured, isInitializer⟩ ∧
        c' = ⟨i, declaration.relabel R, visible, isInitializer⟩) := by
  intro m n hsim hcurrent
  refine ⟨hcurrent, w, .refl frozen w, ?_, m.store.created, rfl, ?_⟩
  · exact { hsim with created := congrArg (· + 1) hsim.created }
  · rw [hsim.created]

/-- Both sides create the same class. -/
theorem newClass_simulates (name : String) {methods : Bindings Closure}
    {methods' : Bindings Lexical.Closure} {later : World}
    (hmethods : ∀ x, Option.Rel (later.RelatesMethod R) (methods.get? x) (methods'.get? x)) :
    Simulates R printed frozen w env (Eval.newClass name methods) (Lexical.newClass name methods')
      (fun _ => later.RelatesClass R) := by
  intro m n hsim hcurrent
  refine ⟨hcurrent, w, .refl frozen w, ?_, hsim.created, rfl, hmethods⟩
  exact { hsim with created := congrArg (· + 1) hsim.created }

/-- Both sides close the same methods. -/
theorem closeMethods_simulates {later : World} {scopes : LocalScopes} {visible : Lexical.Scope}
    (hscoped : later.Scoped scopes env visible) (ds : List FunctionDecl)
    (hresolved : FunctionDecl.AllResolved later.plan ds ([(thisName, true)] :: scopes))
    {methods : Bindings Closure} {methods' : Bindings Lexical.Closure}
    (hmethods : ∀ x, Option.Rel (later.RelatesMethod R) (methods.get? x) (methods'.get? x)) :
    Simulates R printed frozen w env (closeMethods ds methods)
      (Lexical.closeMethods visible (FunctionDecl.relabelAll R ds) methods')
      (fun _ c c' => ∀ x, Option.Rel (later.RelatesMethod R) (c.get? x) (c'.get? x)) := by
  induction ds generalizing w methods methods' with
  | nil => exact .pure hmethods
  | cons d rest ih =>
    simp only [closeMethods, FunctionDecl.relabelAll, Lexical.closeMethods,
      FunctionDecl.relabel_isInitializer, FunctionDecl.relabel_name, Token.relabel_lexeme]
    refine .get fun m hcurrent => .bind (newClosure_simulates d m.current visible _) ?_
    rintro w' c c' - ⟨i, rfl, rfl⟩
    refine ih hresolved.2 (fun x => ?_)
    rw [Bindings.get?_put, Bindings.get?_put]
    split
    · exact .some ⟨rfl, rfl, scopes, hcurrent ▸ hscoped, hresolved.1⟩
    · exact hmethods x

/-- Both sides create the same instance. -/
theorem newInstance_simulates {c : ClassValue} {c' : Lexical.ClassValue}
    (hc : w.RelatesClass R c c') :
    Simulates R printed frozen w env (Eval.newInstance c) (Lexical.newInstance c')
      (fun w' => w'.RelatesInstance R) := by
  intro m n hsim hcurrent
  refine ⟨hcurrent, w, .refl frozen w, ?_, hsim.instances, hc⟩
  exact
    { hsim with
      instances := by simp [hsim.instances]
      fields := fun i => by
        have hfields := hsim.fields i
        simp only [Array.getElem?_push, hsim.instances]
        split
        · exact fun _ => .none
        · exact hfields }

/-- A method is bound to an instance by a scope of its own. -/
theorem bindMethod_simulates (hfrozen : frozen ≤ w.size) {c : Closure} {c' : Lexical.Closure}
    (hc : w.RelatesMethod R c c') {i : Instance} {i' : Lexical.Instance}
    (hi : w.RelatesInstance R i i') :
    Simulates R printed frozen w env (Eval.bindMethod c i) (Lexical.bindMethod c' i')
      (fun w' b b' => w'.RelatesFunction R b b' ∧ b.arity = c.arity) := by
  intro m n hsim hcurrent
  obtain ⟨scopes, hscoped, hresolved⟩ := hc.resolved
  have hopens : Opens R w n.cells [(thisName, .instance i)] [(thisName, true)] c'.environment
      (c'.environment.put thisName n.cells.size) (n.cells.push (.instance i')) :=
    (Opens.nil n.cells c'.environment).put thisName (.instance hi)
  have hsim' := hopens.simulation hsim
  have hscoped' := hopens.scoped hsim hscoped
  have hw := hopens.grows hsim hfrozen
  have hstart : Eval.bindMethod c i m =
      Eval.newClosure c.declaration (.child w.size c.environment) c.isInitializer
        { m with store := (m.store.addScope [(thisName, .instance i)]).2 } := by
    rw [← hsim.size]
    rfl
  have hstart' : Lexical.bindMethod c' i' n =
      Lexical.newClosure (c.declaration.relabel R) (c'.environment.put thisName n.cells.size)
        c.isInitializer { n with cells := n.cells.push (.instance i') } := by
    rw [← hc.declaration, ← hc.isInitializer]
    rfl
  rw [hstart, hstart']
  refine (newClosure_simulates _ _ _ _ _ _ hsim' hcurrent).grow (Nat.le_refl _) hw ?_
  rintro w'' b b' hgrown ⟨k, rfl, rfl⟩
  refine ⟨⟨rfl, rfl, rfl, _, hscoped'.mono hgrown.toExtends, hresolved.mono (hw.trans hgrown).toExtends.plan,
    fun _ => ⟨_, _, rfl, rfl⟩⟩, rfl⟩

/-- Both sides find the same property. -/
theorem property_simulates (hfrozen : frozen ≤ w.size) {i : Instance} {i' : Lexical.Instance}
    (hi : w.RelatesInstance R i i') (name : Token) :
    Simulates R printed frozen w env (Eval.property i name)
      (Lexical.property i' (name.relabel R)) (fun w' => w'.Relates R) := by
  intro m n hsim hcurrent
  have hfield := hsim.fields i.identity name.lexeme
  have hmethod := hi.blueprint.methods name.lexeme
  rw [Eval.property, Lexical.property, get_bind, get_bind, Store.field?, hi.identity,
    Token.relabel_lexeme]
  generalize (m.store.fields[i.identity]?.getD []).get? name.lexeme = v?,
    (n.fields[i.identity]?.getD []).get? name.lexeme = v'? at hfield ⊢
  cases hfield with
  | some hv => exact ⟨hcurrent, w, .refl frozen w, hsim, hv⟩
  | none =>
    generalize i.blueprint.methods.get? name.lexeme = c?,
      i'.blueprint.methods.get? name.lexeme = c'? at hmethod ⊢
    cases hmethod with
    | some hc =>
      exact (bindMethod_simulates hfrozen hc hi).bind
        (fun w' b b' _ hb => .pure (.function hb.1)) m n hsim hcurrent
    | none => exact Simulates.fail name _ m n hsim hcurrent

/-- Both sides set the same field. -/
theorem setField_simulates {i : Instance} {i' : Lexical.Instance} (hi : w.RelatesInstance R i i')
    (x : String) {v : Value} {v' : Lexical.Value} (hv : w.Relates R v v') :
    Simulates R printed frozen w env (Eval.setField i x v) (Lexical.setField i' x v')
      (fun _ _ _ => True) := by
  intro m n hsim hcurrent
  refine ⟨hcurrent, w, .refl frozen w, ?_, trivial⟩
  exact
    { hsim with
      instances := by simp [hsim.instances, Store.setField]
      fields := fun j => by
        have hfields := hsim.fields j
        simp only [Store.setField, Array.getElem?_modify, hi.identity]
        split
        · by_cases hj : j < m.store.fields.size
          · have hj' : j < n.fields.size := hsim.instances ▸ hj
            simp only [Array.getElem?_eq_getElem, hj, hj', Option.getD_some, Option.map_some]
              at hfields ⊢
            exact hfields.put hv x
          · have hj' : ¬j < n.fields.size := hsim.instances ▸ hj
            simp only [Array.getElem?_eq_none (Nat.le_of_not_lt hj),
              Array.getElem?_eq_none (Nat.le_of_not_lt hj'), Option.map_none, Option.getD_none]
            exact fun _ => .none
        · exact hfields }

/-- Both sides print the same line. -/
theorem printLine_simulates (text : String) :
    Simulates R printed frozen w env (Eval.printLine text) (Lexical.printLine text)
      (fun _ _ _ => True) := by
  intro m n hsim hcurrent
  obtain ⟨houtput, herror⟩ := hsim.output.write (text ++ "\n")
  unfold Eval.printLine Lexical.printLine
  generalize m.output.write (text ++ "\n") = result, n.output.write (text ++ "\n") = result'
    at houtput herror ⊢
  obtain ⟨o, e⟩ := result
  obtain ⟨o', e'⟩ := result'
  obtain rfl : e' = e := herror
  have hsim' : Simulation R printed w { m with output := o } { n with output := o' } :=
    { hsim with output := houtput }
  cases e' with
  | none => exact ⟨hcurrent, w, .refl frozen w, hsim', trivial⟩
  | some e => exact ⟨hcurrent, rfl, w, .refl frozen w, hsim'⟩

/-- Both sides read the same clock. -/
theorem readClock_simulates :
    Simulates R printed frozen w env Eval.readClock Lexical.readClock (fun w' => w'.Relates R) := by
  intro m n hsim hcurrent
  refine ⟨hcurrent, w, .refl frozen w, { hsim with ticks := congrArg (· + 1) hsim.ticks }, ?_⟩
  rw [hsim.clock, hsim.ticks]
  exact .number _

end Lox
