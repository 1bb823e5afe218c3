import Lox.Proofs.Simulation.World

/-!
# Related values

A value of a running program and a value of the reference interpreter are related if they are the same
value but for what functions remember: a function of the one knows an environment and was resolved
there, a function of the other knows the locations of the variables of this environment. The programs
may differ in their labels.

Methods of a class are resolved with `this` around them, which they do not have before they are bound
to an instance.
-/

set_option autoImplicit false

/-- A related option stays related when its members do. -/
theorem Option.Rel.imp {α β : Type} {r s : α → β → Prop} {a : Option α} {b : Option β}
    (h : Option.Rel r a b) (himp : ∀ a b, r a b → s a b) : Option.Rel s a b := by
  cases h with
  | some h => exact .some (himp _ _ h)
  | none => exact .none

namespace Lox

namespace World

variable (R : Relabeling) (w : World)

/-- Two functions are the same, and the first was resolved where it was declared. -/
structure RelatesFunction (c : Closure) (c' : Lexical.Closure) : Prop where
  identity : c'.identity = c.identity
  declaration : c'.declaration = c.declaration.relabel R
  isInitializer : c'.isInitializer = c.isInitializer
  resolved : ∃ scopes, w.Scoped scopes c.environment c'.environment ∧
    c.declaration.Resolved w.plan scopes ∧
    (c.isInitializer = true →
      ∃ names outer, scopes = names :: outer ∧ names.get? thisName = some true)

/-- Two methods are the same, and the first was resolved where its class was declared. -/
structure RelatesMethod (c : Closure) (c' : Lexical.Closure) : Prop where
  declaration : c'.declaration = c.declaration.relabel R
  isInitializer : c'.isInitializer = c.isInitializer
  resolved : ∃ scopes, w.Scoped scopes c.environment c'.environment ∧
    c.declaration.Resolved w.plan ([(thisName, true)] :: scopes)

/-- Two classes have the same methods. -/
structure RelatesClass (c : ClassValue) (c' : Lexical.ClassValue) : Prop where
  identity : c'.identity = c.identity
  name : c'.name = c.name
  methods : ∀ x, Option.Rel (w.RelatesMethod R) (c.methods.get? x) (c'.methods.get? x)

/-- Two instances of the same class are the same. -/
structure RelatesInstance (i : Instance) (i' : Lexical.Instance) : Prop where
  identity : i'.identity = i.identity
  blueprint : w.RelatesClass R i.blueprint i'.blueprint

/-- Two values are the same but for what functions remember. -/
inductive Relates : Value → Lexical.Value → Prop
  | nil : Relates .nil .nil
  | bool (b : Bool) : Relates (.bool b) (.bool b)
  | number (x : Float) : Relates (.number x) (.number x)
  | string (text : String) : Relates (.string text) (.string text)
  | clock : Relates .clock .clock
  | function {c : Closure} {c' : Lexical.Closure} (h : w.RelatesFunction R c c') :
    Relates (.function c) (.function c')
  | class {c : ClassValue} {c' : Lexical.ClassValue} (h : w.RelatesClass R c c') :
    Relates (.class c) (.class c')
  | instance {i : Instance} {i' : Lexical.Instance} (h : w.RelatesInstance R i i') :
    Relates (.instance i) (.instance i')

/-- Two tables have the same names, with related values. -/
def RelatesTable (b : Bindings Value) (b' : Bindings Lexical.Value) : Prop :=
  ∀ x, Option.Rel (w.Relates R) (b.get? x) (b'.get? x)

/-- Two statements have ended in the same way. -/
inductive RelatesFlow : Flow → Lexical.Flow → Prop
  | normal : RelatesFlow .normal .normal
  | returned {v : Value} {v' : Lexical.Value} (h : w.Relates R v v') :
    RelatesFlow (.returned v) (.returned v')

end World

mutual

/-- What is resolved on a list of sites is resolved on a larger one. -/
theorem Stmt.Resolved.mono {plan plan' : List Site} (hplan : plan ⊆ plan') : (s : Stmt) →
    (scopes : LocalScopes) → s.Resolved plan scopes → s.Resolved plan' scopes
  | .expression _, _, h => List.Subset.trans h hplan
  | .print _, _, h => List.Subset.trans h hplan
  | .variable _ _, _, h => ⟨h.1, List.Subset.trans h.2 hplan⟩
  | .block body, scopes, h => Stmt.AllResolved.mono hplan body ([] :: scopes) h
  | .conditional _ thenBranch none, scopes, h =>
    ⟨List.Subset.trans h.1 hplan, h.2.1, Stmt.Resolved.mono hplan thenBranch scopes h.2.2⟩
  | .conditional _ thenBranch (some elseBranch), scopes, h =>
    ⟨List.Subset.trans h.1 hplan, ⟨h.2.1.1, Stmt.Resolved.mono hplan thenBranch scopes h.2.1.2⟩,
      h.2.2.1, Stmt.Resolved.mono hplan elseBranch scopes h.2.2.2⟩
  | .loop _ body, scopes, h =>
    ⟨List.Subset.trans h.1 hplan, h.2.1, Stmt.Resolved.mono hplan body scopes h.2.2⟩
  | .function declaration, _, h =>
    ⟨h.1, FunctionDecl.Resolved.mono hplan declaration _ h.2⟩
  | .return _ _, _, h => List.Subset.trans h hplan
  | .class _ methods, _, h => ⟨h.1, FunctionDecl.AllResolved.mono hplan methods _ h.2⟩

/-- Statements that are resolved remain so when more sites are planned. -/
theorem Stmt.AllResolved.mono {plan plan' : List Site} (hplan : plan ⊆ plan') : (ss : List Stmt) →
    (scopes : LocalScopes) → Stmt.AllResolved plan ss scopes → Stmt.AllResolved plan' ss scopes
  | [], _, _ => trivial
  | s :: rest, scopes, h =>
    ⟨Stmt.Resolved.mono hplan s scopes h.1, Stmt.AllResolved.mono hplan rest _ h.2⟩

/-- A function that is resolved remains so when more sites are planned. -/
theorem FunctionDecl.Resolved.mono {plan plan' : List Site} (hplan : plan ⊆ plan') :
    (d : FunctionDecl) → (scopes : LocalScopes) → d.Resolved plan scopes → d.Resolved plan' scopes
  | ⟨_, params, body⟩, scopes, h => Stmt.AllResolved.mono hplan body (parameterScope params :: scopes) h

/-- Functions that are resolved remain so when more sites are planned. -/
theorem FunctionDecl.AllResolved.mono {plan plan' : List Site} (hplan : plan ⊆ plan') :
    (ds : List FunctionDecl) → (scopes : LocalScopes) → FunctionDecl.AllResolved plan ds scopes →
    FunctionDecl.AllResolved plan' ds scopes
  | [], _, _ => trivial
  | d :: rest, scopes, h =>
    ⟨FunctionDecl.Resolved.mono hplan d scopes h.1, FunctionDecl.AllResolved.mono hplan rest scopes h.2⟩

end

namespace World

variable {R : Relabeling} {w w' : World}

section Growth

/-- Functions remain related in a larger world. -/
theorem RelatesFunction.mono {c : Closure} {c' : Lexical.Closure} (h : w.RelatesFunction R c c')
    (hw : w.Extends w') : w'.RelatesFunction R c c' := by
  obtain ⟨scopes, hscoped, hresolved, hthis⟩ := h.resolved
  exact ⟨h.identity, h.declaration, h.isInitializer, scopes, hscoped.mono hw,
    hresolved.mono hw.plan, hthis⟩

/-- Methods remain related in a larger world. -/
theorem RelatesMethod.mono {c : Closure} {c' : Lexical.Closure} (h : w.RelatesMethod R c c')
    (hw : w.Extends w') : w'.RelatesMethod R c c' := by
  obtain ⟨scopes, hscoped, hresolved⟩ := h.resolved
  exact ⟨h.declaration, h.isInitializer, scopes, hscoped.mono hw, hresolved.mono hw.plan⟩

/-- Classes remain related in a larger world. -/
theorem RelatesClass.mono {c : ClassValue} {c' : Lexical.ClassValue} (h : w.RelatesClass R c c')
    (hw : w.Extends w') : w'.RelatesClass R c c' :=
  ⟨h.identity, h.name, fun x => (h.methods x).imp (fun _ _ hm => hm.mono hw)⟩

/-- Instances remain related in a larger world. -/
theorem RelatesInstance.mono {i : Instance} {i' : Lexical.Instance} (h : w.RelatesInstance R i i')
    (hw : w.Extends w') : w'.RelatesInstance R i i' :=
  ⟨h.identity, h.blueprint.mono hw⟩

/-- Related values stay related in a larger world. -/
theorem Relates.mono {v : Value} {v' : Lexical.Value} (h : w.Relates R v v')
    (hw : w.Extends w') : w'.Relates R v v' := by
  cases h with
  | function h => exact .function (h.mono hw)
  | «class» h => exact .class (h.mono hw)
  | «instance» h => exact .instance (h.mono hw)
  | _ => constructor

/-- Tables remain related in a larger world. -/
theorem RelatesTable.mono {b : Bindings Value} {b' : Bindings Lexical.Value}
    (h : w.RelatesTable R b b') (hw : w.Extends w') : w'.RelatesTable R b b' :=
  fun x => (h x).imp (fun _ _ hv => hv.mono hw)

end Growth

section Observations

variable {v u : Value} {v' u' : Lexical.Value}

/-- Related methods take as many arguments. -/
theorem RelatesMethod.arity {c : Closure} {c' : Lexical.Closure} (h : w.RelatesMethod R c c') :
    c'.arity = c.arity := by
  simp [ClosureOver.arity, h.declaration]

/-- Related classes take as many arguments. -/
theorem RelatesClass.arity {c : ClassValue} {c' : Lexical.ClassValue} (h : w.RelatesClass R c c') :
    c'.arity = c.arity := by
  unfold ClassOver.arity ClassOver.initializer?
  have hmethods := h.methods initializerName
  generalize c.methods.get? initializerName = method?, c'.methods.get? initializerName = method'?
    at hmethods ⊢
  cases hmethods with
  | some hm => simp [hm.arity]
  | none => rfl

/-- Related values take the same number of arguments. -/
theorem Relates.arity? (h : w.Relates R v v') : v'.arity? = v.arity? := by
  cases h with
  | function h => simp [ValueOver.arity?, ClosureOver.arity, h.declaration]
  | «class» h => simp [ValueOver.arity?, h.arity]
  | _ => rfl

/-- Related values are both true or both false. -/
theorem Relates.isTruthy (h : w.Relates R v v') : v'.isTruthy = v.isTruthy := by
  cases h <;> rfl

/-- Related values are printed alike. -/
theorem Relates.text (h : w.Relates R v v') : v'.text = v.text := by
  cases h with
  | bool b => cases b <;> rfl
  | function h => simp [ValueOver.text, ClosureOver.name, h.declaration]
  | «class» h => exact h.name
  | «instance» h => simp [ValueOver.text, h.blueprint.name]
  | _ => rfl

/-- Related values are equal to the same values. -/
theorem Relates.equals (h : w.Relates R v v') (hu : w.Relates R u u') :
    v'.equals u' = v.equals u := by
  cases h <;> cases hu <;> simp only [ValueOver.equals]
  case function.function h _ _ hu => rw [h.identity, hu.identity]
  case class.class h _ _ hu => rw [h.identity, hu.identity]
  case instance.instance h _ _ hu => rw [h.identity, hu.identity]

/-- A constant is related to itself. -/
theorem Relates.ofLiteral (value : Literal) :
    w.Relates R (ValueOver.ofLiteral value) (ValueOver.ofLiteral value) := by
  cases value <;> constructor

/-- Related tables stay related when a name is given related values. -/
theorem RelatesTable.put {b : Bindings Value} {b' : Bindings Lexical.Value}
    (h : w.RelatesTable R b b') (hv : w.Relates R v v') (name : String) :
    w.RelatesTable R (b.put name v) (b'.put name v') := by
  intro x
  rw [Bindings.get?_put, Bindings.get?_put]
  split
  · exact .some hv
  · exact h x

end Observations

end World

end Lox
