import Lox.Evaluation
import Lox.Proofs.Renaming.Alike

/-!
# Values of a renamed program

A program and its version with a variable renamed create the same scopes in the same order. Which of them
declare the variable is kept in a list that grows with the store. Two values are related if they are the
same but for the trees of their functions, which are alike within the scopes that they were closed over.

Methods are closed over the scope of their class, and run within a scope for `this` in between.
-/

set_option autoImplicit false

namespace Lox

/-- Which of the scopes in a store declare the variable that is renamed, by their number. -/
abbrev ScopeMarks := List Bool

namespace ScopeMarks

variable {w w' : ScopeMarks} {marks : Marks} {env : Environment}

/-- The scopes of an environment have these marks. -/
def Lead (w : ScopeMarks) (marks : Marks) (env : Environment) : Prop :=
  ∀ distance, w[(env.ancestor distance).scope]? = some (marks distance)

/-- Marks lead out of an environment as before when scopes are added. -/
theorem Lead.mono (h : w.Lead marks env) (hw : w <+: w') : w'.Lead marks env := by
  intro distance
  obtain ⟨_, rfl⟩ := hw
  rw [List.getElem?_append_left (List.getElem?_eq_some_iff.mp (h distance)).1, h distance]

/-- A new scope gets its own mark. -/
theorem Lead.child (h : w.Lead marks env) (marked : Bool) :
    Lead (w ++ [marked]) (marks.enter marked) (.child w.length env)
  | 0 => List.getElem?_concat_length
  | distance + 1 => (h.mono (List.prefix_append _ _)) distance

end ScopeMarks

namespace Renaming

variable (r : Renaming) (w : ScopeMarks)

/-- Two closures are the same, with declarations that are alike around the scope they were closed over. -/
structure RelatesCode (around : Marks → Marks) (c c' : Closure) : Prop where
  identity : c'.identity = c.identity
  environment : c'.environment = c.environment
  isInitializer : c'.isInitializer = c.isInitializer
  alike : ∃ marks, w.Lead marks c.environment ∧
    FunctionDecl.Alike r (around marks) c.declaration c'.declaration

/-- Two functions are the same, with declarations that are alike. -/
abbrev RelatesFunction : Closure → Closure → Prop := r.RelatesCode w id

/-- Two methods are the same, with declarations that are alike behind a scope for `this`. -/
abbrev RelatesMethod : Closure → Closure → Prop := r.RelatesCode w (·.enter false)

/-- Two classes have the same methods. -/
structure RelatesClass (c c' : ClassValue) : Prop where
  identity : c'.identity = c.identity
  name : c'.name = c.name
  methods : ∀ x, Option.Rel (r.RelatesMethod w) (c.methods.get? x) (c'.methods.get? x)

/-- Two instances of the same class are the same. -/
structure RelatesInstance (i i' : Instance) : Prop where
  identity : i'.identity = i.identity
  blueprint : r.RelatesClass w i.blueprint i'.blueprint

/-- Two values are the same but for the trees of functions. -/
inductive Relates : Value → Value → Prop
  | nil : Relates .nil .nil
  | bool (b : Bool) : Relates (.bool b) (.bool b)
  | number (x : Float) : Relates (.number x) (.number x)
  | string (text : String) : Relates (.string text) (.string text)
  | clock : Relates .clock .clock
  | function {c c' : Closure} (h : r.RelatesFunction w c c') : Relates (.function c) (.function c')
  | class {c c' : ClassValue} (h : r.RelatesClass w c c') : Relates (.class c) (.class c')
  | instance {i i' : Instance} (h : r.RelatesInstance w i i') : Relates (.instance i) (.instance i')

/-- Two tables have related values, under the names they have with this mark. -/
def RelatesTable (marked : Bool) (b b' : Bindings Value) : Prop :=
  ∀ x, Option.Rel (r.Relates w) (b.get? x) (b'.get? (r.key marked x))

/-- Two statements have ended in the same way. -/
inductive RelatesFlow : Flow → Flow → Prop
  | normal : RelatesFlow .normal .normal
  | returned {v v' : Value} (h : r.Relates w v v') : RelatesFlow (.returned v) (.returned v')

variable {r w} {w' : ScopeMarks} {v v' u u' : Value}

section Growth

/-- Closures remain related when scopes are added. -/
theorem RelatesCode.mono {around : Marks → Marks} {c c' : Closure} (h : r.RelatesCode w around c c')
    (hw : w <+: w') : r.RelatesCode w' around c c' := by
  obtain ⟨marks, hlead, halike⟩ := h.alike
  exact { h with alike := ⟨marks, hlead.mono hw, halike⟩ }

/-- Methods remain related when scopes are added. -/
theorem relatesMethods_mono {methods methods' : Bindings Closure}
    (h : ∀ x, Option.Rel (r.RelatesMethod w) (methods.get? x) (methods'.get? x)) (hw : w <+: w') (x : String) :
    Option.Rel (r.RelatesMethod w') (methods.get? x) (methods'.get? x) := by
  have hmethod := h x
  generalize methods.get? x = method, methods'.get? x = method' at hmethod ⊢
  cases hmethod with
  | some hm => exact .some (hm.mono hw)
  | none => exact .none

/-- Classes remain related when scopes are added. -/
theorem RelatesClass.mono {c c' : ClassValue} (h : r.RelatesClass w c c') (hw : w <+: w') :
    r.RelatesClass w' c c' := ⟨h.identity, h.name, relatesMethods_mono h.methods hw⟩

/-- Instances remain related when scopes are added. -/
theorem RelatesInstance.mono {i i' : Instance} (h : r.RelatesInstance w i i') (hw : w <+: w') :
    r.RelatesInstance w' i i' := ⟨h.identity, h.blueprint.mono hw⟩

/-- Related values stay related when there are more scopes. -/
theorem Relates.mono (h : r.Relates w v v') (hw : w <+: w') : r.Relates w' v v' := by
  cases h with
  | function h => exact .function (h.mono hw)
  | «class» h => exact .class (h.mono hw)
  | «instance» h => exact .instance (h.mono hw)
  | _ => constructor

/-- Tables remain related when scopes are added. -/
theorem RelatesTable.mono {marked : Bool} {b b' : Bindings Value} (h : r.RelatesTable w marked b b')
    (hw : w <+: w') : r.RelatesTable w' marked b b' := by
  intro x
  have hx := h x
  generalize b.get? x = v?, b'.get? (r.key marked x) = v'? at hx ⊢
  cases hx with
  | some hv => exact .some (hv.mono hw)
  | none => exact .none

end Growth

section Observations

/-- Related functions take as many arguments. -/
theorem RelatesCode.arity {around : Marks → Marks} {c c' : Closure} (h : r.RelatesCode w around c c') :
    c'.arity = c.arity := by
  obtain ⟨marks, -, halike⟩ := h.alike
  rw [ClosureOver.arity, ClosureOver.arity, halike.params_length]

/-- Related classes take as many arguments. -/
theorem RelatesClass.arity {c c' : ClassValue} (h : r.RelatesClass w c c') : c'.arity = c.arity := by
  unfold ClassOver.arity ClassOver.initializer?
  have hmethod := h.methods initializerName
  generalize c.methods.get? initializerName = method, c'.methods.get? initializerName = method'
    at hmethod ⊢
  cases hmethod with
  | some hm => simp [hm.arity]
  | none => rfl

/-- Related values take the same number of arguments. -/
theorem Relates.arity? (h : r.Relates w v v') : v'.arity? = v.arity? := by
  cases h with
  | function h => simp [ValueOver.arity?, h.arity]
  | «class» h => simp [ValueOver.arity?, h.arity]
  | _ => rfl

/-- Related values are both true or both false. -/
theorem Relates.isTruthy (h : r.Relates w v v') : v'.isTruthy = v.isTruthy := by
  cases h <;> rfl

/-- Related values are printed alike. -/
theorem Relates.text (h : r.Relates w v v') : v'.text = v.text := by
  cases h with
  | bool b => cases b <;> rfl
  | function h =>
    obtain ⟨marks, -, halike⟩ := h.alike
    simp [ValueOver.text, ClosureOver.name, halike.name_eq]
  | «class» h => exact h.name
  | «instance» h => simp [ValueOver.text, h.blueprint.name]
  | _ => rfl

/-- Related values are equal to the same values. -/
theorem Relates.equals (h : r.Relates w v v') (hu : r.Relates w u u') : v'.equals u' = v.equals u := by
  cases h <;> cases hu <;> simp only [ValueOver.equals]
  case function.function h _ _ hu => rw [h.identity, hu.identity]
  case class.class h _ _ hu => rw [h.identity, hu.identity]
  case instance.instance h _ _ hu => rw [h.identity, hu.identity]

/-- A constant is related to itself. -/
theorem Relates.ofLiteral (value : Literal) :
    r.Relates w (ValueOver.ofLiteral value) (ValueOver.ofLiteral value) := by
  cases value <;> constructor

/-- Empty tables are related. -/
theorem relatesTable_nil (marked : Bool) : r.RelatesTable w marked [] [] := fun _ => .none

/-- Related tables stay related when a name is given related values. -/
theorem RelatesTable.put {marked : Bool} {b b' : Bindings Value} (h : r.RelatesTable w marked b b')
    (hv : r.Relates w v v') (x : String) :
    r.RelatesTable w marked (b.put x v) (b'.put (r.key marked x) v') := by
  intro y
  rw [Bindings.get?_put, Bindings.get?_put]
  by_cases heq : x = y
  · rw [if_pos heq, if_pos (congrArg _ heq)]
    exact .some hv
  · rw [if_neg heq, if_neg fun hkey => heq (r.key_injective hkey)]
    exact h y

/-- Related tables bind the same names. -/
theorem RelatesTable.binds {marked : Bool} {b b' : Bindings Value} (h : r.RelatesTable w marked b b')
    (x : String) : b'.binds (r.key marked x) = b.binds x := by
  have hx := h x
  unfold Bindings.binds
  generalize b.get? x = v?, b'.get? (r.key marked x) = v'? at hx ⊢
  cases hx <;> rfl

/-- Renamed parameters get the same arguments. -/
theorem RelatesTable.parameters {marked : Bool} {params : List Token}
    (hparams : ∀ p ∈ params, p.lexeme ≠ r.new) {arguments arguments' : List Value}
    (harguments : List.Forall₂ (r.Relates w) arguments arguments') :
    r.RelatesTable w marked (parameterBindings params arguments)
      (parameterBindings (params.map (r.token marked)) arguments') := by
  have general {b b' : Bindings Value} (h : r.RelatesTable w marked b b') :
      r.RelatesTable w marked
        ((params.zip arguments).foldl (fun names p => names.put p.1.lexeme p.2) b)
        (((params.map (r.token marked)).zip arguments').foldl
          (fun names p => names.put p.1.lexeme p.2) b') := by
    induction params generalizing arguments arguments' b b' with
    | nil => exact h
    | cons p rest ih =>
      cases harguments with
      | nil => exact h
      | cons hv hvs =>
        obtain ⟨hp, hrest⟩ := List.forall_mem_cons.mp hparams
        refine ih hrest hvs ?_
        show r.RelatesTable w marked _ (b'.put (r.token marked p).lexeme _)
        rw [r.token_lexeme marked hp]
        exact h.put hv p.lexeme
  exact general (relatesTable_nil marked)

end Observations

end Renaming

end Lox
