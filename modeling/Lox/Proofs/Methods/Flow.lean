import Lox.Evaluation
import Lox.Proofs.Tree.Placement

/-!
# What statements return

A statement that returns has come to one of the returns that stand in it outside of other functions, and
what it returns is `nil` where that gives no value. So what a body can return is read off its tree: nothing
if it has no returns, and nothing but `nil` if none of them gives a value.
-/

set_option autoImplicit false

namespace Lox

section Results

variable {α β : Type}

/-- What runs behind a step is handed its value. -/
theorem Eval.bind_of_ok {p : Eval α} {m t : Interpreter} {a : α} (h : p m = .ok a t) (f : α → Eval β) :
    (p >>= f) m = f a t := by
  show EStateM.bind p f m = f a t
  rw [EStateM.bind, h]

/-- Nothing runs behind a step that stops. -/
theorem Eval.bind_of_error {p : Eval α} {m t : Interpreter} {e : Halt} (h : p m = .error e t) (f : α → Eval β) :
    (p >>= f) m = .error e t := by
  show EStateM.bind p f m = .error e t
  rw [EStateM.bind, h]

/-- A step that yields a value in another environment has done so there. -/
theorem Eval.ok_of_within {p : Eval α} {env : Environment} {m m' : Interpreter} {a : α}
    (h : Eval.within env p m = .ok a m') : ∃ t, p { m with current := env } = .ok a t := by
  unfold Eval.within at h
  cases hp : p { m with current := env } with
  | ok b t =>
    rw [hp] at h
    cases h
    exact ⟨t, rfl⟩
  | error e t =>
    rw [hp] at h
    cases h

/-- Every result of a step has a property. -/
def Eval.Results (p : Eval α) (post : α → Prop) : Prop :=
  ∀ m a m', p m = .ok a m' → post a

namespace Eval.Results

variable {p : Eval α} {f : α → Eval β} {post : α → Prop} {post' : β → Prop}

/-- The only result of a value at hand is this value. -/
theorem pure {a : α} (h : post a) : Results (Pure.pure a) post := by
  intro m b m' hrun
  cases hrun
  exact h

/-- A run that goes deeper than allotted has no results. -/
theorem exhausted : Results (Eval.exhausted : Eval α) post := by
  intro m a m' hrun
  cases hrun

/-- The results of two steps in a row are those of the second for the results of the first. -/
theorem bind (h : Results p post) (hf : ∀ a, post a → Results (f a) post') :
    Results (p >>= f) post' := by
  intro m b m' hrun
  cases hp : p m with
  | ok a t =>
    rw [bind_of_ok hp] at hrun
    exact hf a (h m a t hp) t b m' hrun
  | error e t =>
    rw [bind_of_error hp] at hrun
    cases hrun

/-- The results of a step behind another one are its own, whatever the first results in. -/
theorem behind (p : Eval α) (hf : ∀ a, Results (f a) post') : Results (p >>= f) post' := by
  have hany : Results p (fun _ => True) := fun _ _ _ _ => trivial
  exact hany.bind fun a _ => hf a

/-- The only result of a step behind one that has completed. -/
theorem eq_of_behind {m t m' : Interpreter} {a : α} {b b' : β} (hp : p m = .ok a t)
    (hf : Results (f a) (· = b')) (h : (p >>= f) m = .ok b m') : b = b' := by
  rw [bind_of_ok hp] at h
  exact hf t b m' h

/-- A step has the same results in another environment. -/
theorem within (h : Results p post) (env : Environment) : Results (Eval.within env p) post := by
  intro m a m' hrun
  obtain ⟨t, hp⟩ := ok_of_within hrun
  exact h _ _ _ hp

end Eval.Results

end Results

/-- One of the given returns can have ended a body in this way. -/
def FlowOver.IsBy (returns : List (Option Expr)) : Flow → Prop
  | .normal => True
  | .returned v => ∃ value ∈ returns, value = none → v = .nil

section Flow

open Eval

variable {returns returns' : List (Option Expr)} {flow : Flow}

/-- More returns can do what fewer can. -/
theorem FlowOver.IsBy.mono (h : flow.IsBy returns) (hsubset : returns ⊆ returns') :
    flow.IsBy returns' := by
  cases flow with
  | normal => trivial
  | returned v =>
    obtain ⟨value, hvalue, hnil⟩ := h
    exact ⟨value, hsubset hvalue, hnil⟩

/-- Statements end by the returns of the one that they come to. -/
theorem executeAll_isBy {execute : Stmt → Eval Flow}
    (h : ∀ s, Results (execute s) (FlowOver.IsBy s.returns)) (ss : List Stmt) :
    Results (executeAll execute ss) (FlowOver.IsBy (Stmt.returnsAll ss)) := by
  induction ss with
  | nil => exact .pure trivial
  | cons s rest ih =>
    refine (h s).bind fun flow hflow => ?_
    cases flow with
    | normal => exact fun m a m' hrun => (ih m a m' hrun).mono (List.subset_append_right _ _)
    | returned v => exact .pure (hflow.mono (List.subset_append_left _ _))

/-- A statement ends by one of its returns, or normally. -/
theorem execute_isBy (depth : Nat) (s : Stmt) : Results (execute depth s) (FlowOver.IsBy s.returns) := by
  induction depth generalizing s with
  | zero => exact .exhausted
  | succ depth ih =>
    cases s with
    | expression expr => exact .behind _ fun _ => .pure trivial
    | print expr => exact .behind _ fun _ => .behind _ fun _ => .pure trivial
    | «variable» name initial =>
      cases initial <;> exact .behind _ fun _ => .behind _ fun _ => .pure trivial
    | block body =>
      exact .behind _ fun _ => .behind _ fun env => (executeAll_isBy ih body).within env
    | conditional condition thenBranch elseBranch =>
      refine .behind _ fun value => ?_
      cases elseBranch with
      | none =>
        split
        · exact ih thenBranch
        · exact .pure trivial
      | some elseBranch =>
        split
        · exact fun m a m' hrun =>
            (ih thenBranch m a m' hrun).mono (List.subset_append_left _ _)
        · exact fun m a m' hrun =>
            (ih elseBranch m a m' hrun).mono (List.subset_append_right _ _)
    | loop condition body =>
      refine .behind _ fun value => ?_
      split
      · refine (ih body).bind fun flow hflow => ?_
        cases flow with
        | normal => exact ih (.loop condition body)
        | returned v => exact .pure hflow
      · exact .pure trivial
    | function declaration =>
      exact .behind _ fun _ => .behind _ fun _ => .behind _ fun _ => .pure trivial
    | «return» keyword value =>
      cases value with
      | none => exact .pure ⟨none, List.mem_singleton_self _, fun _ => rfl⟩
      | some value =>
        exact .behind _ fun v => .pure ⟨some value, List.mem_singleton_self _, fun h => by cases h⟩
    | «class» name methods =>
      exact .behind _ fun _ => .behind _ fun _ => .behind _ fun _ => .pure trivial

/-- A body without returns ends normally. -/
theorem FlowOver.IsBy.eq_normal (h : flow.IsBy returns) (hreturns : returns = []) : flow = .normal := by
  cases flow with
  | normal => rfl
  | returned v =>
    obtain ⟨value, hvalue, -⟩ := h
    rw [hreturns] at hvalue
    cases hvalue

/-- A body whose returns give no values ends normally or returns `nil`. -/
theorem FlowOver.IsBy.eq_nil (h : flow.IsBy returns) (hreturns : ∀ value ∈ returns, value = none) :
    flow = .normal ∨ flow = .returned .nil := by
  cases flow with
  | normal => exact .inl rfl
  | returned v =>
    obtain ⟨value, hvalue, hnil⟩ := h
    exact .inr (congrArg _ (hnil (hreturns value hvalue)))

end Flow

/-- The body of a function that is called with arguments. -/
def runBody (execute : Stmt → Eval Flow) (c : Closure) (arguments : List Value) : Eval Flow := do
  let env ← Eval.enclose c.environment (parameterBindings c.declaration.params arguments)
  Eval.within env (executeAll execute c.declaration.body)

/-- A call runs the body and then decides on the value. -/
theorem invoke_eq_runBody (execute : Stmt → Eval Flow) (c : Closure) (arguments : List Value) :
    invoke execute c arguments = do
      let flow ← runBody execute c arguments
      if c.isInitializer then return c.environment.getAt (← get).store 0 thisName
      else match flow with
        | .normal => return .nil
        | .returned value => return value := by
  rw [runBody, bind_assoc]
  rfl

/-- A body ends by one of its returns, or normally. -/
theorem runBody_isBy (depth : Nat) (c : Closure) (arguments : List Value) :
    Eval.Results (runBody (execute depth) c arguments)
      (FlowOver.IsBy (Stmt.returnsAll c.declaration.body)) :=
  .behind _ fun env => (executeAll_isBy (execute_isBy depth) c.declaration.body).within env

end Lox
