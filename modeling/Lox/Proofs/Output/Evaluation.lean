import Lox.Proofs.Output.Limited

/-!
# Evaluation with limited output

Only `print` adds to the output, and nothing looks at it. So every step of evaluation does the same with a
limited sink, until the sink is full, and only a full sink makes it fail for the output.
-/

set_option autoImplicit false

namespace Lox

variable {n : Nat}

namespace Limits

section Operators

/-- A prefix operator writes nothing. -/
theorem applyUnary (operator : Token) (right : Value) : Limits n (applyUnary operator right) := by
  unfold Lox.applyUnary
  split
  · split
    · exact .pure _
    · exact .fail _ _
  · exact .pure _
  · exact .fail _ _

/-- An operator on two numbers writes nothing. -/
theorem onNumbers (operator : Token) (left right : Value) (f : Float → Float → Value) :
    Limits n (onNumbers operator left right f) := by
  unfold Lox.onNumbers
  split
  · exact .pure _
  · exact .fail _ _

/-- A sum writes nothing. -/
theorem add (operator : Token) (left right : Value) : Limits n (add operator left right) := by
  unfold Lox.add
  split
  · exact .pure _
  · exact .pure _
  · exact .fail _ _

/-- An infix operator writes nothing. -/
theorem applyBinary (operator : Token) (left right : Value) :
    Limits n (applyBinary operator left right) := by
  unfold Lox.applyBinary
  split
  · exact .add _ _ _
  · exact .onNumbers _ _ _ _
  · exact .onNumbers _ _ _ _
  · exact .onNumbers _ _ _ _
  · exact .onNumbers _ _ _ _
  · exact .onNumbers _ _ _ _
  · exact .onNumbers _ _ _ _
  · exact .onNumbers _ _ _ _
  · exact .pure _
  · exact .pure _
  · exact .fail _ _

end Operators

section Steps

/-- Looking up a name writes nothing. -/
theorem lookUp (id : Occurrence) (name : Token) : Limits n (Eval.lookUp id name) := by
  refine .get (fun m => ?_) fun _ => rfl
  split
  · exact .pure _
  · split
    · exact .pure _
    · exact .fail _ _

/-- An assignment writes nothing. -/
theorem assign (id : Occurrence) (name : Token) (value : Value) :
    Limits n (Eval.assign id name value) := by
  refine .of_quiet (fun m => ?_) (fun m t e hresult => ?_) fun m => ?_
  · cases h : m.distances.get? id with
    | some distance =>
      rw [Eval.assign_local h]
      rfl
    | none =>
      rw [Eval.assign_global h]
      split <;> rfl
  · cases h : m.distances.get? id with
    | some distance =>
      rw [Eval.assign_local h] at hresult
      cases hresult
    | none =>
      rw [Eval.assign_global h] at hresult
      split at hresult <;> cases hresult
      exact ⟨_, rfl⟩
  · have hlimited : (m.limited n).distances.get? id = m.distances.get? id := rfl
    cases h : m.distances.get? id with
    | some distance =>
      rw [Eval.assign_local h, Eval.assign_local (hlimited.trans h)]
      rfl
    | none =>
      rw [Eval.assign_global h, Eval.assign_global (hlimited.trans h), Interpreter.limited]
      cases m.topLevel.holder? m.store name.lexeme <;> rfl

/-- A declaration writes nothing. -/
theorem define (name : String) (value : Value) : Limits n (Eval.define name value) :=
  .modify (fun _ => rfl) fun _ => rfl

/-- A new scope writes nothing. -/
theorem enclose (env : Environment) (names : Bindings Value) : Limits n (Eval.enclose env names) :=
  .of_ok (fun _ => rfl) (fun _ => rfl) (fun _ => rfl) fun _ => rfl

/-- A new function writes nothing. -/
theorem newClosure (declaration : FunctionDecl) (env : Environment) (isInitializer : Bool) :
    Limits n (Eval.newClosure declaration env isInitializer) :=
  .of_ok (fun _ => rfl) (fun _ => rfl) (fun _ => rfl) fun _ => rfl

/-- A new class writes nothing. -/
theorem newClass (name : String) (methods : Bindings Closure) : Limits n (Eval.newClass name methods) :=
  .of_ok (fun _ => rfl) (fun _ => rfl) (fun _ => rfl) fun _ => rfl

/-- A new instance writes nothing. -/
theorem newInstance (blueprint : ClassValue) : Limits n (Eval.newInstance blueprint) :=
  .of_ok (fun _ => rfl) (fun _ => rfl) (fun _ => rfl) fun _ => rfl

/-- A method that is taken writes nothing. -/
theorem bindMethod (method : Closure) (i : Instance) : Limits n (Eval.bindMethod method i) :=
  (enclose _ _).bind fun _ => newClosure _ _ _

/-- A property access writes nothing. -/
theorem property (i : Instance) (name : Token) : Limits n (Eval.property i name) := by
  refine .get (fun m => ?_) fun _ => rfl
  split
  · exact .pure _
  · split
    · exact (bindMethod _ i).bind fun _ => .pure _
    · exact .fail _ _

/-- A field that gets a value writes nothing. -/
theorem setField (i : Instance) (name : String) (value : Value) :
    Limits n (Eval.setField i name value) :=
  .modify (fun _ => rfl) fun _ => rfl

/-- The clock writes nothing. -/
theorem readClock : Limits n Eval.readClock := .of_ok (fun _ => rfl) (fun _ => rfl) (fun _ => rfl) fun _ => rfl

/-- A line that does not fit is cut off, and the run stops. -/
theorem printLine (text : String) : Limits n (Eval.printLine text) := by
  constructor
  · intro m
    have hgrows := m.output.write_grows (text ++ "\n")
    unfold Eval.printLine
    split <;> rename_i hwrite <;> rw [hwrite] at hgrows <;> exact hgrows
  · intro m t e hresult
    unfold Eval.printLine at hresult
    split at hresult
    · cases hresult
    · rename_i hwrite
      cases hresult
      obtain ⟨rfl, hlimit⟩ := Sink.write_refused hwrite
      exact .inr ⟨rfl, hlimit⟩
  · intro m hlimit hsize
    have houtput : (m.limited n).output = m.output.limited n := rfl
    unfold Eval.printLine
    rw [Sink.write_unlimited hlimit, houtput]
    by_cases hroom : (text ++ "\n").toUTF8.size ≤ n - m.output.written.size
    · rw [Sink.write_limited_room hroom]
      refine .inl ⟨rfl, ?_⟩
      simp only [endState, ByteArray.size_append]
      omega
    · rw [Sink.write_limited_full hroom]
      refine .inr ⟨_, rfl, ?_, ?_⟩
      · simp only [endState, ByteArray.size_append]
        omega
      · have hwritten : m.output.written.extract 0 n = m.output.written := extract_all hsize
        simp only [endState, ByteArray.extract_append, Nat.zero_sub, hwritten]
        rfl

end Steps

section Parts

variable {execute : Stmt → Eval Flow} {evaluate : Expr → Eval Value}

/-- Expressions keep to the limit one after the other, if each of them does. -/
theorem evaluateAll (h : ∀ e, Limits n (evaluate e)) (es : List Expr) :
    Limits n (Lox.evaluateAll evaluate es) := by
  induction es with
  | nil => exact .pure _
  | cons e rest ih => exact (h e).bind fun _ => ih.bind fun _ => .pure _

/-- Statements keep to the limit one after the other, if each of them does. -/
theorem executeAll (h : ∀ s, Limits n (execute s)) (ss : List Stmt) :
    Limits n (Lox.executeAll execute ss) := by
  induction ss with
  | nil => exact .pure _
  | cons s rest ih =>
    refine (h s).bind fun flow => ?_
    cases flow with
    | normal => exact ih
    | returned value => exact .pure _

/-- A function keeps to the limit if the statements of its body do. -/
theorem invoke (h : ∀ s, Limits n (execute s)) (c : Closure) (arguments : List Value) :
    Limits n (Lox.invoke execute c arguments) := by
  refine (enclose _ _).bind fun env => ((executeAll h _).within env).bind fun flow => ?_
  split
  · exact .get (fun m => .pure _) fun _ => rfl
  · cases flow with
    | normal => exact .pure _
    | returned value => exact .pure _

/-- The methods of a class are closed without writing anything. -/
theorem closeMethods (ds : List FunctionDecl) (methods : Bindings Closure) :
    Limits n (Lox.closeMethods ds methods) := by
  induction ds generalizing methods with
  | nil => exact .pure _
  | cons d rest ih => exact .get (fun m => (newClosure _ _ _).bind fun c => ih _) fun _ => rfl

end Parts

section Trees

variable {depth : Nat}

/-- Everything that is evaluated at a depth keeps to the limit. -/
structure Evaluation (n depth : Nat) : Prop where
  evaluate : ∀ e, Limits n (evaluate depth e)
  execute : ∀ s, Limits n (execute depth s)
  apply : ∀ f arguments, Limits n (apply depth f arguments)

/-- An expression keeps to the limit if its parts do, at a depth less by one. -/
theorem evaluate_succ (h : Evaluation n depth) (e : Expr) : Limits n (evaluate (depth + 1) e) := by
  cases e with
  | literal value => exact .pure _
  | grouping inner => exact h.evaluate inner
  | unary operator right => exact (h.evaluate right).bind fun _ => applyUnary _ _
  | binary left operator right =>
    exact (h.evaluate left).bind fun _ => (h.evaluate right).bind fun _ => applyBinary _ _ _
  | logical left operator right =>
    refine (h.evaluate left).bind fun value => ?_
    split
    · exact .pure _
    · exact h.evaluate right
  | «variable» id name => exact lookUp id name
  | assign id name value =>
    exact (h.evaluate value).bind fun _ => (assign _ _ _).bind fun _ => .pure _
  | call callee paren arguments =>
    refine (h.evaluate callee).bind fun f => (evaluateAll h.evaluate arguments).bind fun args => ?_
    split
    · exact .fail _ _
    · split
      · exact .fail _ _
      · exact h.apply _ _
  | get object name =>
    refine (h.evaluate object).bind fun o => ?_
    cases o with
    | «instance» i => exact property i name
    | _ => exact .fail _ _
  | set object name value =>
    refine (h.evaluate object).bind fun o => ?_
    cases o with
    | «instance» i =>
      exact (h.evaluate value).bind fun _ => (setField _ _ _).bind fun _ => .pure _
    | _ => exact .fail _ _
  | this id keyword => exact lookUp id keyword

/-- A statement keeps to the limit if its parts do, at a depth less by one. -/
theorem execute_succ (h : Evaluation n depth) (s : Stmt) : Limits n (execute (depth + 1) s) := by
  cases s with
  | expression expr => exact (h.evaluate expr).bind fun _ => .pure _
  | print expr => exact (h.evaluate expr).bind fun _ => (printLine _).bind fun _ => .pure _
  | «variable» name initial =>
    have hdefine (p : Eval Value) (hp : Limits n p) :
        Limits n (do Eval.define name.lexeme (← p); return .normal : Eval Flow) :=
      hp.bind fun _ => (define _ _).bind fun _ => .pure _
    cases initial with
    | none => exact hdefine _ (.pure _)
    | some initial => exact hdefine _ (h.evaluate initial)
  | block body =>
    exact .get (fun m => (enclose _ _).bind fun env => (executeAll h.execute body).within env)
      fun _ => rfl
  | conditional condition thenBranch elseBranch =>
    refine (h.evaluate condition).bind fun value => ?_
    split
    · exact h.execute thenBranch
    · cases elseBranch with
      | none => exact .pure _
      | some elseBranch => exact h.execute elseBranch
  | loop condition body =>
    refine (h.evaluate condition).bind fun value => ?_
    split
    · refine (h.execute body).bind fun flow => ?_
      cases flow with
      | normal => exact h.execute _
      | returned value => exact .pure _
    · exact .pure _
  | function declaration =>
    exact .get (fun m => (newClosure _ _ _).bind fun c => (define _ _).bind fun _ => .pure _)
      fun _ => rfl
  | «return» keyword value =>
    cases value with
    | none => exact .pure _
    | some value => exact (h.evaluate value).bind fun _ => .pure _
  | «class» name methods =>
    exact (closeMethods _ _).bind fun _ => (newClass _ _).bind fun _ =>
      (define _ _).bind fun _ => .pure _

/-- A call keeps to the limit if what it runs does, at a depth less by one. -/
theorem apply_succ (h : Evaluation n depth) (f : Value) (arguments : List Value) :
    Limits n (apply (depth + 1) f arguments) := by
  cases f with
  | clock => exact readClock
  | function c => exact invoke h.execute c arguments
  | «class» c =>
    refine (newInstance c).bind fun i => ?_
    cases c.initializer? with
    | none => exact .pure _
    | some method =>
      exact (bindMethod method i).bind fun _ => (invoke h.execute _ arguments).bind fun _ => .pure _
  | _ => exact .pure _

/-- Evaluation keeps to the limit. -/
theorem evaluation (n depth : Nat) : Evaluation n depth := by
  induction depth with
  | zero => exact ⟨fun _ => .exhausted, fun _ => .exhausted, fun _ _ => .exhausted⟩
  | succ depth ih => exact ⟨evaluate_succ ih, execute_succ ih, apply_succ ih⟩

/-- Top-level statements keep to the limit one after the other. -/
theorem executeProgram (depth : Nat) (program : List Stmt) :
    Limits n (Lox.executeProgram (execute depth) program) := by
  induction program with
  | nil => exact .pure _
  | cons s rest ih => exact ((evaluation n depth).execute s).bind fun _ => ih

end Trees

end Limits

end Lox
