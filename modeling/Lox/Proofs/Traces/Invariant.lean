import Lox.Proofs.Methods.Flow
import Lox.Proofs.Traces.Basic
import Lox.Proofs.Traces.Tables

/-!
# Invariants of runs

What is known of a run, and what is kept of it. A world says how much is known by now: which states are possible,
which values are about, and which expressions and statements may be evaluated in which environments. An invariant
is knowledge that every elementary step of evaluation keeps, and that a tree hands on to its parts; these are its
laws, and whoever supplies them is told what holds behind a whole run, and at each moment of it.

A step keeps an invariant if from every state of a world it leads to a state of a later world, along the moments
of its trace. Steps are put together by the rules that are given here, whatever the invariant is.
-/

set_option autoImplicit false

namespace Lox

/-- The expressions that stand directly in an expression. -/
def Expr.operands : Expr → List Expr
  | .literal _ => []
  | .grouping inner => [inner]
  | .unary _ right => [right]
  | .binary left _ right => [left, right]
  | .logical left _ right => [left, right]
  | .variable _ _ => []
  | .assign _ _ value => [value]
  | .call callee _ arguments => callee :: arguments
  | .get object _ => [object]
  | .set object _ value => [object, value]
  | .this _ _ => []

/-- The expressions that stand directly in a statement. -/
def Stmt.operands : Stmt → List Expr
  | .expression expr => [expr]
  | .print expr => [expr]
  | .variable _ initial => initial.toList
  | .conditional condition _ _ => [condition]
  | .loop condition _ => [condition]
  | .return _ value => value.toList
  | _ => []

/-- The statements that stand directly in a statement, and run in the same scope. -/
def Stmt.branches : Stmt → List Stmt
  | .conditional _ thenBranch elseBranch => thenBranch :: elseBranch.toList
  | .loop _ body => [body]
  | _ => []

/-- A plain value is none that remembers an environment. -/
def ValueOver.IsPlain {E : Type} : ValueOver E → Prop
  | .function _ => False
  | .class _ => False
  | .instance _ => False
  | _ => True

/-- A closure is a method of a class that is declared in an environment: under its name, and not bound yet. -/
structure ClosureOver.IsMethod (c : Closure) (name : String) (d : FunctionDecl) (env : Environment) : Prop where
  name : d.name.lexeme = name
  declaration : c.declaration = d
  environment : c.environment = env
  isInitializer : c.isInitializer = d.isInitializer

/-- The function that a state makes of a method. -/
def Interpreter.bound (m : Interpreter) (method : Closure) : Closure :=
  ⟨m.store.created, method.declaration, .child m.store.scopes.size method.environment,
    method.isInitializer⟩

/-- The state with a scope for a method, in which `this` is the instance. -/
def Interpreter.binding (m : Interpreter) (i : Instance) : Interpreter :=
  { m with store :=
    { (m.store.addScope [(thisName, .instance i)]).2 with created := m.store.created + 1 } }

/-- An expression fails with a runtime error by itself, and not because a part of it does. Whatever it finds
out about a value that it calls is a matter of good values. -/
inductive Expr.FailsBy (good : Value → Prop) : Expr → RuntimeError → Prop
  | unary {operator : Token} {right : Expr} {v : Value} {m m' : Interpreter} {error : RuntimeError}
      (h : applyUnary operator v m = .error (.failed (.runtime error)) m') :
      FailsBy good (.unary operator right) error
  | binary {left right : Expr} {operator : Token} {a b : Value} {m m' : Interpreter} {error : RuntimeError}
      (h : applyBinary operator a b m = .error (.failed (.runtime error)) m') :
      FailsBy good (.binary left operator right) error
  | «variable» {id : Occurrence} {name : Token} :
      FailsBy good (.variable id name) ⟨name.line, .undefinedVariable name.lexeme⟩
  | assign {id : Occurrence} {name : Token} {value : Expr} :
      FailsBy good (.assign id name value) ⟨name.line, .undefinedVariable name.lexeme⟩
  | callee {callee : Expr} {paren : Token} {arguments : List Expr} :
      FailsBy good (.call callee paren arguments) ⟨paren.line, .notCallable⟩
  | count {callee : Expr} {paren : Token} {arguments : List Expr} {f : Value} (hf : good f) {arity : Nat}
      (harity : f.arity? = some arity) (hcount : arguments.length ≠ arity) :
      FailsBy good (.call callee paren arguments) ⟨paren.line, .wrongArgumentCount arity arguments.length⟩
  | noProperties {object : Expr} {name : Token} : FailsBy good (.get object name) ⟨name.line, .noProperties⟩
  | property {object : Expr} {name : Token} :
      FailsBy good (.get object name) ⟨name.line, .undefinedProperty name.lexeme⟩
  | noFields {object value : Expr} {name : Token} : FailsBy good (.set object name value) ⟨name.line, .noFields⟩
  | this {id : Occurrence} {keyword : Token} :
      FailsBy good (.this id keyword) ⟨keyword.line, .undefinedVariable keyword.lexeme⟩

/-- No method is taken where something ends. -/
theorem Event.ended_ne_taken (i : Instance) (name : String) (bound : Closure) : Event.ended ≠ .taken i name bound :=
  nofun

/-- What may be known of a run. -/
structure Knowledge where
  /-- How much is known by now. -/
  World : Type
  /-- One world leads to another, with just the given moments in between. -/
  Leads : World → List Moment → World → Prop
  /-- A state is as it is known to be, apart from the values in its store. -/
  Holds : World → Interpreter → Prop
  /-- A value is one of those that may be in a store. -/
  Good : World → Value → Prop
  /-- An environment may become the current one. -/
  MayEnter : World → Environment → Prop
  /-- An expression may be evaluated in an environment. -/
  MayEvaluate : World → Environment → Expr → Prop
  /-- A statement may run in an environment. -/
  MayExecute : World → Environment → Stmt → Prop
  /-- A run may have failed. -/
  MayFail : World → Failure → Prop

namespace Knowledge

variable (K : Knowledge)

/-- A state is as it is known to be, and all values in its store are good. -/
structure Possible (w : K.World) (m : Interpreter) : Prop where
  holds : K.Holds w m
  good : m.store.All (K.Good w)

/-- The value with which a statement ended is good, if there is one. -/
def GoodFlow (w : K.World) : Flow → Prop
  | .normal => True
  | .returned v => K.Good w v

/-- A moment is as it is known to be: in its state, in the values that it is about, and in the expression whose
evaluation begins there. A method that is taken is one of the class, in a new scope inside its own environment. -/
structure Fits (w : K.World) (x : Moment) : Prop where
  possible : K.Possible w x.state
  values : ∀ v ∈ x.event.values, K.Good w v
  expression : ∀ depth e, x.event = .expression depth e → 0 < depth ∧ K.MayEvaluate w x.state.current e
  taken : ∀ i name bound, x.event = .taken i name bound →
    ∃ method scope, i.blueprint.methods.get? name = some method ∧
      bound.declaration = method.declaration ∧ bound.environment = .child scope method.environment

/-- In a new scope inside an environment, with the given names, some statements may run. -/
def Opens (w : K.World) (m : Interpreter) (env : Environment) (names : Bindings Value) (body : List Stmt) : Prop :=
  ∃ w', K.Leads w [] w' ∧ K.Holds w' { m with store := (m.store.addScope names).2 } ∧
    K.MayEnter w' (.child m.store.scopes.size env) ∧
    ∀ s ∈ body, K.MayExecute w' (.child m.store.scopes.size env) s

/-- A run may have failed, or it is the given expression that has failed by itself. -/
def Owns (e : Expr) (w : K.World) (failure : Failure) : Prop :=
  K.MayFail w failure ∨ ∃ error ∈ failure.runtime?, e.FailsBy (K.Good w) error

end Knowledge

/-- Knowledge that evaluation keeps, with the laws from which this follows. -/
structure Invariant extends Knowledge where
  leads_refl (w : World) : Leads w [] w
  leads_trans {w w₁ w' : World} {moments moments' : List Moment} (h : Leads w moments w₁)
    (h' : Leads w₁ moments' w') : Leads w (moments ++ moments') w'
  -- what is known stays so
  good_mono {w w' : World} {moments : List Moment} {v : Value} (hw : Leads w moments w') (h : Good w v) : Good w' v
  mayEnter_mono {w w' : World} {moments : List Moment} {env : Environment} (hw : Leads w moments w')
    (h : MayEnter w env) : MayEnter w' env
  mayEvaluate_mono {w w' : World} {moments : List Moment} {env : Environment} {e : Expr} (hw : Leads w moments w')
    (h : MayEvaluate w env e) : MayEvaluate w' env e
  mayExecute_mono {w w' : World} {moments : List Moment} {env : Environment} {s : Stmt} (hw : Leads w moments w')
    (h : MayExecute w env s) : MayExecute w' env s
  mayFail_mono {w w' : World} {moments : List Moment} {failure : Failure} (hw : Leads w moments w')
    (h : MayFail w failure) : MayFail w' failure
  /-- At any moment but one at which a method is taken, nothing changes. -/
  passes {w : World} {m : Interpreter} {event : Event} (hm : Holds w m)
    (hevent : ∀ i name bound, event ≠ .taken i name bound) : ∃ w', Leads w [⟨event, m⟩] w' ∧ Holds w' m
  -- the parts of a tree
  operand {w : World} {env : Environment} {e operand : Expr} (h : MayEvaluate w env e) (hmem : operand ∈ e.operands) :
    MayEvaluate w env operand
  operand_stmt {w : World} {env : Environment} {s : Stmt} {operand : Expr} (h : MayExecute w env s)
    (hmem : operand ∈ s.operands) : MayEvaluate w env operand
  branch {w : World} {env : Environment} {s branch : Stmt} (h : MayExecute w env s) (hmem : branch ∈ s.branches) :
    MayExecute w env branch
  -- the environments that are entered
  mayEnter_current {w : World} {m : Interpreter} (hm : Holds w m) : MayEnter w m.current
  mayEnter_topLevel {w : World} {m : Interpreter} (hm : Holds w m) : MayEnter w m.topLevel
  entering {w : World} {m : Interpreter} {env : Environment} (hm : Holds w m) (henv : MayEnter w env) :
    Holds w { m with current := env }
  opens_block {w : World} {m : Interpreter} {body : List Stmt} (hm : Holds w m)
    (h : MayExecute w m.current (.block body)) : toKnowledge.Opens w m m.current [] body
  opens_function {w : World} {m : Interpreter} {c : Closure} {arguments : List Value} (hm : Holds w m)
    (hc : Good w (.function c)) (harguments : ∀ v ∈ arguments, Good w v) :
    toKnowledge.Opens w m c.environment (parameterBindings c.declaration.params arguments) c.declaration.body
  -- the values that are found or made
  good_plain {w : World} {v : Value} (hv : v.IsPlain) : Good w v
  good_instance {w : World} {i : Instance} (h : Good w (.class i.blueprint)) : Good w (.instance i)
  good_function {w : World} {c : Closure} (henv : MayEnter w c.environment)
    (h : MayExecute w c.environment (.function c.declaration)) (hc : c.isInitializer = false) : Good w (.function c)
  good_class {w : World} {env : Environment} {name : Token} {ds : List FunctionDecl} {c : ClassValue}
    (henv : MayEnter w env) (h : MayExecute w env (.class name ds))
    (hc : ∀ x method, c.methods.get? x = some method → ∃ d ∈ ds, method.IsMethod x d env) : Good w (.class c)
  -- the steps that change a state
  elsewhere {w : World} {m m' : Interpreter} (hm : Holds w m) (hscopes : m'.store.scopes = m.store.scopes)
    (hcurrent : m'.current = m.current) (htopLevel : m'.topLevel = m.topLevel)
    (hdistances : m'.distances = m.distances) : Holds w m'
  assigns {w : World} {m : Interpreter} {id : Occurrence} {name : Token} {value : Expr} {v : Value} (hm : Holds w m)
    (h : MayEvaluate w m.current (.assign id name value)) (hv : Good w v) :
    Holds w (endState (Eval.assign id name v m))
  defines {w : World} {m : Interpreter} {s : Stmt} {name : Token} {v : Value} (hm : Holds w m)
    (h : MayExecute w m.current s) (hname : s.declared? = some name) (hv : Good w v) :
    Holds w { m with store := m.store.define m.current.scope name.lexeme v }
  takes {w : World} {m : Interpreter} {i : Instance} {name : String} {method : Closure} (hm : Holds w m)
    (hi : Good w (.instance i)) (hmethod : i.blueprint.methods.get? name = some method) :
    ∃ w', Leads w [⟨.taken i name (m.bound method), m.binding i⟩] w' ∧ Holds w' (m.binding i) ∧
      Good w' (.function (m.bound method))
  -- the failures
  mayFail_output {w : World} {e : SinkError} : MayFail w (.output e)
  /-- An expression that has failed by itself has begun at a moment before. -/
  mayFail_own {w w' : World} {depth : Nat} {e : Expr} {m t : Interpreter} {moments : List Moment}
    {error : RuntimeError} (hw : Leads w (⟨.expression depth e, m⟩ :: moments) w') (he : MayEvaluate w m.current e)
    (herror : e.FailsBy (Good w') error) (hrun : evaluate depth e m = .error (.failed (.runtime error)) t) :
    MayFail w' (.runtime error)

section Possible

variable {I : Invariant} {w w' : I.World} {m : Interpreter}

/-- Another environment becomes the current one. -/
theorem Knowledge.Possible.entering (h : I.Possible w m) {env : Environment} (henv : I.MayEnter w env) :
    I.Possible w { m with current := env } :=
  ⟨I.entering h.holds henv, h.good⟩

/-- A state is possible at a moment as before, if no method is taken there. -/
theorem Knowledge.Possible.passes (h : I.Possible w m) {event : Event} (hevent : ∀ i name bound, event ≠ .taken i name bound) :
    ∃ w', I.Leads w [⟨event, m⟩] w' ∧ I.Possible w' m := by
  obtain ⟨w', hw', hm'⟩ := I.passes h.holds hevent
  exact ⟨w', hw', hm', h.good.imp fun _ hv => I.good_mono hw' hv⟩

/-- A new scope comes with good values. -/
theorem Knowledge.Possible.addScope (h : I.Possible w m) (hw : I.Leads w [] w') {names : Bindings Value}
    (hm : I.Holds w' { m with store := (m.store.addScope names).2 }) (hnames : names.All (I.Good w)) :
    I.Possible w' { m with store := (m.store.addScope names).2 } :=
  ⟨hm, (h.good.addScope hnames).imp fun _ hv => I.good_mono hw hv⟩

/-- A state stays possible where its scopes do not change, if the values in its fields are good. -/
theorem Knowledge.Possible.elsewhere (h : I.Possible w m) {m' : Interpreter} (hgood : m'.store.All (I.Good w))
    (hscopes : m'.store.scopes = m.store.scopes) (hcurrent : m'.current = m.current)
    (htopLevel : m'.topLevel = m.topLevel) (hdistances : m'.distances = m.distances) : I.Possible w m' :=
  ⟨I.elsewhere h.holds hscopes hcurrent htopLevel hdistances, hgood⟩

end Possible

namespace Invariant

variable {I : Invariant}

/-- One world leads to another, and at each of the moments in between there is a world that it fits. -/
inductive Path (I : Invariant) : I.World → List Moment → I.World → Prop
  | silent {w w' : I.World} (h : I.Leads w [] w') : I.Path w [] w'
  | moment {w w₁ w' : I.World} {x : Moment} {rest : List Moment} (h : I.Leads w [x] w₁) (hx : I.Fits w₁ x)
      (hrest : I.Path w₁ rest w') : I.Path w (x :: rest) w'

namespace Path

variable {w w₁ w' : I.World} {moments moments' : List Moment}

/-- A path leads from its beginning to its end. -/
theorem leads (h : I.Path w moments w') : I.Leads w moments w' := by
  induction h with
  | silent h => exact h
  | moment h _ _ ih => exact I.leads_trans h ih

/-- A path may begin with a silent step. -/
theorem behind (hw : I.Leads w [] w₁) (h : I.Path w₁ moments w') : I.Path w moments w' := by
  cases h with
  | silent h => exact .silent (I.leads_trans hw h)
  | moment h hx hrest => exact .moment (I.leads_trans hw h) hx hrest

/-- Two paths make one. -/
theorem append (h : I.Path w moments w₁) (h' : I.Path w₁ moments' w') : I.Path w (moments ++ moments') w' := by
  induction h with
  | silent hw => exact h'.behind hw
  | moment hw hx _ ih => exact .moment hw hx (ih h')

/-- At each moment of a path there is a world that it fits, and to which the moments up to there lead. -/
theorem fits {before after : List Moment} {x : Moment} (h : I.Path w (before ++ x :: after) w') :
    ∃ w₁, I.Leads w (before ++ [x]) w₁ ∧ I.Fits w₁ x := by
  induction before generalizing w with
  | nil =>
    cases h with
    | moment hw hx _ => exact ⟨_, hw, hx⟩
  | cons y rest ih =>
    cases h with
    | moment hw _ hrest =>
      obtain ⟨w₁, hw₁, hx⟩ := ih hrest
      have hbegins := I.leads_trans hw hw₁
      exact ⟨w₁, hbegins, hx⟩

end Path

end Invariant

/-- A step has ended as is asked: it has yielded a value of one kind, or has failed in one way, or the allotted
number of steps was used up. -/
def Meets {α : Type} (post : α → Prop) (fails : Failure → Prop) : EStateM.Result Halt Interpreter α → Prop
  | .ok a _ => post a
  | .error (.failed failure) _ => fails failure
  | .error .exhausted _ => True

/-- A step that ends as is asked also ends as less is asked. -/
theorem Meets.imp {α : Type} {post post₁ : α → Prop} {fails fails₁ : Failure → Prop}
    {result : EStateM.Result Halt Interpreter α} (h : Meets post fails result) (hpost : ∀ a, post a → post₁ a)
    (hfails : ∀ failure, fails failure → fails₁ failure) : Meets post₁ fails₁ result := by
  cases result with
  | ok a t => exact hpost a h
  | error e t =>
    cases e with
    | failed failure => exact hfails failure h
    | exhausted => trivial

/-- Behind a step in another environment, only the current one is put back. -/
theorem endState_within {α : Type} (env : Environment) (p : Eval α) (m : Interpreter) :
    endState (Eval.within env p m) = { endState (p { m with current := env }) with current := m.current } := by
  unfold Eval.within
  cases p { m with current := env } <;> rfl

/-- A step in another environment ends as it does there. -/
theorem Meets.within {α : Type} {post : α → Prop} {fails : Failure → Prop} {env : Environment} {p : Eval α}
    (m : Interpreter) (h : Meets post fails (p { m with current := env })) :
    Meets post fails (Eval.within env p m) := by
  unfold Eval.within
  cases hp : p { m with current := env } with
  | ok a t => rwa [hp] at h
  | error e t =>
    rw [hp] at h
    cases e with
    | failed failure => exact h
    | exhausted => trivial

/-- A step that begins in a state of a world keeps an invariant, by its result and the moments in between: it
stays in its environment, comes to a state of a later world, and ends as is asked. -/
structure KeepsFrom (I : Invariant) {α : Type} (w : I.World) (m : Interpreter)
    (result : EStateM.Result Halt Interpreter α) (moments : List Moment) (post : I.World → α → Prop)
    (fails : I.World → Failure → Prop) : Prop where
  current : (endState result).current = m.current
  topLevel : (endState result).topLevel = m.topLevel
  ends : ∃ w', I.Path w moments w' ∧ I.Possible w' (endState result) ∧ Meets (post w') (fails w') result

/-- A step keeps an invariant from every state of a world that is in the given environment. -/
def Keeps (I : Invariant) {α : Type} (w : I.World) (env : Environment) (p : Eval α)
    (trace : Interpreter → List Moment) (post : I.World → α → Prop) (fails : I.World → Failure → Prop) : Prop :=
  ∀ m, I.Possible w m → m.current = env → KeepsFrom I w m (p m) (trace m) post fails

/-- A step without a trace keeps an invariant. -/
abbrev KeepsQuietly (I : Invariant) {α : Type} (w : I.World) (env : Environment) (p : Eval α)
    (post : I.World → α → Prop) (fails : I.World → Failure → Prop) : Prop :=
  Keeps I w env p (fun _ => []) post fails

section Rules

variable {I : Invariant} {α β : Type} {w : I.World} {env : Environment} {p : Eval α} {f : α → Eval β}
  {trace : Interpreter → List Moment} {next : α → Interpreter → List Moment}
  {post : I.World → α → Prop} {post' : I.World → β → Prop} {fails fails' : I.World → Failure → Prop}

namespace KeepsQuietly

/-- A step that stays in its world. -/
theorem of_holds (h : ∀ m, I.Possible w m → m.current = env →
    (endState (p m)).current = m.current ∧ (endState (p m)).topLevel = m.topLevel ∧ I.Possible w (endState (p m)) ∧
      Meets (post w) (fails w) (p m)) : KeepsQuietly I w env p post fails := by
  intro m hm hcurrent
  obtain ⟨hcurrent', htopLevel, hend, hmeets⟩ := h m hm hcurrent
  exact ⟨hcurrent', htopLevel, w, .silent (I.leads_refl w), hend, hmeets⟩

/-- A step that always succeeds, and stays in its world. -/
theorem of_ok {result : Interpreter → α} {change : Interpreter → Interpreter}
    (hp : ∀ m, p m = .ok (result m) (change m)) (hcurrent : ∀ m, (change m).current = m.current)
    (htopLevel : ∀ m, (change m).topLevel = m.topLevel)
    (h : ∀ m, I.Possible w m → m.current = env → I.Possible w (change m) ∧ post w (result m)) :
    KeepsQuietly I w env p post fails := by
  refine of_holds fun m hm henv => ?_
  rw [hp m]
  exact ⟨hcurrent m, htopLevel m, h m hm henv⟩

/-- A value that is at hand. -/
theorem pure {a : α} (h : post w a) : KeepsQuietly I w env (Pure.pure a) post fails :=
  of_ok (fun _ => rfl) (fun _ => rfl) (fun _ => rfl) fun _ hm _ => ⟨hm, h⟩

/-- A runtime error at a token keeps the invariant if the run may fail so. -/
theorem fail {token : Token} {cause : RuntimeCause} (h : fails w (.runtime ⟨token.line, cause⟩)) :
    KeepsQuietly I w env (Eval.fail token cause) post fails :=
  of_holds fun _ hm _ => ⟨rfl, rfl, hm, h⟩

/-- A run that goes deeper than allotted keeps the invariant. -/
theorem exhausted : KeepsQuietly I w env Eval.exhausted post fails :=
  of_holds fun _ hm _ => ⟨rfl, rfl, hm, trivial⟩

/-- A step that looks at its own state first may be handed any possible state. -/
theorem get {step : Interpreter → Eval α}
    (h : ∀ m, I.Possible w m → m.current = env → KeepsQuietly I w env (step m) post fails) :
    KeepsQuietly I w env (MonadState.get >>= step) post fails :=
  fun m hm hcurrent => h m hm hcurrent m hm hcurrent

end KeepsQuietly

namespace Keeps

/-- The same step, with its trace written in another way. -/
theorem congr (h : Keeps I w env p trace post fails) {trace' : Interpreter → List Moment}
    (htrace : ∀ m, trace' m = trace m) : Keeps I w env p trace' post fails := by
  intro m hm hcurrent
  rw [htrace m]
  exact h m hm hcurrent

/-- The same step, of which less is asked. -/
theorem imp (h : Keeps I w env p trace post fails) {post₁ : I.World → α → Prop}
    (hpost : ∀ {w' moments a}, I.Leads w moments w' → post w' a → post₁ w' a)
    (hfails : ∀ {w' failure}, fails w' failure → fails' w' failure) : Keeps I w env p trace post₁ fails' := by
  intro m hm hcurrent
  obtain ⟨hcurrent', htopLevel, w', hw', hend, hmeets⟩ := h m hm hcurrent
  exact ⟨hcurrent', htopLevel, w', hw', hend, hmeets.imp (fun _ => hpost hw'.leads) fun _ => hfails⟩

/-- A step may rely on it that its environment has been entered. -/
theorem entered (h : I.MayEnter w env → Keeps I w env p trace post fails) : Keeps I w env p trace post fails :=
  fun m hm hcurrent => h (hcurrent ▸ I.mayEnter_current hm.holds) m hm hcurrent

/-- Two steps in a row keep the invariant if each does. -/
theorem bind (h : Keeps I w env p trace post fails)
    (hf : ∀ {w' moments} (a : α), I.Leads w moments w' → post w' a → Keeps I w' env (f a) (next a) post' fails) :
    Keeps I w env (p >>= f) (fun m => trace m ++ Trace.behind (p m) next) post' fails := by
  intro m hm hcurrent
  obtain ⟨hcurrent₁, htopLevel₁, w₁, hw₁, hend₁, hmeets⟩ := h m hm hcurrent
  show KeepsFrom I w m ((p >>= f) m) (trace m ++ Trace.behind (p m) next) post' fails
  cases hp : p m with
  | ok a t =>
    rw [hp] at hcurrent₁ htopLevel₁ hend₁ hmeets
    obtain ⟨hcurrent₂, htopLevel₂, w₂, hw₂, hends⟩ := hf a hw₁.leads hmeets t hend₁ (hcurrent₁.trans hcurrent)
    rw [Eval.bind_of_ok hp f]
    exact ⟨hcurrent₂.trans hcurrent₁, htopLevel₂.trans htopLevel₁, w₂, hw₁.append hw₂, hends⟩
  | error e t =>
    rw [hp] at hcurrent₁ htopLevel₁ hend₁ hmeets
    rw [Eval.bind_of_error hp f]
    have htrace : trace m ++ Trace.behind (.error e t) next = trace m := List.append_nil _
    rw [htrace]
    refine ⟨hcurrent₁, htopLevel₁, w₁, hw₁, hend₁, ?_⟩
    cases e with
    | failed failure => exact hmeets
    | exhausted => trivial

/-- A step behind another one that has no trace. -/
theorem behind (h : KeepsQuietly I w env p post fails)
    (hf : ∀ {w' moments} (a : α), I.Leads w moments w' → post w' a → Keeps I w' env (f a) (next a) post' fails) :
    Keeps I w env (p >>= f) (fun m => Trace.behind (p m) next) post' fails :=
  Keeps.bind h hf

/-- A step without a trace behind another one. -/
theorem thenQuietly (h : Keeps I w env p trace post fails)
    (hf : ∀ {w' moments} (a : α), I.Leads w moments w' → post w' a → KeepsQuietly I w' env (f a) post' fails) :
    Keeps I w env (p >>= f) trace post' fails := by
  refine (h.bind hf).congr fun m => ?_
  cases p m <;> exact (List.append_nil _).symm

/-- A step in another environment. It is left again, however the step ends. -/
theorem within {inner : Environment} (h : Keeps I w inner p trace post fails) (hinner : I.MayEnter w inner) :
    Keeps I w env (Eval.within inner p) (fun m => trace { m with current := inner }) post fails := by
  intro m hm hcurrent
  obtain ⟨-, htopLevel, w', hw', hend, hmeets⟩ := h { m with current := inner } (hm.entering hinner) rfl
  have hback : I.MayEnter w' m.current := I.mayEnter_mono hw'.leads (I.mayEnter_current hm.holds)
  have hleft := endState_within inner p m
  constructor
  case current => rw [hleft]
  case topLevel =>
    rw [hleft]
    exact htopLevel
  case ends =>
    rw [hleft]
    exact ⟨w', hw', hend.entering hback, hmeets.within m⟩

/-- A step in a new scope inside an environment, in which some statements may run. -/
theorem enclosed {outer : Environment} {names : Bindings Value} {body : List Stmt}
    (hopens : ∀ m, I.Possible w m → m.current = env → I.Opens w m outer names body ∧ names.All (I.Good w))
    (h : ∀ {w' inner}, (∀ s ∈ body, I.MayExecute w' inner s) → Keeps I w' inner p trace post fails) :
    Keeps I w env (do let inner ← Eval.enclose outer names; Eval.within inner p) (Trace.enclosed outer names trace)
      post fails := by
  intro m hm hcurrent
  obtain ⟨hopened, hnames⟩ := hopens m hm hcurrent
  obtain ⟨w₁, hw₁, hm₁, hinner, hbody⟩ := hopened
  replace hm₁ := hm.addScope hw₁ hm₁ hnames
  obtain ⟨hcurrent', htopLevel, w', hw', hends⟩ := (h hbody).within hinner _ hm₁ hcurrent
  exact ⟨hcurrent', htopLevel, w', hw'.behind hw₁, hends⟩

/-- A step behind a moment that fits. -/
theorem cons {event : Event} (hevent : ∀ i name bound, event ≠ .taken i name bound)
    (hvalues : ∀ v ∈ event.values, I.Good w v)
    (hexpression : ∀ depth e, event = .expression depth e → 0 < depth ∧ I.MayEvaluate w env e)
    (h : ∀ {w' m}, I.Leads w [⟨event, m⟩] w' → Keeps I w' env p trace post fails) :
    Keeps I w env p (fun m => ⟨event, m⟩ :: trace m) post fails := by
  intro m hm hcurrent
  obtain ⟨w₁, hw₁, hm₁⟩ := hm.passes hevent
  obtain ⟨hcurrent', htopLevel, w', hw', hends⟩ := h hw₁ m hm₁ hcurrent
  have hfits : I.Fits w₁ ⟨event, m⟩ :=
    ⟨hm₁, fun v hv => I.good_mono hw₁ (hvalues v hv),
      fun depth e heq => (hexpression depth e heq).imp_right fun he => I.mayEvaluate_mono hw₁ (hcurrent.symm ▸ he),
      fun i name bound heq => absurd heq (hevent i name bound)⟩
  exact ⟨hcurrent', htopLevel, w', .moment hw₁ hfits hw', hends⟩

/-- A step from its beginning to its end. What it may fail with by itself is one thing that the run may have
failed with, now that its beginning is known. -/
theorem around {event : Event} (hevent : ∀ i name bound, event ≠ .taken i name bound)
    (hvalues : ∀ v ∈ event.values, I.Good w v)
    (hexpression : ∀ depth e, event = .expression depth e → 0 < depth ∧ I.MayEvaluate w env e)
    (hpost : ∀ {w₁ w₂ moments a}, I.Leads w₁ moments w₂ → post w₁ a → post w₂ a)
    (hfails : ∀ {m w' moments failure t}, m.current = env → I.Leads w (⟨event, m⟩ :: moments) w' →
      p m = .error (.failed failure) t → fails w' failure → I.MayFail w' failure)
    (h : ∀ {w' m}, I.Leads w [⟨event, m⟩] w' → Keeps I w' env p trace post fails) :
    Keeps I w env p (Trace.around event p trace) post I.MayFail := by
  intro m hm hcurrent
  obtain ⟨hcurrent', htopLevel, w₁, hw₁, hend, hmeets⟩ := cons hevent hvalues hexpression h m hm hcurrent
  obtain ⟨w₂, hw₂, hend₂⟩ := hend.passes Event.ended_ne_taken
  have hended : I.Fits w₂ ⟨.ended, endState (p m)⟩ := ⟨hend₂, nofun, nofun, nofun⟩
  refine ⟨hcurrent', htopLevel, w₂, hw₁.append (.moment hw₂ hended (.silent (I.leads_refl w₂))), hend₂, ?_⟩
  cases hp : p m with
  | ok a t =>
    rw [hp] at hw₂ hmeets
    exact hpost hw₂ hmeets
  | error e t =>
    cases e with
    | failed failure =>
      rw [hp] at hw₂ hmeets
      exact I.mayFail_mono hw₂ (hfails hcurrent hw₁.leads hp hmeets)
    | exhausted => trivial

end Keeps

end Rules

end Lox
