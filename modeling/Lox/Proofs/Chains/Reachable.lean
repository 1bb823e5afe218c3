import Lox.Proofs.Chains.Links

/-!
# Environments in use

Which environments exist is not written down in a state: they are found by following what refers to them. Here are
those that an interpreter uses, the states that it reaches together with what is kept outside of it on the way, and
what holds of all of them: whatever is run, and however it ends, the interpreter stands in the same environment as
before, no link has changed, and every chain ends in the root.

What is kept only grows. All that has been in use at a state is kept at the states behind it, so a chain from
before a run can be compared with any chain after it, also if nothing else refers to it any more.
-/

set_option autoImplicit false

namespace Lox

/-- An environment is in use: the interpreter refers to it, or a value that it holds, or something outside that is
kept, or an environment in use that stands inside of it. -/
inductive Interpreter.InUse (m : Interpreter) (kept : Environment → Prop) : Environment → Prop where
  | kept {env : Environment} (h : kept env) : m.InUse kept env
  | current : m.InUse kept m.current
  | topLevel : m.InUse kept m.topLevel
  | variable {scope : ScopeId} {name : String} {v : Value} {env : Environment}
      (hv : (m.store.scope scope).get? name = some v) (h : v.Captures env) : m.InUse kept env
  | field {i : Instance} {name : String} {v : Value} {env : Environment}
      (hv : m.store.field? i name = some v) (h : v.Captures env) : m.InUse kept env
  | enclosing {scope : ScopeId} {env : Environment} (h : m.InUse kept (.child scope env)) : m.InUse kept env

/-- An environment is kept from now on, because it has been in use, or because a value at hand captures it. -/
def Interpreter.Keeps (m : Interpreter) (kept : Environment → Prop) (values : List Value) (env : Environment) :
    Prop :=
  m.InUse kept env ∨ ∃ v ∈ values, v.Captures env

/-- What an interpreter can be told to run. -/
inductive Job where
  | expression (e : Expr)
  | statement (s : Stmt)
  /-- Statements that run in an environment. -/
  | block (env : Environment) (body : List Stmt)
  /-- A call, with any number of arguments. -/
  | call (f : Value) (arguments : List Value)

/-- The value with which a statement returned, if it did. -/
def FlowOver.value? {E : Type} : FlowOver E → Option (ValueOver E)
  | .normal => none
  | .returned v => some v

namespace Job

/-- Runs a job. It may yield a value. -/
def run (depth : Nat) : Job → Eval (Option Value)
  | expression e => do return some (← evaluate depth e)
  | statement s => do return (← execute depth s).value?
  | block env body => do return (← Eval.within env (executeAll (execute depth) body)).value?
  | call f arguments => do return some (← apply depth f arguments)

/-- The moments of a job. -/
def trace (depth : Nat) : Job → Interpreter → List Moment
  | expression e => Trace.evaluate depth e
  | statement s => Trace.execute depth s
  | block env body => fun m => Trace.executeAll (Trace.execute depth) (execute depth) body { m with current := env }
  | call f arguments => Trace.apply depth f arguments

/-- The environments that a job comes with. -/
def Brings (job : Job) (env : Environment) : Prop :=
  match job with
  | expression _ => False
  | statement _ => False
  | block inner _ => inner = env
  | call f arguments => ∃ v ∈ f :: arguments, v.Captures env

end Job

/-- The value that a run has yielded, if there is one. -/
def yielded : EStateM.Result Halt Interpreter (Option Value) → List Value
  | .ok v? _ => v?.toList
  | .error _ _ => []

/-- The states of an interpreter, from when it has run nothing, and what is kept outside of it by then. -/
inductive Interpreter.Reachable : Interpreter → (Environment → Prop) → Prop where
  | fresh (clock : Nat → Float) (output : Sink) : Reachable (.fresh clock output) fun _ => False
  /-- Distances are recorded, be they right or wrong, or the output is replaced. -/
  | adapted {m m' : Interpreter} {kept : Environment → Prop} (h : Reachable m kept) (hstore : m'.store = m.store)
      (hcurrent : m'.current = m.current) (htopLevel : m'.topLevel = m.topLevel) : Reachable m' kept
  /-- Another environment becomes the current one, as the one of the top level does when a program begins. -/
  | entered {m : Interpreter} {kept : Environment → Prop} (h : Reachable m kept) {env : Environment}
      (henv : m.InUse kept env) : Reachable { m with current := env } (m.Keeps kept [])
  /-- A new scope is made inside an environment, for names with their values. -/
  | enclosed {m : Interpreter} {kept : Environment → Prop} (h : Reachable m kept) {env : Environment}
      (henv : m.InUse kept env) {names : Bindings Value}
      (hnames : ∀ name v, names.get? name = some v → ∀ env, v.Captures env → m.InUse kept env) :
      Reachable { m with store := (m.store.addScope names).2 }
        fun env' => m.Keeps kept [] env' ∨ env' = .child (m.store.addScope names).1 env
  /-- A job has ended, in one way or another. -/
  | after {m : Interpreter} {kept : Environment → Prop} (h : Reachable m kept) {job : Job}
      (hjob : ∀ env, job.Brings env → m.InUse kept env) (depth : Nat) :
      Reachable (endState (job.run depth m)) (m.Keeps kept (yielded (job.run depth m)))
  /-- A job is under way, which need not end. -/
  | during {m : Interpreter} {kept : Environment → Prop} (h : Reachable m kept) {job : Job}
      (hjob : ∀ env, job.Brings env → m.InUse kept env) (depth : Nat) {x : Moment} (hx : x ∈ job.trace depth m) :
      Reachable x.state (m.Keeps kept x.event.values)

/-- What is left as it was between two states, of which the later one keeps what is in use at the earlier one. -/
structure Interpreter.Restored (m : Interpreter) (kept : Environment → Prop) (m' : Interpreter)
    (kept' : Environment → Prop) : Prop where
  current : m'.current = m.current
  topLevel : m'.topLevel = m.topLevel
  /-- A scope stands inside of the same ones as before. -/
  links : ∀ env env', m.InUse kept env → m'.InUse kept' env' → env'.scope = env.scope → env' = env
  /-- A chain ends in the root, by no more links than there are scopes before its own. -/
  ends : ∀ env, m'.InUse kept' env → ∃ distance ≤ env.scope, env.ancestor distance = .root 0

section Links

variable {m : Interpreter} {kept : Environment → Prop} {links : List Environment}

/-- All that is in use is linked, if the state and what is kept are. -/
theorem Interpreter.InUse.linkedIn {env : Environment} (h : m.InUse kept env) (hm : linksKept.Possible links m)
    (hkept : ∀ env, kept env → env.LinkedIn links) : env.LinkedIn links := by
  induction h with
  | kept h => exact hkept _ h
  | current => exact hm.holds.current
  | topLevel => exact hm.holds.topLevel
  | «variable» hv h => exact hm.good.scopes _ _ _ hv _ h
  | field hv h => exact hm.good.field? hv _ h
  | enclosing _ ih => exact ih.2.2

/-- What the value of a name captures is in use, wherever the name is looked up. -/
theorem Interpreter.InUse.named {place env : Environment} {x : String}
    (h : ((place.get? m.store x).getD .nil).Captures env) : m.InUse kept env := by
  have hcaptured : m.store.All fun v => ∀ env, v.Captures env → m.InUse kept env :=
    ⟨fun _ _ _ hv _ h => .variable hv h, fun i _ _ hv _ h => .field (i := ⟨i, 0, "", []⟩) hv h⟩
  cases hv : place.get? m.store x with
  | none =>
    rw [hv] at h
    cases h
  | some v =>
    rw [hv] at h
    exact hcaptured.get? hv env h

/-- All that is kept from now on is linked, and stays so when more is made. -/
theorem Interpreter.keeps_linkedIn (hm : linksKept.Possible links m) (hkept : ∀ env, kept env → env.LinkedIn links)
    {links' : List Environment} (hgrows : links <+: links') {values : List Value}
    (hvalues : ∀ v ∈ values, v.LinkedIn links') : ∀ env, m.Keeps kept values env → env.LinkedIn links' := by
  rintro env (h | ⟨v, hv, h⟩)
  · exact (h.linkedIn hm hkept).mono hgrows
  · exact hvalues v hv env h

/-- What a run has yielded is linked, if this is known of its result. -/
theorem linkedIn_yielded {fails : Failure → Prop} {result : EStateM.Result Halt Interpreter (Option Value)}
    (h : Meets (fun v? => ∀ v ∈ v?, v.LinkedIn links) fails result) : ∀ v ∈ yielded result, v.LinkedIn links := by
  cases result with
  | ok v? m' => exact fun v hv => h v (Option.mem_toList.mp hv)
  | error e m' => exact List.forall_mem_nil _

/-- Every job keeps links, if the environments that it comes with are linked. -/
theorem Job.keeps (job : Job) (hjob : ∀ env, job.Brings env → env.LinkedIn links) (depth : Nat) (env : Environment) :
    Keeps linksKept links env (job.run depth) (job.trace depth) (fun links' v? => ∀ v ∈ v?, v.LinkedIn links')
      linksKept.MayFail := by
  have hvalue {links : List Environment} {v : Value} (hv : v.LinkedIn links) : ∀ v' ∈ some v, v'.LinkedIn links :=
    fun _ hv' => Option.mem_some_iff.mp hv' ▸ hv
  have hflow {links : List Environment} {flow : Flow} (hflow : linksKept.GoodFlow links flow) :
      ∀ v ∈ flow.value?, v.LinkedIn links := by
    cases flow with
    | normal => nofun
    | returned v => exact hvalue hflow
  have hkeeps := keepsAt linksKept depth
  cases job with
  | expression e => exact (hkeeps.evaluate e trivial).thenQuietly fun v _ hv => .pure (hvalue hv)
  | statement s => exact (hkeeps.execute s trivial).thenQuietly fun flow _ h => .pure (hflow h)
  | block inner body =>
    refine Keeps.thenQuietly (Keeps.within ?_ (hjob inner rfl)) fun flow _ h => .pure (hflow h)
    exact hkeeps.execute.executeAll body fun _ _ => trivial
  | call f arguments =>
    have hlinked : ∀ v ∈ f :: arguments, v.LinkedIn links := fun v hv env henv => hjob env ⟨v, hv, henv⟩
    exact (hkeeps.apply f arguments hlinked).thenQuietly fun v _ hv => .pure (hvalue hv)

end Links

namespace Interpreter.Reachable

variable {m : Interpreter} {kept : Environment → Prop}

/-- At every state, all environments are linked as they were made. -/
theorem linked (h : m.Reachable kept) :
    ∃ links, linksKept.Possible links m ∧ ∀ env, kept env → env.LinkedIn links := by
  induction h with
  | fresh clock output => exact ⟨_, fresh_linked clock output, nofun⟩
  | adapted _ hstore hcurrent htopLevel ih =>
    obtain ⟨links, ⟨hm, hgood⟩, hkept⟩ := ih
    exact ⟨links, ⟨⟨hstore ▸ hm.length, hcurrent ▸ hm.current, htopLevel ▸ hm.topLevel⟩, hstore ▸ hgood⟩, hkept⟩
  | entered _ henv ih =>
    obtain ⟨links, hm, hkept⟩ := ih
    exact ⟨links, hm.entering (henv.linkedIn hm hkept),
      keeps_linkedIn hm hkept List.prefix_rfl (List.forall_mem_nil _)⟩
  | @enclosed m _ _ env henv names hnames ih =>
    obtain ⟨links, hm, hkept⟩ := ih
    obtain ⟨hchild, hends⟩ := hm.holds.addScope (henv.linkedIn hm hkept) names
    have hgrows := List.prefix_append links [.child m.store.scopes.size env]
    refine ⟨_, hm.addScope hgrows hends fun name v hv env h => (hnames name v hv env h).linkedIn hm hkept, ?_⟩
    rintro env' (h | rfl)
    · exact keeps_linkedIn hm hkept hgrows (List.forall_mem_nil _) env' h
    · exact hchild
  | after _ hjob depth ih =>
    obtain ⟨links, hm, hkept⟩ := ih
    obtain ⟨-, -, links', hpath, hm', hmeets⟩ :=
      Job.keeps _ (fun env h => (hjob env h).linkedIn hm hkept) depth _ _ hm rfl
    exact ⟨links', hm', keeps_linkedIn hm hkept hpath.leads (linkedIn_yielded hmeets)⟩
  | during _ hjob depth hx ih =>
    obtain ⟨links, hm, hkept⟩ := ih
    obtain ⟨-, -, links', hpath, -⟩ :=
      Job.keeps _ (fun env h => (hjob env h).linkedIn hm hkept) depth _ _ hm rfl
    obtain ⟨before, after, htrace⟩ := List.append_of_mem hx
    rw [htrace] at hpath
    obtain ⟨links₁, hgrows, hfits⟩ := hpath.fits
    exact ⟨links₁, hfits.possible, keeps_linkedIn hm hkept hgrows hfits.values⟩

/-- At every state, the chain of every environment in use ends in the root. -/
theorem ends (h : m.Reachable kept) {env : Environment} (henv : m.InUse kept env) :
    ∃ distance ≤ env.scope, env.ancestor distance = .root 0 := by
  obtain ⟨links, hm, hkept⟩ := h.linked
  exact (henv.linkedIn hm hkept).ends

end Interpreter.Reachable

end Lox
