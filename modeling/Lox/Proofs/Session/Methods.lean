import Mathlib
import Lox.Proofs.Methods.Faithful
import Lox.Proofs.Resolution.Verdict
import Lox.Proofs.Session.Histories

/-!
# Methods and their instances in sessions

Whatever lines a session runs, every moment of it is sound behind the moments before it, those of earlier
lines included: a bound method keeps its instance for ever, `this` is the instance from which the method
around it was taken, and calls of classes and initializers yield the instances that they should. And what a
body may return is decided before the run.
-/

set_option autoImplicit false

namespace Lox

/-- The program of an accepted source is placed at the top level. -/
theorem Accepted.placed {source : String} {firstId : Occurrence} (h : Accepted source firstId)
    {plan : List Site} (hplan : Stmt.sitesAll (parsed source firstId).statements [] ⊆ plan) :
    Stmt.AllPlaced plan (parsed source firstId).statements [] := by
  have hrules := (resolve_errors_iff (parsed source firstId).statements).mp h.resolved
  have hframed : LocalScopes.Framed [] [] := trivial
  refine Stmt.allPlaced _ hframed nofun (h.yields.resolved plan hplan) (parsed_numbered h.front).wellFormed
    (names_ne_this h.front) ?_ hrules.initializerReturns
  rw [hrules.this]
  exact nofun

namespace Stage

variable {w : Stage} {m : Interpreter}

/-- The stage at which nothing has run. -/
def initial : Stage := ⟨[], 2, []⟩

/-- Before anything has run, no method has been taken, and no scope binds `this`. -/
theorem initial_possible (clock : Nat → Float) (output : Sink) : invariant.Possible initial (.fresh clock output) where
  good := Interpreter.fresh_good trivial
  holds :=
    { size := rfl
      local_size := Nat.le_refl 2
      topLevel := rfl
      distances := nofun
      bound := nofun
      unbound := fun scope _ => by
        match scope with
        | 0 => rfl
        | 1 => rfl
        | scope + 2 => rfl }

/-- The same stage, with other sites planned. -/
def planning (w : Stage) (plan : List Site) : Stage := { w with plan }

/-- A stage grows where more sites are planned. -/
theorem grows_planning {plan : List Site} (hplan : w.plan ⊆ plan) : w.Grows (w.planning plan) :=
  ⟨hplan, Nat.le_refl _, List.Subset.refl _, fun _ _ _ h => .inl h⟩

/-- More sites are planned, and their distances are recorded. -/
theorem Possible.planning (h : invariant.Possible w m) {plan : List Site} (hplan : w.plan ⊆ plan) {m' : Interpreter}
    (hstore : m'.store = m.store) (htopLevel : m'.topLevel = m.topLevel)
    (hdistances : ∀ site ∈ plan, m'.distances.get? site.id = site.distance?) :
    invariant.Possible (w.planning plan) m' where
  good := hstore ▸ h.good.imp fun _ hv => (grows_planning hplan).good hv
  holds :=
    have hholds : w.Holds m := h.holds
    { size := hstore ▸ hholds.size
      local_size := hholds.local_size
      topLevel := htopLevel.trans hholds.topLevel
      distances := hdistances
      bound := hstore ▸ hholds.bound
      unbound := hstore ▸ hholds.unbound }

end Stage

namespace Session

/-- The trace of a line, if it is accepted. -/
def lineTrace (depth : Nat) (s : Session) (source : String) : List Moment :=
  if Accepted source s.nextId then
    Trace.interpret depth (parsed source s.nextId).statements
      (s.emptied.learn (resolve (parsed source s.nextId).statements).distances)
  else []

/-- The trace of lines that a session runs, as far as it comes. -/
def trace (depth : Nat) (s : Session) : List String → List Moment
  | [] => []
  | source :: rest =>
    s.lineTrace depth source ++
      match s.run depth source with
      | some (_, s') => s'.trace depth rest
      | none => []

/-- A run has brought a session to a stage. -/
structure Reaches (s : Session) (world : World) (n : Lexical.Machine) (w : Stage) : Prop where
  mirrors : s.Mirrors .id .empty world n
  possible : Stage.invariant.Possible w s.interpreter
  plan : w.plan = world.plan

variable {depth : Nat} {s s' : Session} {world : World} {n : Lexical.Machine} {w : Stage} {source : String}

/-- A line that is accepted is traced from a stage in which its sites are planned. -/
theorem Reaches.started (h : s.Reaches world n w) (haccepted : Accepted source s.nextId) :
    Stage.invariant.Possible (w.planning (world.plan ++ Stmt.sitesAll (parsed source s.nextId).statements []))
      (s.emptied.learn (resolve (parsed source s.nextId).statements).distances) :=
  Stage.Possible.planning h.possible (h.plan ▸ List.subset_append_left _ _) rfl rfl
    (h.mirrors.started (RelatesOutput.refl _) haccepted).distances

/-- The program of a line that is accepted may run from the top level. -/
theorem Reaches.mayExecute (h : s.Reaches world n w) (haccepted : Accepted source s.nextId) :
    ∀ statement ∈ (parsed source s.nextId).statements, Stage.invariant.MayExecute
      (w.planning (world.plan ++ Stmt.sitesAll (parsed source s.nextId).statements []))
      s.interpreter.topLevel statement := by
  intro statement hstatement
  have hholds : w.Holds s.interpreter := h.possible.holds
  have hplaced := (haccepted.placed (List.subset_append_right world.plan _)).of_mem hstatement
  exact ⟨_, [], ⟨List.Subset.refl _, hholds.topLevel⟩, nofun, hplaced⟩

/-- A line that is accepted leaves behind what its program has come to. -/
theorem interpreter_of_run (haccepted : Accepted source s.nextId) {outcome : Outcome}
    (hrun : s.run depth source = some (outcome, s')) :
    s'.interpreter = endState (interpret depth (parsed source s.nextId).statements
      (s.emptied.learn (resolve (parsed source s.nextId).statements).distances)) := by
  rw [run_of_accepted haccepted] at hrun
  split at hrun <;> cases hrun <;> rename_i hend <;> rw [hend] <;> rfl

/-- The moments of a line are sound behind those of the lines before it. -/
theorem Reaches.lineTrace_sound (h : s.Reaches world n w) (depth : Nat) (source : String) :
    AllSound w.past (s.lineTrace depth source) ∧
      ∀ outcome s', s.run depth source = some (outcome, s') →
        ∃ world' n' w', s'.Reaches world' n' w' ∧ w'.past = w.past ++ s.lineTrace depth source := by
  unfold lineTrace
  by_cases haccepted : Accepted source s.nextId
  · rw [if_pos haccepted]
    obtain ⟨(w' : Stage), hpath, hend, -⟩ := interpret_keeps (h.started haccepted) depth (h.mayExecute haccepted)
    have hsound := Stage.allSound_of_path hpath
    refine ⟨hsound, fun outcome s' hrun => ?_⟩
    obtain ⟨world', n', hmirrors, hplan⟩ := h.mirrors.run hrun
    rw [lineSites, if_pos haccepted] at hplan
    exact ⟨world', n', w', ⟨hmirrors, interpreter_of_run haccepted hrun ▸ hend, hpath.leads.plan.trans hplan.symm⟩,
      hpath.leads.past⟩
  · rw [if_neg haccepted]
    refine ⟨trivial, fun outcome s' hrun => ?_⟩
    obtain ⟨distances, s₁, hrun₁, rfl, hmirrors⟩ :=
      h.mirrors.rejected depth (RelatesOutput.refl _) haccepted
    rw [hrun] at hrun₁
    cases hrun₁
    have hplan : w.plan ⊆ world.plan := h.plan ▸ List.Subset.refl w.plan
    have hpossible : Stage.invariant.Possible (w.planning world.plan) { s.emptied with distances } :=
      Stage.Possible.planning h.possible hplan rfl rfl hmirrors.simulation.distances
    exact ⟨_, _, w.planning world.plan, ⟨hmirrors, hpossible, rfl⟩, (List.append_nil _).symm⟩

/-- All moments of a session are sound. -/
theorem Reaches.trace_sound (h : s.Reaches world n w) (depth : Nat) (lines : List String) :
    AllSound w.past (s.trace depth lines) := by
  induction lines generalizing s world n w with
  | nil => trivial
  | cons source rest ih =>
    obtain ⟨hsound, hnext⟩ := h.lineTrace_sound depth source
    refine allSound_append.mpr ⟨hsound, ?_⟩
    cases hrun : s.run depth source with
    | none => trivial
    | some result =>
      obtain ⟨world', n', w', h', hpast⟩ := hnext result.1 result.2 hrun
      rw [← hpast]
      exact ih h'

/-- A session that has run nothing is at the first stage. -/
theorem fresh_reaches (clock : Nat → Float) (output : Sink) :
    (Session.fresh clock output).Reaches .initial (.fresh clock output) .initial :=
  ⟨Session.fresh_mirrors .id clock output, Stage.initial_possible clock output, rfl⟩

end Session

section Sessions

variable {depth : Nat} {clock : Nat → Float} {output : Sink} {lines : List String}

/-- At every moment of a session, what is known of the methods that were taken before is true: the
environment of each holds just its instance for ever, and no other environment binds `this`; a use of `this`
is the instance of the innermost method around it; calls of classes and initializers yield their
instances. -/
theorem Session.trace_faithful {before after : List Moment} {x : Moment}
    (h : (Session.fresh clock output).trace depth lines = before ++ x :: after) : x.Faithful before := by
  have hsound := (Session.fresh_reaches clock output).trace_sound depth lines
  rw [h] at hsound
  exact hsound.sound.faithful

/-- A function that is nested in a method uses `this` when it is called in a later line, and an initializer
that was taken from an instance is called. -/
theorem Session.trace_faithful_nested :
    (∃ before x after,
      (Session.fresh (fun _ => 0) .unlimited).trace 20
          ["class A { m() { fun f() { return this; } return f; } }", "var f = A().m();", "f();"] =
        before ++ x :: after ∧
      (x.event matches .expression _ (.this ..)) ∧ x.Faithful before) ∧
    ∃ before x after,
      (Session.fresh (fun _ => 0) .unlimited).trace 20 ["class A { init() { } }", "A().init();"] =
        before ++ x :: after ∧
      (x.event matches .call _ (.function _) _) ∧ x.Faithful before := by
  have hmoment (lines : List String) (kind : Event → Bool)
      (hkind : ((Session.fresh (fun _ => 0) .unlimited).trace 20 lines).any (kind ·.event) = true) :
      ∃ before x after, (Session.fresh (fun _ => 0) .unlimited).trace 20 lines = before ++ x :: after ∧
        kind x.event ∧ x.Faithful before := by
    obtain ⟨x, hx, hevent⟩ := List.any_eq_true.mp hkind
    obtain ⟨before, after, htrace⟩ := List.append_of_mem hx
    exact ⟨before, x, after, htrace, hevent, Session.trace_faithful htrace⟩
  exact ⟨hmoment _ (· matches .expression _ (.this ..)) (by decide +kernel),
    hmoment _ (· matches .call _ (.function _) _) (by decide +kernel)⟩

/-- Where resolution finds no error, a top-level statement never returns, from whatever state it runs; and
whatever a session runs, the body of an initializer ends normally or returns `nil`. -/
theorem returns_as_allowed :
    (∀ program : List Stmt, (resolve program).errors = [] → ∀ s ∈ program, ∀ depth,
      Eval.Results (execute depth s) (· = .normal)) ∧
      ∀ (depth : Nat) (clock : Nat → Float) (output : Sink) (lines : List String),
        ∀ x ∈ (Session.fresh clock output).trace depth lines, x.EndsAsAllowed := by
  constructor
  · intro program hresolved s hs depth m flow m' hrun
    have hreturns := ((resolve_errors_iff program).mp hresolved).returns
    refine (execute_isBy depth s m flow m' hrun).eq_normal (List.subset_nil.mp ?_)
    exact hreturns ▸ Stmt.returns_subset hs
  · intro depth clock output lines x hx
    obtain ⟨before, after, htrace⟩ := List.append_of_mem hx
    have hsound := (Session.fresh_reaches clock output).trace_sound depth lines
    rw [htrace] at hsound
    exact hsound.sound.endsAsAllowed

/-- A block in which a function returns ends normally, and the body of an initializer that returns is among
the moments of a session. -/
theorem returns_as_allowed_nested :
    (∃ program s m m', program = (parsed "{ fun f() { return nil; } f(); }" 0).statements ∧
      (resolve program).errors = [] ∧ s ∈ program ∧ execute 9 s m = .ok .normal m') ∧
      ∃ x ∈ (Session.fresh (fun _ => 0) .unlimited).trace 9 ["class A { init() { return; } } A();"],
        (x.event matches .invocation _ ⟨_, _, _, true⟩ _) ∧ x.EndsAsAllowed := by
  have hresolved : (resolve (parsed "{ fun f() { return nil; } f(); }" 0).statements).errors = [] :=
    List.isEmpty_iff.mp (by decide +kernel)
  have hinvocation : ((Session.fresh (fun _ => 0) .unlimited).trace 9
      ["class A { init() { return; } } A();"]).any
        (fun x => x.event matches .invocation _ ⟨_, _, _, true⟩ _) = true := by decide +kernel
  obtain ⟨x, hx, hevent⟩ := List.any_eq_true.mp hinvocation
  refine ⟨?_, x, hx, hevent, returns_as_allowed.2 9 _ _ _ x hx⟩
  have hcompletes : (parsed "{ fun f() { return nil; } f(); }" 0).statements.any (fun s =>
      ((execute 9 s).run' ((Interpreter.fresh (fun _ => 0) .unlimited).learn
        (resolve (parsed "{ fun f() { return nil; } f(); }" 0).statements).distances)).isSome) =
      true := by decide +kernel
  obtain ⟨s, hs, hrun⟩ := List.any_eq_true.mp hcompletes
  unfold EStateM.run' at hrun
  split at hrun
  · rename_i flow m' hend
    obtain rfl := returns_as_allowed.1 _ hresolved s hs 9 _ flow m' hend
    exact ⟨_, s, _, m', rfl, hresolved, hs, hend⟩
  · cases hrun

end Sessions

end Lox
