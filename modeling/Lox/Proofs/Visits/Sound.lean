import Lox.Proofs.Simulation.Evaluation
import Lox.Proofs.Traces.Basic

/-!
# Visits meet their sites

A run visits the occurrences of names and of `this` that evaluation comes to. The visits are read off the trace of
the run, each with the state in which it happens, so a run that fails, or that goes deeper than allotted, has the
visits it makes up to there. An assignment is visited twice: when evaluation reaches it, and when its value is there
to be stored.

A visit is sound for a site if the environment of the run fits the scopes that resolution saw: there is one link for
each open scope, and a distance that was recorded leads to a scope that binds the name. The only variable that an
assignment may find without a value is the one whose initializer it stands in. The state at a visit is related to a
state of the reference interpreter, which knows of every variable whether its declaration has run.
-/

set_option autoImplicit false

namespace Lox

/-- What evaluation does at an occurrence. -/
inductive Use where
  /-- The name, or `this`, is looked up. -/
  | read
  /-- The assignment is reached. -/
  | target
  /-- The value of the assignment is stored. -/
  | store
  deriving DecidableEq, Repr

/-- A use of an occurrence during a run, with the state in which it happens. -/
structure Visit where
  use : Use
  id : Occurrence
  name : String
  state : Interpreter

/-- The visit that a moment is, if it is one. -/
def Moment.visit? (x : Moment) : Option Visit :=
  match x.event with
  | .expression _ (.variable id name) => some ⟨.read, id, name.lexeme, x.state⟩
  | .expression _ (.this id keyword) => some ⟨.read, id, keyword.lexeme, x.state⟩
  | .expression _ (.assign id name _) => some ⟨.target, id, name.lexeme, x.state⟩
  | .storing id name => some ⟨.store, id, name, x.state⟩
  | _ => none

/-- The visits of a program that runs from the top level. -/
def Visits.interpret (depth : Nat) (program : List Stmt) (m : Interpreter) : List Visit :=
  (Trace.interpret depth program m).filterMap Moment.visit?

namespace Environment

/-- The number of links from an environment out to `target`, if they lead there. -/
def linksTo? : Environment → (target : Environment) → Option Nat
  | root scope, target => if root scope = target then some 0 else none
  | child scope enclosing, target =>
    if child scope enclosing = target then some 0 else (enclosing.linksTo? target).map (· + 1)

/-- Fewer links lead to an environment that is that much nearer to the target. -/
theorem linksTo?_ancestor {target env : Environment} {links distance : Nat}
    (h : env.linksTo? target = some links) (hle : distance ≤ links) :
    (env.ancestor distance).linksTo? target = some (links - distance) := by
  induction distance generalizing env links with
  | zero => cases env <;> exact h
  | succ distance ih =>
    cases env with
    | root scope =>
      simp only [linksTo?] at h
      split at h <;> cases h
      cases hle
    | child scope enclosing =>
      simp only [linksTo?] at h
      split at h
      · cases h
        cases hle
      · obtain ⟨links', hlinks, rfl⟩ := Option.map_eq_some_iff.mp h
        rw [Nat.succ_sub_succ]
        exact ih hlinks (Nat.le_of_succ_le_succ hle)

end Environment

/-- A run meets, at a visit, what resolution saw at the site. -/
structure Visit.Sound (v : Visit) (site : Site) : Prop where
  id : v.id = site.id
  name : v.name = site.name
  /-- The environment has one link for each scope that is open at the site. -/
  links : v.state.current.linksTo? v.state.topLevel = some site.scopes.length
  recorded : v.state.distances.get? v.id = site.distance?
  /-- A distance that was recorded leads to an environment that is not outside all local scopes. -/
  inside : ∀ distance, v.state.distances.get? v.id = some distance →
    distance < site.scopes.length ∧
      (v.state.current.ancestor distance).linksTo? v.state.topLevel =
        some (site.scopes.length - distance)
  /-- What is looked up there is found. -/
  read : v.use = .read → ∀ distance, v.state.distances.get? v.id = some distance →
    (v.state.store.scope (v.state.current.ancestor distance).scope).binds v.name = true
  /-- What is stored there takes the place of another value, but for a variable whose initializer is
  being evaluated. -/
  store : v.use = .store → ∀ distance, v.state.distances.get? v.id = some distance →
    (v.state.store.scope (v.state.current.ancestor distance).scope).binds v.name = true ∨
      site.initializing = some v.name ∧ site.scopes.status? v.name = some false

/-- A name that resolution found is in one of the open scopes. -/
theorem Resolution.lt_length_of_distance? {name : String} {scopes : LocalScopes} {distance : Nat}
    (h : distance? name scopes = some distance) : distance < scopes.length :=
  (List.findIdx?_eq_some_iff_findIdx_eq.mp h).1

/-- A name with a distance has a status. -/
theorem LocalScopes.status?_isSome {name : String} {scopes : LocalScopes} {distance : Nat}
    (h : Resolution.distance? name scopes = some distance) : (scopes.status? name).isSome := by
  induction scopes generalizing distance with
  | nil => cases h
  | cons scope outer ih =>
    rw [LocalScopes.status?]
    cases hget : scope.get? name with
    | some status => rfl
    | none =>
      rw [LocalScopes.distance?_cons, Bindings.binds, hget] at h
      obtain ⟨d, hd, -⟩ := Option.map_eq_some_iff.mp h
      exact ih hd

section Observations

variable {R : Relabeling} {printed : ByteArray} {w : World} {env : Environment}
  {scopes : LocalScopes} {visible : Lexical.Scope} {m : Interpreter} {n : Lexical.Machine}

/-- An environment has one link for each scope that resolution saw. -/
theorem World.Scoped.linksTo? (h : w.Scoped scopes env visible) :
    env.linksTo? .outermost = some scopes.length := by
  induction scopes generalizing env visible with
  | nil =>
    rw [h.1]
    rfl
  | cons names outer ih =>
    cases env with
    | root scope => exact h.elim
    | child scope enclosing =>
      obtain ⟨hlocal, -, visible', houter, -⟩ := h
      have hne : Environment.child scope enclosing ≠ .outermost := by
        rintro ⟨⟩
        exact absurd hlocal (by decide)
      rw [Environment.linksTo?, if_neg hne, ih houter]
      rfl

/-- In related states, uses of names where they were resolved are sound. -/
theorem Simulation.sound_of_visit (hsim : Simulation R printed w m n)
    (hscoped : w.Scoped scopes m.current visible) {use : Use} {id : Occurrence} {name : String}
    {initializing : Option String} (hsite : ⟨id, name, scopes, initializing, use != .read⟩ ∈ w.plan) :
    Visit.Sound ⟨use, id, name, m⟩ ⟨id, name, scopes, initializing, use != .read⟩ := by
  have hrecorded : m.distances.get? id = Resolution.distance? name scopes :=
    hsim.distances _ hsite
  have hlinks : m.current.linksTo? m.topLevel = some scopes.length := by
    rw [hsim.topLevel]
    exact hscoped.linksTo?
  -- a variable whose declaration is complete has been given a value
  have hbound {distance : Nat} (hdistance : m.distances.get? id = some distance) :
      (m.store.scope (m.current.ancestor distance).scope).binds name = true ∨
        scopes.status? name = some false := by
    rw [hrecorded] at hdistance
    obtain ⟨scope, l, hscope, -, -, hready⟩ := hscoped.local_name hdistance
    obtain ⟨status, hstatus⟩ := Option.isSome_iff_exists.mp (LocalScopes.status?_isSome hdistance)
    cases status with
    | true => exact .inl (hscope ▸ hsim.ready scope name (hready hstatus))
    | false => exact .inr hstatus
  refine ⟨rfl, rfl, hlinks, hrecorded, fun distance hdistance => ?_, fun huse distance hdistance => ?_,
    fun huse distance hdistance => ?_⟩
  · have hlt := Resolution.lt_length_of_distance? (hrecorded.symm.trans hdistance)
    exact ⟨hlt, Environment.linksTo?_ancestor hlinks (Nat.le_of_lt hlt)⟩
  · obtain rfl : use = .read := huse
    refine (hbound hdistance).resolve_right fun hstatus => ?_
    cases (hsim.settled _ hsite hstatus).1
  · exact (hbound hdistance).imp_right fun hstatus => ⟨(hsim.settled _ hsite hstatus).2, hstatus⟩

end Observations

end Lox
