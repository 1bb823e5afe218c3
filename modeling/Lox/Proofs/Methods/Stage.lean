import Lox.Proofs.Methods.Frames
import Lox.Proofs.Simulation.Scopes
import Lox.Proofs.Traces.Invariant

/-!
# Stages of a run

What a run keeps true about methods and their instances. The scope of a bound method is made when the
method is taken, and from then on every environment that has it has it as the scope of that method; all
other scopes of an environment are plain, and only those are assigned or declared in, under other names
than `this`. So nothing ever changes the scope of a bound method, and no other scope binds `this`.

A stage says which sites are planned, how many scopes there are, and what has happened. It only grows, and
then every environment that fitted frames fits them still, because the scopes of new methods are new.
-/

set_option autoImplicit false

namespace Lox

/-- A method has been taken from an instance, and bound to it. -/
def Takes (past : List Moment) (i : Instance) (name : String) (bound : Closure) : Prop :=
  ∃ moment ∈ past, moment.event = .taken i name bound

/-- How far a run has come. -/
structure Stage where
  /-- The sites of the programs that have been started. -/
  plan : List Site
  /-- How many scopes there are. -/
  size : Nat
  /-- What has happened, the first moment first. -/
  past : List Moment

namespace Stage

/-- A stage with one more moment. -/
def push (w : Stage) (x : Moment) : Stage := { w with past := w.past ++ [x] }

/-- A stage with one more scope. -/
def opened (w : Stage) : Stage := { w with size := w.size + 1 }

/-- A scope is that of no bound method. -/
def Free (w : Stage) (scope : ScopeId) : Prop :=
  ∀ i name bound, Takes w.past i name bound → bound.environment.scope ≠ scope

/-- An environment has the scopes that frames ask for. -/
def Fits (w : Stage) : List Frame → Environment → Prop
  | [], env => env = .outermost
  | .plain :: outer, .child scope env => scope < w.size ∧ w.Free scope ∧ w.Fits outer env
  | .method d :: outer, .child scope env =>
    (∃ i name bound, Takes w.past i name bound ∧ bound.environment = .child scope env ∧
      bound.declaration = d) ∧ w.Fits outer env
  | _ :: _, .root _ => False

/-- An environment is one for trees that are placed within frames. -/
structure At (w : Stage) (plan : List Site) (frames : List Frame) (env : Environment) : Prop where
  plan : plan ⊆ w.plan
  fits : w.Fits frames env

/-- A function is one whose declaration was placed. -/
def GoodFunction (w : Stage) (c : Closure) : Prop :=
  ∃ plan frames, w.At plan frames c.environment ∧ c.declaration.Placed plan frames ∧
    (c.isInitializer = true → ∀ value ∈ Stmt.returnsAll c.declaration.body, value = none)

/-- A method, which is not bound yet, is one whose declaration was placed. -/
def GoodMethod (w : Stage) (name : String) (c : Closure) : Prop :=
  ∃ plan frames, w.At plan frames c.environment ∧
    c.declaration.Placed plan (.method c.declaration :: frames) ∧
    (c.isInitializer = true → ∀ value ∈ Stmt.returnsAll c.declaration.body, value = none) ∧
    (name = initializerName → c.isInitializer = true)

/-- All methods of a class are good under their names. -/
def GoodMethods (w : Stage) (methods : Bindings Closure) : Prop :=
  ∀ name method, methods.get? name = some method → w.GoodMethod name method

/-- All functions and methods in a value are good. -/
def Good (w : Stage) : Value → Prop
  | .function c => w.GoodFunction c
  | .class c => w.GoodMethods c.methods
  | .instance i => w.GoodMethods i.blueprint.methods
  | _ => True

/-- A state is one that a run can be in at this stage. -/
structure Holds (w : Stage) (m : Interpreter) : Prop where
  size : m.store.scopes.size = w.size
  local_size : 2 ≤ w.size
  topLevel : m.topLevel = .outermost
  distances : ∀ site ∈ w.plan, m.distances.get? site.id = site.distance?
  /-- The scope of a bound method holds just its instance. -/
  bound : ∀ i name bound, Takes w.past i name bound →
    2 ≤ bound.environment.scope ∧ bound.environment.scope < w.size ∧
      m.store.scope bound.environment.scope = [(thisName, .instance i)] ∧
      (name = initializerName → bound.isInitializer = true)
  /-- No other scope binds `this`. -/
  unbound : ∀ scope, w.Free scope → (m.store.scope scope).get? thisName = none

/-- A stage has grown, with new scopes for the methods that were taken. More sites may be planned. -/
structure Grows (w w' : Stage) : Prop where
  plan : w.plan ⊆ w'.plan
  size : w.size ≤ w'.size
  past : w.past ⊆ w'.past
  fresh : ∀ i name bound, Takes w'.past i name bound →
    Takes w.past i name bound ∨ w.size ≤ bound.environment.scope

end Stage

/-- A method that has been taken stays so. -/
theorem Takes.mono {past past' : List Moment} {i : Instance} {name : String} {bound : Closure}
    (h : Takes past i name bound) (hsubset : past ⊆ past') : Takes past' i name bound :=
  let ⟨moment, hmoment, hevent⟩ := h
  ⟨moment, hsubset hmoment, hevent⟩

/-- What has been taken behind one more moment. -/
theorem takes_append {past : List Moment} {x : Moment} {i : Instance} {name : String}
    {bound : Closure} :
    Takes (past ++ [x]) i name bound ↔ Takes past i name bound ∨ x.event = .taken i name bound := by
  unfold Takes
  simp only [List.mem_append, List.mem_singleton, or_and_right, exists_or, exists_eq_left]

namespace Stage

variable {w w₁ w' : Stage}

namespace Grows

/-- A stage has grown from itself. -/
protected theorem refl (w : Stage) : w.Grows w :=
  ⟨List.Subset.refl _, Nat.le_refl _, List.Subset.refl _, fun _ _ _ h => .inl h⟩

/-- A stage that grows twice has grown. -/
theorem trans (h : w.Grows w₁) (h' : w₁.Grows w') : w.Grows w' where
  plan := List.Subset.trans h.plan h'.plan
  size := Nat.le_trans h.size h'.size
  past := List.Subset.trans h.past h'.past
  fresh i name bound htaken := by
    rcases h'.fresh i name bound htaken with h₁ | h₁
    · exact h.fresh i name bound h₁
    · exact .inr (Nat.le_trans h.size h₁)

/-- Most moments take no method. -/
theorem push {x : Moment} (h : ∀ i name bound, x.event ≠ .taken i name bound) : w.Grows (w.push x) where
  plan := List.Subset.refl _
  size := Nat.le_refl _
  past := List.subset_append_left _ _
  fresh i name bound htaken := .inl ((takes_append.mp htaken).resolve_right (h i name bound))

/-- A stage grows by a new scope. -/
theorem opened (w : Stage) : w.Grows w.opened :=
  ⟨List.Subset.refl _, Nat.le_succ _, List.Subset.refl _, fun _ _ _ h => .inl h⟩

/-- A method that is taken has a new scope. -/
theorem take {x : Moment} {i : Instance} {name : String} {bound : Closure}
    (hx : x.event = .taken i name bound) (hbound : bound.environment.scope = w.size) :
    w.Grows (w.opened.push x) where
  plan := List.Subset.refl _
  size := Nat.le_succ _
  past := List.subset_append_left _ _
  fresh i' name' bound' htaken := by
    rcases takes_append.mp htaken with h | h
    · exact .inl h
    · rw [hx] at h
      cases h
      exact .inr (Nat.le_of_eq hbound.symm)

variable (hw : w.Grows w')
include hw

/-- The scope of no method is not taken for a method later. -/
theorem free {scope : ScopeId} (hscope : scope < w.size) (h : w.Free scope) : w'.Free scope := by
  intro i name bound htaken
  rcases hw.fresh i name bound htaken with h' | h'
  · exact h i name bound h'
  · exact Nat.ne_of_gt (Nat.lt_of_lt_of_le hscope h')

/-- The scope of no method was not that of a method before. -/
theorem of_free {scope : ScopeId} (h : w'.Free scope) : w.Free scope :=
  fun i name bound htaken => h i name bound (htaken.mono hw.past)

/-- An environment that fits frames does so at later stages. -/
theorem fits {frames : List Frame} {env : Environment} (h : w.Fits frames env) : w'.Fits frames env := by
  induction frames generalizing env with
  | nil => exact h
  | cons frame outer ih =>
    cases env with
    | root scope => cases frame <;> exact h.elim
    | child scope env =>
      cases frame with
      | plain =>
        obtain ⟨hscope, hfree, houter⟩ := h
        exact ⟨Nat.lt_of_lt_of_le hscope hw.size, hw.free hscope hfree, ih houter⟩
      | method d =>
        obtain ⟨⟨i, name, bound, htaken, hbound⟩, houter⟩ := h
        exact ⟨⟨i, name, bound, htaken.mono hw.past, hbound⟩, ih houter⟩

/-- An environment for trees within frames is one at later stages. -/
theorem «at» {plan : List Site} {frames : List Frame} {env : Environment} (h : w.At plan frames env) :
    w'.At plan frames env :=
  ⟨List.Subset.trans h.plan hw.plan, hw.fits h.fits⟩

/-- A function that is good remains so. -/
theorem goodFunction {c : Closure} (h : w.GoodFunction c) : w'.GoodFunction c :=
  let ⟨plan, frames, hat, hplaced⟩ := h
  ⟨plan, frames, hw.at hat, hplaced⟩

/-- Methods that are good remain so. -/
theorem goodMethods {methods : Bindings Closure} (h : w.GoodMethods methods) : w'.GoodMethods methods :=
  fun name method hmethod =>
    let ⟨plan, frames, hat, hplaced⟩ := h name method hmethod
    ⟨plan, frames, hw.at hat, hplaced⟩

/-- Values stay good. -/
theorem good {v : Value} (h : w.Good v) : w'.Good v := by
  cases v with
  | function c => exact hw.goodFunction h
  | «class» c => exact hw.goodMethods h
  | «instance» i => exact hw.goodMethods h
  | _ => trivial

end Grows

/-- A run leads from one stage to another, with just the given moments in between. -/
structure Leads (w : Stage) (moments : List Moment) (w' : Stage) : Prop where
  grows : w.Grows w'
  plan : w'.plan = w.plan
  past : w'.past = w.past ++ moments

namespace Leads

variable {moments moments' : List Moment} {x : Moment}

/-- Nothing happens between a stage and itself. -/
protected theorem refl (w : Stage) : w.Leads [] w := ⟨.refl w, rfl, (List.append_nil _).symm⟩

/-- Two runs in a row lead from the first stage to the last one. -/
theorem trans (h : w.Leads moments w₁) (h' : w₁.Leads moments' w') : w.Leads (moments ++ moments') w' where
  grows := h.grows.trans h'.grows
  plan := h'.plan.trans h.plan
  past := by rw [h'.past, h.past, List.append_assoc]

/-- A moment at which no method is taken leads to the stage with this moment. -/
theorem push (h : ∀ i name bound, x.event ≠ .taken i name bound) : w.Leads [x] (w.push x) :=
  ⟨.push h, rfl, rfl⟩

/-- A new scope leads to the stage with this scope, without a moment. -/
theorem opened (w : Stage) : w.Leads [] w.opened := ⟨.opened w, rfl, (List.append_nil _).symm⟩

/-- A moment at which a method is taken leads to the stage with this moment and with the new scope. -/
theorem take {i : Instance} {name : String} {bound : Closure} (hx : x.event = .taken i name bound)
    (hbound : bound.environment.scope = w.size) : w.Leads [x] (w.opened.push x) :=
  ⟨.take hx hbound, rfl, rfl⟩

end Leads

section Tables

/-- Where a name that is put is not `this`, nothing changes about `this`. -/
theorem get?_this_put {b : Bindings Value} (h : b.get? thisName = none) {x : String} (hx : x ≠ thisName)
    (v : Value) : (b.put x v).get? thisName = none := by
  rw [Bindings.get?_put, if_neg hx, h]

/-- No parameter is `this`. -/
theorem parameterBindings_this {params : List Token} (h : ∀ p ∈ params, p.lexeme ≠ thisName)
    (arguments : List Value) : (parameterBindings params arguments).get? thisName = none := by
  have general (pairs : List (Token × Value)) (hpairs : ∀ pair ∈ pairs, pair.1.lexeme ≠ thisName)
      (b : Bindings Value) (hb : b.get? thisName = none) :
      Bindings.get? thisName (pairs.foldl (fun names p => names.put p.1.lexeme p.2) b) = none := by
    induction pairs generalizing b with
    | nil => exact hb
    | cons pair rest ih =>
      obtain ⟨hpair, hrest⟩ := List.forall_mem_cons.mp hpairs
      exact ih hrest _ (get?_this_put hb hpair _)
  exact general _ (fun pair hpair => h pair.1 (List.of_mem_zip hpair).1) [] rfl

end Tables

section Fits

variable {frames : List Frame} {env : Environment} {m : Interpreter}

/-- A plain frame leads to a scope that belongs to no method. -/
theorem Fits.plain (h : w.Fits frames env) {distance : Nat} (hplain : frames[distance]? = some .plain) :
    (env.ancestor distance).scope < w.size ∧ w.Free (env.ancestor distance).scope := by
  induction frames generalizing env distance with
  | nil => cases hplain
  | cons frame outer ih =>
    cases env with
    | root scope => cases frame <;> exact h.elim
    | child scope env =>
      cases distance with
      | zero =>
        obtain rfl : frame = .plain := Option.some.inj hplain
        exact ⟨h.1, h.2.1⟩
      | succ distance =>
        cases frame with
        | plain => exact ih h.2.2 hplain
        | method d => exact ih h.2 hplain

/-- The innermost method is one that was taken, and the scopes in front of its own belong to no method. -/
theorem Fits.owner (h : w.Fits frames env) {distance : Nat} {d : FunctionDecl}
    (howner : Frame.owner? frames = some (distance, d)) :
    (∃ i name bound, Takes w.past i name bound ∧ env.ancestor distance = bound.environment ∧
      bound.declaration = d) ∧
      ∀ nearer < distance, w.Free (env.ancestor nearer).scope := by
  induction frames generalizing env distance with
  | nil => cases howner
  | cons frame outer ih =>
    cases env with
    | root scope => cases frame <;> exact h.elim
    | child scope env =>
      cases frame with
      | plain =>
        obtain ⟨⟨k, _⟩, hk, heq⟩ := Option.map_eq_some_iff.mp howner
        cases heq
        obtain ⟨htaken, hfree⟩ := ih h.2.2 hk
        refine ⟨htaken, fun nearer hnearer => ?_⟩
        cases nearer with
        | zero => exact h.2.1
        | succ nearer => exact hfree nearer (Nat.lt_of_succ_lt_succ hnearer)
      | method d' =>
        cases howner
        obtain ⟨⟨i, name, bound, htaken, henvironment, hdeclaration⟩, -⟩ := h
        exact ⟨⟨i, name, bound, htaken, henvironment.symm, hdeclaration⟩,
          fun nearer hnearer => absurd hnearer (Nat.not_lt_zero nearer)⟩

/-- The scopes of the top level belong to no method. -/
theorem Holds.free_of_lt (h : w.Holds m) {scope : ScopeId} (hscope : scope < 2) : w.Free scope :=
  fun i name bound htaken => Nat.ne_of_gt (Nat.lt_of_lt_of_le hscope (h.bound i name bound htaken).1)

/-- Statements declare in a scope that belongs to no method. -/
theorem Holds.free_scope (h : w.Holds m) (hfits : w.Fits frames env) (hinner : Frame.Inner frames) :
    env.scope < w.size ∧ w.Free env.scope := by
  match frames, env, hfits with
  | [], _, rfl => exact ⟨h.local_size, h.free_of_lt (by decide)⟩
  | .plain :: _, .child scope _, ⟨hscope, hfree, _⟩ => exact ⟨hscope, hfree⟩
  | .method d :: _, _, _ => exact absurd rfl (hinner d)

end Fits

namespace Holds

variable {m : Interpreter}

/-- Only the scopes, the table of distances and the top level matter. -/
theorem congr (h : w.Holds m) {m' : Interpreter} (hscopes : m'.store.scopes = m.store.scopes)
    (htopLevel : m'.topLevel = m.topLevel) (hdistances : m'.distances = m.distances) : w.Holds m' := by
  have hscope (scope : ScopeId) : m'.store.scope scope = m.store.scope scope := by
    unfold Store.scope
    rw [hscopes]
  exact ⟨hscopes ▸ h.size, h.local_size, htopLevel.trans h.topLevel, fun site hsite => hdistances ▸ h.distances site hsite,
    fun i name bound htaken => hscope _ ▸ h.bound i name bound htaken,
    fun scope hfree => hscope _ ▸ h.unbound scope hfree⟩

/-- Where no method is taken, nothing is asked of the state. -/
theorem push (h : w.Holds m) {x : Moment} (hx : ∀ i name bound, x.event ≠ .taken i name bound) :
    (w.push x).Holds m where
  size := h.size
  local_size := h.local_size
  topLevel := h.topLevel
  distances := h.distances
  bound i name bound htaken :=
    h.bound i name bound ((takes_append.mp htaken).resolve_right (hx i name bound))
  unbound scope hfree := h.unbound scope ((Grows.push hx).of_free hfree)

/-- A variable gets a value, in a scope that belongs to no method. -/
theorem define (h : w.Holds m) {scope : ScopeId} (hscope : scope < w.size) (hfree : w.Free scope)
    {x : String} (hx : x ≠ thisName) (v : Value) : w.Holds { m with store := m.store.define scope x v } where
  size := (m.store.size_define scope x v).trans h.size
  local_size := h.local_size
  topLevel := h.topLevel
  distances := h.distances
  bound i name bound htaken := by
    obtain ⟨hlocal, hlt, hkept, hinit⟩ := h.bound i name bound htaken
    refine ⟨hlocal, hlt, ?_, hinit⟩
    exact (m.store.scope_define_ne (hfree i name bound htaken) x v).trans hkept
  unbound scope' hfree' := by
    rw [m.store.get?_define (h.size ▸ hscope), if_neg fun heq => hx heq.2.symm]
    exact h.unbound scope' hfree'

/-- A new scope is not that of a method that was taken before. -/
theorem bound_addScope (h : w.Holds m) (names : Bindings Value) {i : Instance} {name : String}
    {bound : Closure} (htaken : Takes w.past i name bound) :
    2 ≤ bound.environment.scope ∧ bound.environment.scope < w.size + 1 ∧
      (m.store.addScope names).2.scope bound.environment.scope = [(thisName, .instance i)] ∧
      (name = initializerName → bound.isInitializer = true) := by
  obtain ⟨hlocal, hlt, hkept, hinit⟩ := h.bound i name bound htaken
  refine ⟨hlocal, Nat.lt_succ_of_lt hlt, ?_, hinit⟩
  rw [Store.scope_addScope, if_neg (by rw [h.size]; exact Nat.ne_of_lt hlt), hkept]

/-- A new scope comes behind the others. -/
theorem addScope (h : w.Holds m) {names : Bindings Value} (hthis : names.get? thisName = none) :
    w.opened.Holds { m with store := (m.store.addScope names).2 } where
  size := by simp [Store.addScope, opened, h.size]
  local_size := Nat.le_succ_of_le h.local_size
  topLevel := h.topLevel
  distances := h.distances
  bound _ _ _ htaken := h.bound_addScope names htaken
  unbound scope hfree := by
    rw [Store.scope_addScope]
    split
    · exact hthis
    · exact h.unbound scope ((Grows.opened w).of_free hfree)

/-- A method has been taken, and its scope is new. -/
theorem take (h : w.Holds m) {i : Instance} {name : String} {bound : Closure} {env : Environment}
    (hbound : bound.environment = .child w.size env)
    (hinit : name = initializerName → bound.isInitializer = true) {x : Moment}
    (hx : x.event = .taken i name bound) :
    (w.opened.push x).Holds { m with store := (m.store.addScope [(thisName, .instance i)]).2 } := by
  have hscope : bound.environment.scope = w.size := by rw [hbound]; rfl
  have hgrows : w.Grows (w.opened.push x) := Grows.take hx hscope
  constructor
  case size => simp [Store.addScope, opened, Stage.push, h.size]
  case local_size => exact Nat.le_succ_of_le h.local_size
  case topLevel => exact h.topLevel
  case distances => exact h.distances
  case bound =>
    intro i' name' bound' htaken
    rcases takes_append.mp htaken with htaken | htaken
    · exact h.bound_addScope _ htaken
    · rw [hx] at htaken
      cases htaken
      rw [hscope]
      refine ⟨h.local_size, Nat.lt_succ_self _, ?_, hinit⟩
      rw [Store.scope_addScope, if_pos h.size.symm]
  case unbound =>
    intro scope hfree
    have hne : scope ≠ w.size := fun heq =>
      hfree i name bound (takes_append.mpr (.inr hx)) (hscope.trans heq.symm)
    rw [Store.scope_addScope, if_neg (by rw [h.size]; exact hne)]
    exact h.unbound scope (hgrows.of_free hfree)

end Holds

end Stage

end Lox
