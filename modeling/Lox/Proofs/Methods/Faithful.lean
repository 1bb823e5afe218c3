import Lox.Proofs.Methods.Evaluation

/-!
# What is true of methods and their instances

A bound method keeps its instance for ever, `this` is the instance from which the method around it was taken, and
calls of classes and initializers yield the instances that they should. All of this is asked at single moments of a
run, behind the moments before them. It follows from what is known at the stage of such a moment, because the
stage knows which methods have been taken.
-/

set_option autoImplicit false

namespace Lox

/-- What is known of methods and their instances is true at a moment of a run with the given past. -/
structure Moment.Faithful (past : List Moment) (x : Moment) : Prop where
  /-- The environment of a bound method holds just the instance under `this`. -/
  kept : ∀ i name bound, Takes (past ++ [x]) i name bound →
    x.state.store.scope bound.environment.scope = [(thisName, .instance i)]
  /-- No other environment binds `this`. -/
  reserved : ∀ scope, (x.state.store.scope scope).binds thisName = true →
    ∃ i name bound, Takes (past ++ [x]) i name bound ∧ bound.environment.scope = scope
  /-- A method that is taken is one of the class, in an environment inside its own. -/
  taken : ∀ i name bound, x.event = .taken i name bound →
    ∃ method scope, i.blueprint.methods.get? name = some method ∧
      bound.declaration = method.declaration ∧ bound.environment = .child scope method.environment
  /-- A use of `this` stands in the innermost method around it, outside of inner classes, and yields the
  instance that this method was taken from. -/
  this : ∀ depth id keyword, x.event = .expression depth (.this id keyword) →
    ∃ i name bound distance, Takes past i name bound ∧ id ∈ bound.declaration.thisUses ∧
      x.state.current.ancestor distance = bound.environment ∧
      (∀ nearer < distance, ∀ i' name' bound', Takes past i' name' bound' →
        (x.state.current.ancestor nearer).scope ≠ bound'.environment.scope) ∧
      evaluate depth (.this id keyword) x.state = .ok (.instance i) x.state
  /-- A call of a class that completes yields the instance that it creates. -/
  created : ∀ depth c arguments, x.event = .call depth (.class c) arguments →
    ∀ v m, apply depth (.class c) arguments x.state = .ok v m →
      v = .instance (x.state.store.addInstance c).1
  /-- A call of an initializer that completes yields the instance that it was taken from. -/
  initialized : ∀ depth i bound arguments, x.event = .call depth (.function bound) arguments →
    Takes past i initializerName bound →
    ∀ v m, apply depth (.function bound) arguments x.state = .ok v m → v = .instance i

/-- A body that begins to run ends only as its kind allows. -/
def Moment.EndsAsAllowed (x : Moment) : Prop :=
  ∀ depth c arguments, x.event = .invocation depth c arguments → c.isInitializer = true →
    ∀ flow m, runBody (execute depth) c arguments x.state = .ok flow m →
      flow = .normal ∨ flow = .returned .nil

/-- A moment is one that can be, behind the given past. -/
structure Moment.Sound (past : List Moment) (x : Moment) : Prop where
  faithful : x.Faithful past
  endsAsAllowed : x.EndsAsAllowed

/-- All moments are sound, each behind those before it. -/
def AllSound : (past moments : List Moment) → Prop
  | _, [] => True
  | past, x :: rest => x.Sound past ∧ AllSound (past ++ [x]) rest

/-- Moments are sound in two parts, the later ones behind the earlier ones. -/
theorem allSound_append {past moments moments' : List Moment} :
    AllSound past (moments ++ moments') ↔
      AllSound past moments ∧ AllSound (past ++ moments) moments' := by
  induction moments generalizing past with
  | nil => simp [AllSound]
  | cons x rest ih =>
    rw [List.cons_append, AllSound, AllSound, ih, and_assoc, List.append_assoc]
    rfl

/-- Each moment is sound behind those before it. -/
theorem AllSound.sound {past before after : List Moment} {x : Moment}
    (h : AllSound past (before ++ x :: after)) : x.Sound (past ++ before) :=
  (allSound_append.mp h).2.1

section Calls

variable {depth : Nat} {m m' : Interpreter} {arguments : List Value} {v : Value}

/-- A completed call of a class yields the instance that it creates. -/
theorem apply_class_eq {c : ClassValue} (h : apply depth (.class c) arguments m = .ok v m') :
    v = .instance (m.store.addInstance c).1 := by
  cases depth with
  | zero => cases h
  | succ depth =>
    rw [apply] at h
    refine Eval.Results.eq_of_behind rfl ?_ h
    split
    · exact .behind _ fun _ => .behind _ fun _ => .pure rfl
    · exact .pure rfl

/-- A completed call of an initializer yields what its scope holds under `this`. -/
theorem apply_initializer_eq {c : Closure} (hc : c.isInitializer = true)
    (h : apply depth (.function c) arguments m = .ok v m') : v = c.environment.getAt m'.store 0 thisName := by
  cases depth with
  | zero => cases h
  | succ depth =>
    rw [apply, invoke_eq_runBody] at h
    cases hbody : runBody (execute depth) c arguments m with
    | ok flow t =>
      rw [Eval.bind_of_ok hbody, if_pos hc] at h
      cases h
      rfl
    | error e t =>
      rw [Eval.bind_of_error hbody] at h
      cases h

end Calls

namespace Stage

variable {w : Stage} {m : Interpreter}

/-- The scope of a method that was taken before is as it was made. -/
theorem Holds.kept (h : w.Holds m) {i : Instance} {name : String} {bound : Closure}
    (htaken : Takes w.past i name bound) :
    m.store.scope bound.environment.scope = [(thisName, .instance i)] :=
  (h.bound i name bound htaken).2.2.1

/-- A scope that binds `this` is that of a method that was taken. -/
theorem Holds.taken_of_binds (h : w.Holds m) {scope : ScopeId}
    (hbinds : (m.store.scope scope).binds thisName = true) :
    ∃ i name bound, Takes w.past i name bound ∧ bound.environment.scope = scope := by
  refine Classical.byContradiction fun hnone => ?_
  have hfree : w.Free scope := fun i name bound htaken heq => hnone ⟨i, name, bound, htaken, heq⟩
  rw [Bindings.binds, h.unbound scope hfree] at hbinds
  cases hbinds

/-- A use of `this` yields the instance of the innermost method around it. -/
theorem Holds.lookUp_this (h : w.Holds m) {plan : List Site} {frames : List Frame}
    (hat : w.At plan frames m.current) {id : Occurrence} {keyword : Token}
    (hkeyword : keyword.lexeme = thisName) (howns : Frame.Owns plan frames id) :
    ∃ i name bound distance, Takes w.past i name bound ∧ id ∈ bound.declaration.thisUses ∧
      m.current.ancestor distance = bound.environment ∧
      (∀ nearer < distance, w.Free (m.current.ancestor nearer).scope) ∧
      Eval.lookUp id keyword m = .ok (.instance i) m := by
  obtain ⟨site, hsite, rfl, distance, d, hdistance, howner, hid⟩ := howns
  obtain ⟨⟨i, name, bound, htaken, hancestor, rfl⟩, hfree⟩ := hat.fits.owner howner
  refine ⟨i, name, bound, distance, htaken, hid, hancestor, hfree, ?_⟩
  rw [Eval.lookUp_local ((h.distances site (hat.plan hsite)).trans hdistance), Environment.getAt,
    hancestor, h.kept htaken, hkeyword]
  rfl

/-- A call of an initializer yields the instance from which it was taken, because its scope is kept until then. -/
theorem initialized_of_possible (h : invariant.Possible w m) {depth : Nat} {i : Instance} {bound : Closure}
    {arguments : List Value} (hvalues : ∀ v ∈ .function bound :: arguments, w.Good v)
    (htaken : Takes w.past i initializerName bound) {v : Value} {m' : Interpreter}
    (hrun : apply depth (.function bound) arguments m = .ok v m') : v = .instance i := by
  have hkind : bound.isInitializer = true := (h.holds.bound i _ bound htaken).2.2.2 rfl
  obtain ⟨-, -, (w' : Stage), hpath, hend, -⟩ := (keepsAt invariant depth).apply _ _ hvalues m h rfl
  rw [hrun] at hend
  have hends : w'.Holds m' := hend.holds
  rw [apply_initializer_eq hkind hrun, Environment.getAt, Environment.ancestor,
    hends.kept (htaken.mono hpath.leads.grows.past)]
  rfl

/-- A moment is sound if it fits what is known at its stage. -/
theorem sound_of_fits {x : Moment} (h : invariant.Fits w x) {past : List Moment} (hpast : w.past = past ++ [x]) :
    x.Sound past := by
  have hholds : w.Holds x.state := h.possible.holds
  have hbefore {i : Instance} {name : String} {bound : Closure} (htaken : Takes past i name bound) :
      Takes w.past i name bound := htaken.mono (hpast ▸ List.subset_append_left _ _)
  refine ⟨⟨fun i name bound htaken => hholds.kept (hpast ▸ htaken),
    fun scope hbinds => hpast ▸ hholds.taken_of_binds hbinds, h.taken, ?_, ?_, ?_⟩, ?_⟩
  · intro depth id keyword hevent
    obtain ⟨hdepth, plan, frames, hat, hkeyword, howns⟩ := h.expression depth _ hevent
    obtain ⟨i, name, bound, distance, htaken, hid, hancestor, hfree, hlookUp⟩ := hholds.lookUp_this hat hkeyword howns
    obtain ⟨depth, rfl⟩ := Nat.exists_eq_succ_of_ne_zero (Nat.ne_of_gt hdepth)
    have hother : x.event ≠ .taken i name bound := fun h => nomatch hevent.symm.trans h
    exact ⟨i, name, bound, distance, (takes_append.mp (hpast ▸ htaken)).resolve_right hother, hid, hancestor,
      fun nearer hnearer i' name' bound' htaken' => (hfree nearer hnearer i' name' bound' (hbefore htaken')).symm,
      hlookUp⟩
  · exact fun depth c arguments _ v m hrun => apply_class_eq hrun
  · intro depth i bound arguments hevent htaken v m hrun
    have hvalues := h.values
    rw [hevent] at hvalues
    exact initialized_of_possible h.possible hvalues (hbefore htaken) hrun
  · intro depth c arguments hevent hinit flow m hrun
    have hvalues := h.values
    rw [hevent] at hvalues
    obtain ⟨-, -, -, -, hreturns⟩ := hvalues (.function c) (List.mem_cons_self ..)
    exact (runBody_isBy depth c arguments _ _ _ hrun).eq_nil (hreturns hinit)

/-- All moments of a path are sound. -/
theorem allSound_of_path {w w' : invariant.World} {moments : List Moment} (h : invariant.Path w moments w') :
    AllSound w.past moments := by
  induction h with
  | silent _ => trivial
  | @moment w w₁ w' x rest hw hx _ ih =>
    have hpast : w₁.past = w.past ++ [x] := hw.past
    rw [hpast] at ih
    exact ⟨sound_of_fits hx hpast, ih⟩

end Stage

end Lox
