import Lox.Proofs.Traces.Evaluation

/-!
# How environments are linked

An environment is known by its innermost scope, and its link is what stands around that scope. What is said here is
that links never change: every environment in use, by the interpreter, by a function, or around another one, is the
one with which its scope was made. These are kept in a list, one for each scope and in the order in which the
scopes were made; it only grows. Since a scope is made inside one that is older, every chain ends, and it ends in
the scope that was made first.
-/

set_option autoImplicit false

namespace Lox

namespace Environment

/-- An environment is, link by link, one that was made. The first one is the only root. -/
def LinkedIn (links : List Environment) : Environment → Prop
  | root scope => links[scope]? = some (root scope) ∧ scope = 0
  | child scope enclosing =>
    links[scope]? = some (child scope enclosing) ∧ enclosing.scope < scope ∧ enclosing.LinkedIn links

variable {links links' : List Environment} {env env' : Environment}

/-- An environment that was made stands in the list at the place of its scope. -/
theorem LinkedIn.getElem? (h : env.LinkedIn links) : links[env.scope]? = some env := by
  cases env with
  | root scope => exact h.1
  | child scope enclosing => exact h.1

/-- The innermost scope of an environment that was made is one of those made so far. -/
theorem LinkedIn.scope_lt (h : env.LinkedIn links) : env.scope < links.length :=
  (List.getElem?_eq_some_iff.mp h.getElem?).1

/-- Two environments with the same innermost scope are the same. -/
theorem LinkedIn.eq_of_scope_eq (h : env.LinkedIn links) (h' : env'.LinkedIn links)
    (hscope : env.scope = env'.scope) : env = env' := by
  have hsome := h.getElem?
  rw [hscope, h'.getElem?] at hsome
  exact (Option.some.inj hsome).symm

/-- What was made remains so when more is made. -/
theorem LinkedIn.mono (h : env.LinkedIn links) (hlinks : links <+: links') : env.LinkedIn links' := by
  have hmade {scope : ScopeId} {env : Environment} (hsome : links[scope]? = some env) :
      links'[scope]? = some env := by
    obtain ⟨more, rfl⟩ := hlinks
    rwa [List.getElem?_append_left (List.getElem?_eq_some_iff.mp hsome).1]
  induction env with
  | root scope => exact ⟨hmade h.1, h.2⟩
  | child scope enclosing ih => exact ⟨hmade h.1, h.2.1, ih h.2.2⟩

/-- The scope that is made next is linked inside an environment that is linked. -/
theorem LinkedIn.child (h : env.LinkedIn links) :
    (Environment.child links.length env).LinkedIn (links ++ [.child links.length env]) :=
  ⟨List.getElem?_concat_length, h.scope_lt, h.mono (List.prefix_append ..)⟩

/-- A chain leads to the first scope, by no more links than there are scopes before its own. -/
theorem LinkedIn.ends (h : env.LinkedIn links) : ∃ distance ≤ env.scope, env.ancestor distance = .root 0 := by
  induction env with
  | root scope =>
    obtain ⟨-, rfl⟩ := h
    exact ⟨0, Nat.le_refl 0, rfl⟩
  | child scope enclosing ih =>
    obtain ⟨distance, hle, hroot⟩ := ih h.2.2
    exact ⟨distance + 1, Nat.lt_of_le_of_lt hle h.2.1, hroot⟩

end Environment

/-- A class captures an environment: it is the one around the class, and so that of each of its methods. -/
def ClassOver.Captures (c : ClassValue) (env : Environment) : Prop :=
  ∃ name method, c.methods.get? name = some method ∧ method.environment = env

/-- A value captures an environment, so that a call of it can come back to it. -/
def ValueOver.Captures (v : Value) (env : Environment) : Prop :=
  match v with
  | .function c => c.environment = env
  | .class c => c.Captures env
  | .instance i => i.blueprint.Captures env
  | _ => False

section Values

variable {links links' : List Environment}

/-- All environments that a value captures are linked. -/
def ValueOver.LinkedIn (links : List Environment) (v : Value) : Prop := ∀ env, v.Captures env → env.LinkedIn links

/-- A value that is linked remains so when more is made. -/
theorem ValueOver.LinkedIn.mono {v : Value} (h : v.LinkedIn links) (hlinks : links <+: links') :
    v.LinkedIn links' := fun env henv => (h env henv).mono hlinks

/-- A function is linked if the environment that it remembers is. -/
theorem linkedIn_function {c : Closure} (h : c.environment.LinkedIn links) :
    (ValueOver.function c).LinkedIn links := by
  rintro _ rfl
  exact h

/-- A class is linked if its methods are. -/
theorem linkedIn_class {c : ClassValue}
    (h : ∀ name method, c.methods.get? name = some method → method.environment.LinkedIn links) :
    (ValueOver.class c).LinkedIn links := by
  rintro _ ⟨name, method, hmethod, rfl⟩
  exact h name method hmethod

end Values

/-- The environments of an interpreter are linked as they were made, one for each scope. -/
structure Interpreter.Linked (links : List Environment) (m : Interpreter) : Prop where
  length : links.length = m.store.scopes.size
  current : m.current.LinkedIn links
  topLevel : m.topLevel.LinkedIn links

/-- What is known of links: those that were made by now. -/
def linksKnown : Knowledge where
  World := List Environment
  Leads links _ links' := links <+: links'
  Holds := Interpreter.Linked
  Good links v := v.LinkedIn links
  MayEnter links env := env.LinkedIn links
  MayEvaluate _ _ _ := True
  MayExecute _ _ _ := True
  MayFail _ _ := True

namespace Interpreter.Linked

variable {links : List Environment} {m : Interpreter}

/-- A new scope inside an environment becomes the last one that was made. -/
theorem addScope (h : m.Linked links) {env : Environment} (henv : env.LinkedIn links) (names : Bindings Value) :
    (Environment.child m.store.scopes.size env).LinkedIn (links ++ [.child m.store.scopes.size env]) ∧
      Interpreter.Linked (links ++ [.child m.store.scopes.size env])
        { m with store := (m.store.addScope names).2 } := by
  have hgrows : links <+: links ++ [.child m.store.scopes.size env] := List.prefix_append ..
  refine ⟨h.length ▸ henv.child, ?_, h.current.mono hgrows, h.topLevel.mono hgrows⟩
  rw [List.length_append, h.length, Store.addScope, Array.size_push]
  rfl

/-- Statements may run in a new scope inside an environment that is linked. -/
theorem opens (h : m.Linked links) {env : Environment} (henv : env.LinkedIn links) (names : Bindings Value)
    (body : List Stmt) : linksKnown.Opens links m env names body :=
  let ⟨hchild, hends⟩ := h.addScope henv names
  ⟨_, List.prefix_append .., hends, hchild, fun _ _ => trivial⟩

/-- An assignment changes no link: it gives a name a value in one scope. -/
theorem assigns (h : m.Linked links) (id : Occurrence) (name : Token) (v : Value) :
    (endState (Eval.assign id name v m)).Linked links := by
  have hdefined (scope : ScopeId) :
      Interpreter.Linked links { m with store := m.store.define scope name.lexeme v } :=
    ⟨h.length.trans (Array.size_modify ..).symm, h.current, h.topLevel⟩
  cases hdistance : m.distances.get? id with
  | some distance =>
    rw [Eval.assign_local hdistance]
    exact hdefined _
  | none =>
    rw [Eval.assign_global hdistance]
    cases m.topLevel.holder? m.store name.lexeme with
    | some scope => exact hdefined scope
    | none => exact h

/-- A method that is taken remembers a new scope inside its own environment. -/
theorem takes (h : m.Linked links) {i : Instance} (hi : (ValueOver.instance i).LinkedIn links) {name : String}
    {method : Closure} (hmethod : i.blueprint.methods.get? name = some method) :
    ∃ links', links <+: links' ∧ (m.binding i).Linked links' ∧ (ValueOver.function (m.bound method)).LinkedIn links' := by
  have hcaptured : method.environment.LinkedIn links := hi _ ⟨name, method, hmethod, rfl⟩
  obtain ⟨hchild, hends⟩ := h.addScope hcaptured [(thisName, .instance i)]
  exact ⟨_, List.prefix_append .., ⟨hends.length, hends.current, hends.topLevel⟩, linkedIn_function hchild⟩

end Interpreter.Linked

/-- Links never change, whatever the trees and the distances that are recorded: a wrong distance only leads to
another scope. -/
def linksKept : Invariant where
  toKnowledge := linksKnown
  leads_refl _ := List.prefix_rfl
  leads_trans := List.IsPrefix.trans
  good_mono hw h := h.mono hw
  mayEnter_mono hw h := h.mono hw
  mayEvaluate_mono _ _ := trivial
  mayExecute_mono _ _ := trivial
  mayFail_mono _ _ := trivial
  passes hm _ := ⟨_, List.prefix_rfl, hm⟩
  operand _ _ := trivial
  operand_stmt _ _ := trivial
  branch _ _ := trivial
  mayEnter_current hm := hm.current
  mayEnter_topLevel hm := hm.topLevel
  entering hm henv := ⟨hm.length, henv, hm.topLevel⟩
  opens_block hm _ := hm.opens hm.current [] _
  opens_function hm hc _ := hm.opens (hc _ rfl) _ _
  good_plain {_ v} hv := by
    cases v <;> first | exact hv.elim | exact fun _ h => h.elim
  good_instance h := h
  good_function henv _ _ := linkedIn_function henv
  good_class henv _ hc := linkedIn_class fun name method hmethod => by
    obtain ⟨d, -, hd⟩ := hc name method hmethod
    exact hd.environment ▸ henv
  elsewhere hm hscopes hcurrent htopLevel _ :=
    ⟨hscopes ▸ hm.length, hcurrent ▸ hm.current, htopLevel ▸ hm.topLevel⟩
  assigns hm _ _ := hm.assigns _ _ _
  defines hm _ _ _ := ⟨hm.length.trans (Array.size_modify ..).symm, hm.current, hm.topLevel⟩
  takes hm hi hmethod := hm.takes hi hmethod
  mayFail_output := trivial
  mayFail_own _ _ _ _ := trivial

/-- An interpreter that has run nothing has made two scopes. -/
theorem Interpreter.fresh_linked (clock : Nat → Float) (output : Sink) :
    linksKept.Possible [.root 0, .child 1 (.root 0)] (Interpreter.fresh clock output) where
  holds := ⟨rfl, ⟨rfl, Nat.zero_lt_one, rfl, rfl⟩, ⟨rfl, Nat.zero_lt_one, rfl, rfl⟩⟩
  good := Interpreter.fresh_good fun _ h => h.elim

end Lox
