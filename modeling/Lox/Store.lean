import Lox.Value

/-!
# The store

All scopes and the fields of all instances, each under its number. Numbers are given out in order
and never taken back. A name is looked up in an environment either along the whole chain or at a
known distance; assignment comes in the same two forms.
-/

set_option autoImplicit false

namespace Lox

/-- What a running program has created. -/
structure Store where
  scopes : Array (Bindings Value)
  fields : Array (Bindings Value)
  /-- How many functions and classes have been created. -/
  created : Nat

namespace Store

/-- Nothing created yet. -/
def empty : Store := ⟨#[], #[], 0⟩

/-- The names of a scope. -/
def scope (s : Store) (id : ScopeId) : Bindings Value := s.scopes[id]?.getD []

/-- A new scope with the given names. -/
def addScope (s : Store) (names : Bindings Value) : ScopeId × Store :=
  (s.scopes.size, { s with scopes := s.scopes.push names })

/-- Binds a name in a scope. -/
def define (s : Store) (id : ScopeId) (name : String) (value : Value) : Store :=
  { s with scopes := s.scopes.modify id (·.put name value) }

/-- A new instance without fields. -/
def addInstance (s : Store) (blueprint : ClassValue) : Instance × Store :=
  (⟨s.fields.size, blueprint⟩, { s with fields := s.fields.push [] })

/-- A field of an instance. -/
def field? (s : Store) (i : Instance) (name : String) : Option Value :=
  (s.fields[i.identity]?.getD []).get? name

/-- Sets a field of an instance. -/
def setField (s : Store) (i : Instance) (name : String) (value : Value) : Store :=
  { s with fields := s.fields.modify i.identity (·.put name value) }

/-- A number for a new function or class. -/
def newIdentity (s : Store) : Nat × Store := (s.created, { s with created := s.created + 1 })

end Store

namespace Environment

/-- The value of a name in the nearest scope that binds it. -/
def get? (s : Store) (name : String) : Environment → Option Value
  | root scope => (s.scope scope).get? name
  | child scope enclosing =>
    match (s.scope scope).get? name with
    | some value => some value
    | none => enclosing.get? s name

/-- The nearest scope that binds a name. -/
def holder? (s : Store) (name : String) : Environment → Option ScopeId
  | root scope => if (s.scope scope).binds name then some scope else none
  | child scope enclosing =>
    if (s.scope scope).binds name then some scope else enclosing.holder? s name

/-- Gives a name a value in the nearest scope that binds it. -/
def assign? (env : Environment) (s : Store) (name : String) (value : Value) : Option Store :=
  (env.holder? s name).map fun scope => s.define scope name value

/-- The value of a name in the scope `distance` links out; `nil` if it is not bound there. -/
def getAt (env : Environment) (s : Store) (distance : Nat) (name : String) : Value :=
  ((s.scope (env.ancestor distance).scope).get? name).getD .nil

/-- Binds a name in the scope `distance` links out. -/
def assignAt (env : Environment) (s : Store) (distance : Nat) (name : String) (value : Value) :
    Store :=
  s.define (env.ancestor distance).scope name value

end Environment

end Lox
