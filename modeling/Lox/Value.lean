import Lox.Bindings
import Lox.Tree
import Lox.Number.Text

/-!
# Environments and values

A running program keeps its variables in scopes, which live in a store under numbers. An environment
is a chain of scope numbers, the innermost scope first, and ends in a root. Functions remember the
environment of their declaration; classes and instances have an identity of their own. What an
instance holds is in the store, so a value itself never changes.

What values are and what the operators make of them does not depend on how variables are kept, so the
types are stated over what a function remembers of its declaration; `Value` takes an environment.
-/

set_option autoImplicit false

namespace Lox

/-- The place of a scope in the store. -/
abbrev ScopeId := Nat

/-- A chain of scopes from the innermost one out to the root. -/
inductive Environment where
  | root (scope : ScopeId)
  | child (scope : ScopeId) (enclosing : Environment)
  deriving DecidableEq, Repr

namespace Environment

/-- The innermost scope. -/
def scope : Environment → ScopeId
  | root scope => scope
  | child scope _ => scope

/-- The environment `distance` links out; the root if the chain is shorter. -/
def ancestor : Environment → (distance : Nat) → Environment
  | env, 0 => env
  | root scope, _ + 1 => root scope
  | child _ enclosing, distance + 1 => enclosing.ancestor distance

end Environment

section Values

variable {E : Type}

/-- A function or method with what it remembers of the place where it was declared. -/
structure ClosureOver (E : Type) where
  identity : Nat
  declaration : FunctionDecl
  environment : E
  isInitializer : Bool

namespace ClosureOver

/-- The name of the function. -/
def name (c : ClosureOver E) : String := c.declaration.name.lexeme

/-- The number of arguments the function takes. -/
def arity (c : ClosureOver E) : Nat := c.declaration.params.length

end ClosureOver

/-- A class: its name and methods. -/
structure ClassOver (E : Type) where
  identity : Nat
  name : String
  methods : Bindings (ClosureOver E)

namespace ClassOver

/-- The method that initializes instances. -/
def initializer? (c : ClassOver E) : Option (ClosureOver E) := c.methods.get? initializerName

/-- The number of arguments for a new instance. -/
def arity (c : ClassOver E) : Nat := (c.initializer?.map (·.arity)).getD 0

end ClassOver

/-- An instance of a class; its fields are in the store, under its identity. -/
structure InstanceOver (E : Type) where
  identity : Nat
  blueprint : ClassOver E

/-- Values. The only native function is the clock. -/
inductive ValueOver (E : Type) where
  | nil
  | bool (b : Bool)
  | number (x : Float)
  | string (text : String)
  | clock
  | function (closure : ClosureOver E)
  | class (c : ClassOver E)
  | instance (i : InstanceOver E)

namespace ValueOver

/-- All values but `nil` and `false` count as true. -/
def isTruthy : ValueOver E → Bool
  | .nil => false
  | .bool b => b
  | _ => true

/-- The number of arguments a value takes, if it can be called. -/
def arity? : ValueOver E → Option Nat
  | .clock => some 0
  | .function closure => some closure.arity
  | .class c => some c.arity
  | _ => none

/-- The name of the kind of value. -/
def typeName : ValueOver E → String
  | .nil => "nil"
  | .bool _ => "boolean"
  | .number _ => "number"
  | .string _ => "string"
  | .clock => "function"
  | .function _ => "function"
  | .class _ => "class"
  | .instance _ => "instance"

/-- The text that is printed. -/
def text : ValueOver E → String
  | .nil => "nil"
  | .bool true => "true"
  | .bool false => "false"
  | .number x => Number.printed x
  | .string text => text
  | .clock => "<native fn>"
  | .function closure => s!"<fn {closure.name}>"
  | .class c => c.name
  | .instance i => s!"object<{i.blueprint.name}>"

/-- Equality of the language: simple values by what they are, objects by identity. A number that is
undefined equals nothing. -/
def equals : ValueOver E → ValueOver E → Bool
  | .nil, .nil => true
  | .bool a, .bool b => a == b
  | .number a, .number b => a == b
  | .string a, .string b => a == b
  | .clock, .clock => true
  | .function a, .function b => a.identity == b.identity
  | .class a, .class b => a.identity == b.identity
  | .instance a, .instance b => a.identity == b.identity
  | _, _ => false

/-- The value of a constant. -/
def ofLiteral : Literal → ValueOver E
  | .number x => .number x
  | .string text => .string text
  | .true => .bool true
  | .false => .bool false
  | .nil => .nil

end ValueOver

end Values

/-- A function that remembers the environment of its declaration. -/
abbrev Closure := ClosureOver Environment

/-- A class whose methods remember the environment of its declaration. -/
abbrev ClassValue := ClassOver Environment

/-- An instance of such a class. -/
abbrev Instance := InstanceOver Environment

/-- The values of a running program. -/
abbrev Value := ValueOver Environment

end Lox
