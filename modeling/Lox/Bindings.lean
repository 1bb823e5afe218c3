/-!
# Bindings of names

A finite map from names to values of any type, as a list in which each name occurs once. Scopes,
the fields of instances and the methods of classes are such maps.
-/

set_option autoImplicit false

namespace Lox

/-- Names with their values. -/
abbrev Bindings (α : Type) := List (String × α)

namespace Bindings

variable {α : Type}

/-- The value of a name. -/
def get? (name : String) : Bindings α → Option α
  | [] => none
  | (n, value) :: rest => if n = name then some value else get? name rest

/-- Whether the name is bound. -/
def binds (b : Bindings α) (name : String) : Bool := (get? name b).isSome

/-- Binds a name, in place of the value it had. -/
def put (name : String) (value : α) : Bindings α → Bindings α
  | [] => [(name, value)]
  | (n, old) :: rest => if n = name then (n, value) :: rest else (n, old) :: put name value rest

/-- A name that was put has the value it was given, and every other name keeps its own. -/
@[simp] theorem get?_put (name other : String) (value : α) (b : Bindings α) :
    get? other (put name value b) = if name = other then some value else get? other b := by
  induction b with
  | nil => simp [put, get?]
  | cons entry rest ih =>
    obtain ⟨n, old⟩ := entry
    by_cases h : n = name <;> grind [put, get?]

end Bindings

end Lox
