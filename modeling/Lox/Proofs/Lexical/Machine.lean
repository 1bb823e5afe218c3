import Lox.Interpreter

/-!
# A machine with lexical scopes

The state and the elementary steps of a reference interpreter that knows no distances and no
occurrence numbers. The local variables that are visible at a point of the program are a map from
names to locations. The map is an argument of every step and is never changed: a declaration makes a
larger map, with a location that no variable had before, and a function keeps the map of its
declaration. Names that are not in the map are global, and are kept by name in one table with the
native functions below it.
-/

set_option autoImplicit false

namespace Lox.Lexical

/-- The place of a local variable. -/
abbrev Location := Nat

/-- The local variables that are visible at a point of the program. -/
abbrev Scope := Bindings Location

/-- A function that remembers the variables that were visible at its declaration. -/
abbrev Closure := ClosureOver Scope

/-- A class whose methods remember the variables that were visible at its declaration. -/
abbrev ClassValue := ClassOver Scope

/-- An instance of such a class. -/
abbrev Instance := InstanceOver Scope

/-- The values of the reference interpreter. -/
abbrev Value := ValueOver Scope

/-- The state of the reference interpreter. -/
structure Machine where
  /-- The values of all local variables that have been declared, under their locations. -/
  cells : Array Value
  globals : Bindings Value
  /-- The native functions; a global of the same name hides one. -/
  natives : Bindings Value
  fields : Array (Bindings Value)
  /-- How many functions and classes have been created. -/
  created : Nat
  output : Sink
  clock : Nat → Float
  ticks : Nat

namespace Machine

/-- A machine that has run nothing. -/
def fresh (clock : Nat → Float) (output : Sink) : Machine :=
  { cells := #[], globals := [], natives := [(Interpreter.clockName, .clock)], fields := #[],
    created := 0, output, clock, ticks := 0 }

/-- The value of a local variable; `nil` before it is given one. -/
def cell (n : Machine) (l : Location) : Value := n.cells[l]?.getD .nil

/-- Gives a local variable a value. -/
def setCell (n : Machine) (l : Location) (value : Value) : Machine :=
  { n with cells := n.cells.setIfInBounds l value }

/-- The value of a global name. -/
def global? (n : Machine) (name : String) : Option Value :=
  match n.globals.get? name with
  | some value => some value
  | none => n.natives.get? name

/-- Gives a global name a value, if it has one already. -/
def setGlobal? (n : Machine) (name : String) (value : Value) : Option Machine :=
  if n.globals.binds name then some { n with globals := n.globals.put name value }
  else if n.natives.binds name then some { n with natives := n.natives.put name value }
  else none

end Machine

/-- A step of the reference interpreter. -/
abbrev Eval := EStateM Halt Machine

/-- The value of a name: of its location if it is local, by name if it is global. -/
def lookUp (scope : Scope) (name : Token) : Eval Value := fun n =>
  match scope.get? name.lexeme with
  | some l => .ok (n.cell l) n
  | none =>
    match n.global? name.lexeme with
    | some value => .ok value n
    | none => Eval.fail name (.undefinedVariable name.lexeme) n

/-- Assigns to a name: to its location if it is local, by name if it is global. -/
def assign (scope : Scope) (name : Token) (value : Value) : Eval Unit := fun n =>
  match scope.get? name.lexeme with
  | some l => .ok () (n.setCell l value)
  | none =>
    match n.setGlobal? name.lexeme value with
    | some n => .ok () n
    | none => Eval.fail name (.undefinedVariable name.lexeme) n

/-- A location that no variable has, with a value. -/
def newCell (value : Value) : Eval Location := fun n =>
  .ok n.cells.size { n with cells := n.cells.push value }

/-- The scope of a statement among local ones, and of those that follow it: a declaration has its name
at a fresh location. -/
def declare (scope : Scope) (s : Stmt) : Eval Scope :=
  match s.declared? with
  | some name => return scope.put name.lexeme (← newCell .nil)
  | none => return scope

/-- Gives a declared name its value: at its location if it is local, in the table if it is global. -/
def define (scope : Scope) (name : String) (value : Value) : Eval Unit := fun n =>
  match scope.get? name with
  | some l => .ok () (n.setCell l value)
  | none => .ok () { n with globals := n.globals.put name value }

/-- Declares names with values, each at a fresh location. -/
def bindAll (scope : Scope) : List (Token × Value) → Eval Scope
  | [] => return scope
  | (name, value) :: rest => do
    let l ← newCell value
    bindAll (scope.put name.lexeme l) rest

/-- A new function declared where `scope` is visible. -/
def newClosure (declaration : FunctionDecl) (scope : Scope) (isInitializer : Bool) :
    Eval Closure := fun n =>
  .ok ⟨n.created, declaration, scope, isInitializer⟩ { n with created := n.created + 1 }

/-- A new class. -/
def newClass (name : String) (methods : Bindings Closure) : Eval ClassValue := fun n =>
  .ok ⟨n.created, name, methods⟩ { n with created := n.created + 1 }

/-- A new instance of a class. -/
def newInstance (blueprint : ClassValue) : Eval Instance := fun n =>
  .ok ⟨n.fields.size, blueprint⟩ { n with fields := n.fields.push [] }

/-- The method as a function of its own, to which the instance is visible as `this`. -/
def bindMethod (method : Closure) (i : Instance) : Eval Closure := do
  let l ← newCell (.instance i)
  newClosure method.declaration (method.environment.put thisName l) method.isInitializer

/-- A property of an instance: a field, or else a method bound to the instance. -/
def property (i : Instance) (name : Token) : Eval Value := do
  match ((← get).fields[i.identity]?.getD []).get? name.lexeme with
  | some value => return value
  | none =>
    match i.blueprint.methods.get? name.lexeme with
    | some method => return .function (← bindMethod method i)
    | none => Eval.fail name (.undefinedProperty name.lexeme)

/-- Sets a field of an instance. -/
def setField (i : Instance) (name : String) (value : Value) : Eval Unit :=
  modify fun n => { n with fields := n.fields.modify i.identity (·.put name value) }

/-- Prints a line. -/
def printLine (text : String) : Eval Unit := fun n =>
  match n.output.write (text ++ "\n") with
  | (output, none) => .ok () { n with output }
  | (output, some e) => .error (.failed (.output e)) { n with output }

/-- Flushes the output. -/
def flush : Eval Unit := fun n =>
  match n.output.flush with
  | none => .ok () n
  | some e => .error (.failed (.output e)) n

/-- The next reading of the clock. -/
def readClock : Eval Value := fun n => .ok (.number (n.clock n.ticks)) { n with ticks := n.ticks + 1 }

end Lox.Lexical
