import Lox.Diagnostic
import Lox.Store

/-!
# The interpreter

The state of a running program and its elementary steps. A step either yields a value or stops, with an
error or because the allotted number of steps is used up; the state up to that point is kept in each
case. The type of a step allows errors of every phase; which of them occur is a matter of proof.
-/

set_option autoImplicit false

namespace Lox

/-- Why evaluation stops without a value. -/
inductive Halt where
  | failed (failure : Failure)
  /-- The allotted number of steps is used up. -/
  | exhausted

/-- The distances of local occurrences, under the number of the occurrence. -/
structure Distances where
  table : Array (Option Nat)

namespace Distances

/-- No distances. -/
def empty : Distances := ⟨#[]⟩

/-- The distance of an occurrence; none if it is global. -/
def get? (d : Distances) (id : Occurrence) : Option Nat := (d.table[id]?).join

/-- Records a distance. -/
def insert (d : Distances) (id : Occurrence) (distance : Nat) : Distances :=
  ⟨(d.table ++ Array.replicate (id + 1 - d.table.size) none).setIfInBounds id (some distance)⟩

/-- Records distances one after the other. -/
def insertAll (d : Distances) (entries : List (Occurrence × Nat)) : Distances :=
  entries.foldl (fun d entry => d.insert entry.1 entry.2) d

end Distances

/-- The state of a running program. -/
structure Interpreter where
  store : Store
  /-- The environment of top-level declarations; global names are looked up from here. -/
  topLevel : Environment
  /-- The environment of what is running. -/
  current : Environment
  distances : Distances
  output : Sink
  /-- The readings of the clock, and how many have been taken. -/
  clock : Nat → Float
  ticks : Nat

namespace Interpreter

/-- The name of the clock. -/
def clockName : String := "clock"

/-- An interpreter that has run nothing. Its root scope holds the native function, and its top-level
scope is empty. -/
def fresh (clock : Nat → Float) (output : Sink) : Interpreter :=
  let (natives, store) := Store.empty.addScope [(clockName, .clock)]
  let (globals, store) := store.addScope []
  let topLevel := .child globals (.root natives)
  { store, topLevel, current := topLevel, distances := .empty, output, clock, ticks := 0 }

/-- Takes over the distances that resolution found. -/
def learn (m : Interpreter) (distances : List (Occurrence × Nat)) : Interpreter :=
  { m with distances := m.distances.insertAll distances }

end Interpreter

/-- A step of evaluation. -/
abbrev Eval := EStateM Halt Interpreter

/-- Reading the state first hands the state to the next step. -/
theorem get_bind {S α : Type} (next : S → EStateM Halt S α) (s : S) :
    (MonadState.get >>= next) s = next s s := rfl

namespace Eval

variable {α : Type}

/-- Stops with a runtime error at a token. -/
def fail {S : Type} (token : Token) (cause : RuntimeCause) : EStateM Halt S α :=
  throw (.failed (.runtime ⟨token.line, cause⟩))

/-- Stops because the allotted number of steps is used up. -/
def exhausted {S : Type} : EStateM Halt S α := throw .exhausted

/-- The value of an occurrence of a name: at its distance if it is local, by name if it is global. -/
def lookUp (id : Occurrence) (name : Token) : Eval Value := do
  let m ← get
  match m.distances.get? id with
  | some distance => return m.current.getAt m.store distance name.lexeme
  | none =>
    match m.topLevel.get? m.store name.lexeme with
    | some value => return value
    | none => fail name (.undefinedVariable name.lexeme)

/-- Assigns to an occurrence of a name: at its distance if it is local, by name if it is global. -/
def assign (id : Occurrence) (name : Token) (value : Value) : Eval Unit := do
  let m ← get
  match m.distances.get? id with
  | some distance => set { m with store := m.current.assignAt m.store distance name.lexeme value }
  | none =>
    match m.topLevel.holder? m.store name.lexeme with
    | some scope => set { m with store := m.store.define scope name.lexeme value }
    | none => fail name (.undefinedVariable name.lexeme)

section Variables

variable {m : Interpreter} {id : Occurrence}

/-- A name with a recorded distance is looked up at this distance. -/
theorem lookUp_local {distance : Nat} (h : m.distances.get? id = some distance) (name : Token) :
    lookUp id name m = .ok (m.current.getAt m.store distance name.lexeme) m := by
  rw [lookUp, get_bind, h]
  rfl

/-- A name without a recorded distance is looked up from the top level. -/
theorem lookUp_global (h : m.distances.get? id = none) (name : Token) :
    lookUp id name m =
      match m.topLevel.get? m.store name.lexeme with
      | some value => .ok value m
      | none => fail name (.undefinedVariable name.lexeme) m := by
  rw [lookUp, get_bind, h]
  dsimp only
  cases m.topLevel.get? m.store name.lexeme <;> rfl

/-- An assignment with a recorded distance stores its value at this distance. -/
theorem assign_local {distance : Nat} (h : m.distances.get? id = some distance) (name : Token)
    (value : Value) :
    assign id name value m =
      .ok () { m with store := m.current.assignAt m.store distance name.lexeme value } := by
  rw [assign, get_bind, h]
  rfl

/-- An assignment without a recorded distance stores its value where the name is found from the top level. -/
theorem assign_global (h : m.distances.get? id = none) (name : Token) (value : Value) :
    assign id name value m =
      match m.topLevel.holder? m.store name.lexeme with
      | some scope => .ok () { m with store := m.store.define scope name.lexeme value }
      | none => fail name (.undefinedVariable name.lexeme) m := by
  rw [assign, get_bind, h]
  dsimp only
  cases m.topLevel.holder? m.store name.lexeme <;> rfl

end Variables

/-- Binds a name in the current scope. -/
def define (name : String) (value : Value) : Eval Unit :=
  modify fun m => { m with store := m.store.define m.current.scope name value }

/-- A new scope with the given names inside an environment. -/
def enclose (env : Environment) (names : Bindings Value) : Eval Environment := fun m =>
  let (scope, store) := m.store.addScope names
  .ok (.child scope env) { m with store }

/-- Runs a step in another environment and comes back to the current one, however the step ends. -/
def within (env : Environment) (step : Eval α) : Eval α := fun m =>
  match step { m with current := env } with
  | .ok a m' => .ok a { m' with current := m.current }
  | .error e m' => .error e { m' with current := m.current }

/-- A new function declared in an environment. -/
def newClosure (declaration : FunctionDecl) (env : Environment) (isInitializer : Bool) :
    Eval Closure := fun m =>
  let (identity, store) := m.store.newIdentity
  .ok ⟨identity, declaration, env, isInitializer⟩ { m with store }

/-- A new class. -/
def newClass (name : String) (methods : Bindings Closure) : Eval ClassValue := fun m =>
  let (identity, store) := m.store.newIdentity
  .ok ⟨identity, name, methods⟩ { m with store }

/-- A new instance of a class. -/
def newInstance (blueprint : ClassValue) : Eval Instance := fun m =>
  let (i, store) := m.store.addInstance blueprint
  .ok i { m with store }

/-- The method as a function of its own, which finds the instance under `this`. -/
def bindMethod (method : Closure) (i : Instance) : Eval Closure := do
  let env ← enclose method.environment [(thisName, .instance i)]
  newClosure method.declaration env method.isInitializer

/-- A property of an instance: a field, or else a method bound to the instance. -/
def property (i : Instance) (name : Token) : Eval Value := do
  match (← get).store.field? i name.lexeme with
  | some value => return value
  | none =>
    match i.blueprint.methods.get? name.lexeme with
    | some method => return .function (← bindMethod method i)
    | none => fail name (.undefinedProperty name.lexeme)

/-- Sets a field of an instance. -/
def setField (i : Instance) (name : String) (value : Value) : Eval Unit :=
  modify fun m => { m with store := m.store.setField i name value }

/-- Prints a line. -/
def printLine (text : String) : Eval Unit := fun m =>
  match m.output.write (text ++ "\n") with
  | (output, none) => .ok () { m with output }
  | (output, some e) => .error (.failed (.output e)) { m with output }

/-- Flushes the output. -/
def flush : Eval Unit := fun m =>
  match m.output.flush with
  | none => .ok () m
  | some e => .error (.failed (.output e)) m

/-- The next reading of the clock. -/
def readClock : Eval Value := fun m => .ok (.number (m.clock m.ticks)) { m with ticks := m.ticks + 1 }

end Eval

end Lox
