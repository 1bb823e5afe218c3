import Lox.Diagnostic
import Lox.Evaluation
import Lox.Grammar.Statement

/-!
# Programs and sessions

A source is scanned, parsed and resolved, and runs only if none of these found an error. A session
runs one source after another on the same interpreter: declarations and occurrence numbers carry
over, also from sources that were rejected or failed. A program is a session of one source.
-/

set_option autoImplicit false

namespace Lox

/-- How a run ended. -/
inductive Status where
  | ok
  | compileError
  | runtimeError
  deriving DecidableEq, Repr

namespace Status

/-- Every status. -/
def all : List Status := [.ok, .compileError, .runtimeError]

/-- The name of a status. -/
def name : Status → String
  | ok => "Ok"
  | compileError => "CompileError"
  | runtimeError => "RuntimeError"

/-- The exit code of a program that ended like this. -/
def exitCode : Status → Nat
  | ok => 0
  | compileError => 65
  | runtimeError => 70

end Status

/-- What became of a source. -/
structure Verdict where
  status : Status
  /-- The errors that were found before the run, in the order in which they were found. -/
  diagnostics : List Diagnostic
  /-- The error at which the run stopped. -/
  failure? : Option Failure

namespace Verdict

/-- The verdict on a source that ran to its end. -/
def completed : Verdict := ⟨.ok, [], none⟩

/-- The verdict on a source that was rejected before it ran. -/
def rejected (diagnostics : List Diagnostic) : Verdict := ⟨.compileError, diagnostics, none⟩

/-- The verdict on a source whose run stopped at an error. -/
def failed (failure : Failure) : Verdict := ⟨.runtimeError, [], some failure⟩

/-- Every error as it is reported, in order. -/
def reports (v : Verdict) : List Diagnostic :=
  v.diagnostics ++ (v.failure?.map (·.diagnostic)).toList

end Verdict

/-- The verdict on a source and the bytes it printed. -/
structure Outcome where
  verdict : Verdict
  output : ByteArray

/-- The errors of scanning and parsing, the lexical ones first. -/
def frontDiagnostics (source : String) (parsed : Grammar.Parsed) : List Diagnostic :=
  (Scan.errors source).map (·.diagnostic) ++ parsed.errors.map (·.diagnostic)

/-- An interpreter and the number of the next occurrence. -/
structure Session where
  interpreter : Interpreter
  nextId : Occurrence

namespace Session

/-- A session that has run nothing. -/
def fresh (clock : Nat → Float) (output : Sink) : Session := ⟨.fresh clock output, 0⟩

/-- Runs a source. The diagnostics that were found on the way are handed on to the verdict, and the output
is what the sink has taken. There is no answer if the run goes deeper than `depth`. -/
def run (depth : Nat) (s : Session) (source : String) : Option (Outcome × Session) :=
  let lexical := (Scan.errors source).map (·.diagnostic)
  let parsed := Grammar.parse (Scan.tokens source) s.nextId
  let finish (verdict : Verdict) (m : Interpreter) : Option (Outcome × Session) :=
    some (⟨verdict, m.output.written⟩, ⟨m, parsed.nextId⟩)
  let m := { s.interpreter with output := s.interpreter.output.emptied }
  if !parsed.errors.isEmpty then finish (.rejected (lexical ++ parsed.errors.map (·.diagnostic))) m
  else if !lexical.isEmpty then finish (.rejected lexical) m
  else
    let resolution := resolve parsed.statements
    let m := m.learn resolution.distances
    if !resolution.errors.isEmpty then
      finish (.rejected (lexical ++ resolution.errors.map (·.diagnostic))) m
    else
      match interpret depth parsed.statements m with
      | .ok () m => finish ⟨.ok, lexical, none⟩ m
      | .error (.failed failure) m => finish ⟨.runtimeError, lexical, some failure⟩ m
      | .error .exhausted _ => none

/-- Runs sources one after the other. -/
def runAll (depth : Nat) (s : Session) : List String → Option (List Outcome × Session)
  | [] => some ([], s)
  | source :: rest => do
    let (outcome, s) ← s.run depth source
    let (outcomes, s) ← runAll depth s rest
    return (outcome :: outcomes, s)

end Session

/-- Runs a source on a fresh interpreter. -/
def runProgram (depth : Nat) (clock : Nat → Float) (output : Sink) (source : String) :
    Option Outcome :=
  ((Session.fresh clock output).run depth source).map (·.1)

end Lox
