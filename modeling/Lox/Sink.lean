/-!
# Output

What a program prints goes to a sink, byte by byte. A sink may have room for only so many bytes: it
takes those, and refuses the first one beyond them. It may also fail when it is flushed.
-/

set_option autoImplicit false

namespace Lox

/-- How a sink fails. -/
inductive SinkError where
  | full
  | flushFailed
  deriving DecidableEq, Repr

/-- The wording of a failure. -/
def SinkError.message : SinkError → String
  | .full => "sink full"
  | .flushFailed => "flush failed"

/-- Where printed text goes. -/
structure Sink where
  /-- The bytes taken so far. -/
  written : ByteArray
  /-- How many bytes it takes in all, if that is limited. -/
  limit : Option Nat
  /-- Whether flushing fails. -/
  failsToFlush : Bool

namespace Sink

/-- A sink that takes everything. -/
def unlimited : Sink := ⟨.empty, none, false⟩

/-- An empty sink of the same kind. -/
def emptied (s : Sink) : Sink := { s with written := .empty }

/-- Writes a text. A sink without room for all of it takes what fits and fails. -/
def write (s : Sink) (text : String) : Sink × Option SinkError :=
  let bytes := text.toUTF8
  match s.limit with
  | none => ({ s with written := s.written ++ bytes }, none)
  | some limit =>
    let room := limit - s.written.size
    if bytes.size ≤ room then ({ s with written := s.written ++ bytes }, none)
    else ({ s with written := s.written ++ bytes.extract 0 room }, some .full)

/-- Flushes the sink. -/
def flush (s : Sink) : Option SinkError := if s.failsToFlush then some .flushFailed else none

end Sink

end Lox
