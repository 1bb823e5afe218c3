import Lox.CommandLine

/-!
# The program

Reads the arguments, the file or standard input, and writes the reply. Lines at the prompt are run
as they come.
-/

set_option autoImplicit false

namespace Lox.Program

open CommandLine

/-- How deep a run may go. -/
def runDepth : Nat := Nat.pow 2 40

/-- The clock counts its readings. -/
def countingClock (reading : Nat) : Float := reading.toFloat

/-- What is shown for arguments that name no command. -/
def usage : String :=
  "usage: [--log] [--log-file FILE] (tokenize [--json] FILE | parse FILE | run FILE | repl)\n"

/-- Writes a reply. -/
def writeReply (reply : Reply) : IO UInt32 := do
  IO.print reply.output
  IO.eprint reply.errors
  return reply.code.toUInt32

/-- Runs lines from standard input until it ends. -/
partial def promptLoop (input : IO.FS.Stream) (s : Session) : IO UInt32 := do
  IO.print prompt
  (← IO.getStdout).flush
  let line ← input.getLine
  if line.isEmpty then return 0
  match inputLines line.toUTF8.toList with
  | [] => promptLoop input s
  | bytes :: _ =>
    match s.run runDepth (Text.Utf8.decodeLossy ⟨bytes.toArray⟩) with
    | none => return 1
    | some (outcome, s) =>
      IO.print (Text.Utf8.decodeLossy outcome.output)
      IO.eprint (report outcome.verdict.reports)
      promptLoop input s

/-- The files an invocation reads. -/
def readFiles : Command → IO (List (String × ByteArray))
  | .tokenize file _ => readFile file
  | .parse file => readFile file
  | .run file => readFile file
  | .repl => return []
where
  readFile (file : String) : IO (List (String × ByteArray)) := do
    try return [(file, ← IO.FS.readBinFile file)] catch _ => return []

/-- Creates the log file, and says whether that worked. -/
def createLog (file : String) : IO Bool := do
  try
    IO.FS.writeFile file ""
    return true
  catch _ => return false

end Lox.Program

open Lox Lox.CommandLine Lox.Program in
/-- Carries out the command that the arguments name. -/
def main (arguments : List String) : IO UInt32 := do
  match Invocation.ofArguments? arguments with
  | none =>
    IO.eprint usage
    return 2
  | some ⟨command, log⟩ =>
    if let some file := log then
      if !(← createLog file) then
        IO.eprint (HostError.cannotCreate file).text
        return failureCode.toUInt32
    match command with
    | .repl => promptLoop (← IO.getStdin) (.fresh countingClock .unlimited)
    | _ =>
      match respond runDepth countingClock ⟨← readFiles command, .empty⟩ ⟨command, none⟩ with
      | some reply => writeReply reply
      | none => return failureCode.toUInt32
