import Lox.Session
import Lox.Text.Quoted
import Lox.Text.Utf8
import Lox.Token.Text
import Lox.Tree.Text

/-!
# The command line

Four commands: list the tokens of a file, write its syntax tree, run it, or run lines from standard
input. What a command reads is given beforehand as a `Host`, and what it does is a `Reply`; nothing
here touches the outside. The text of the log is not modelled, only that its file is created, before
anything is read.
-/

set_option autoImplicit false

namespace Lox.CommandLine

/-- What to do. -/
inductive Command where
  | tokenize (file : String) (asJson : Bool)
  | parse (file : String)
  | run (file : String)
  | repl
  deriving DecidableEq, Repr

/-- A command and the log file to create, if any. -/
structure Invocation where
  command : Command
  log : Option String
  deriving DecidableEq, Repr

/-- The log file if none is named. -/
def defaultLog : String := "app.log"

/-- Arguments sorted into options and words. -/
structure Options where
  log : Bool
  logFile : String
  json : Bool
  words : List String

/-- No arguments. -/
def Options.none : Options := ⟨false, defaultLog, false, []⟩

/-- The text behind `--log-file=`. -/
def logFileOf? (argument : String) : Option String :=
  match argument.splitOn "=" with
  | "--log-file" :: value :: values => some ("=".intercalate (value :: values))
  | _ => Option.none

/-- Sorts arguments into options, which may stand anywhere, and words. -/
def Options.read (o : Options) : List String → Option Options
  | [] => some o
  | "--log" :: rest => { o with log := true }.read rest
  | "--json" :: rest => { o with json := true }.read rest
  | "--log-file" :: file :: rest => { o with logFile := file }.read rest
  | argument :: rest =>
    match logFileOf? argument with
    | some file => { o with logFile := file }.read rest
    | Option.none =>
      if argument.startsWith "-" then Option.none
      else { o with words := o.words ++ [argument] }.read rest

/-- The command that the words name. Only tokens can be listed as JSON. -/
def Options.command? (o : Options) : Option Command :=
  match o.words, o.json with
  | ["tokenize", file], asJson => some (.tokenize file asJson)
  | ["parse", file], false => some (.parse file)
  | ["run", file], false => some (.run file)
  | ["repl"], false => some .repl
  | _, _ => Option.none

/-- Reads the arguments of the program. -/
def Invocation.ofArguments? (arguments : List String) : Option Invocation := do
  let o ← Options.none.read arguments
  let command ← o.command?
  return ⟨command, if o.log then some o.logFile else Option.none⟩

/-- What a command can read: the files of the working directory and standard input. -/
structure Host where
  files : List (String × ByteArray)
  input : ByteArray

/-- What a command did: its exit code, what it wrote, and the files there are now. -/
structure Reply where
  code : Nat
  output : String
  errors : String
  files : List String

/-- How a command fails to read or write. -/
inductive HostError where
  | cannotOpen (file : String)
  | notText (file : String) (fault : Text.Utf8.Fault)
  | cannotCreate (file : String)
  | inputNotText
  deriving DecidableEq, Repr

namespace HostError

/-- What could not be done. -/
def context : HostError → String
  | cannotOpen file => s!"Failed to open file {Text.quotedName file}"
  | notText file _ => s!"File {Text.quotedName file} is not valid UTF-8"
  | cannotCreate file => s!"Failed to create {Text.quotedName file}"
  | inputNotText => "Failed to read from stdin"

/-- Why it could not be done. -/
def cause : HostError → String
  | cannotOpen _ => "No such file or directory (os error 2)"
  | notText _ fault => fault.message
  | cannotCreate _ => "No such file or directory (os error 2)"
  | inputNotText => "stream did not contain valid UTF-8"

/-- The error as it is shown. -/
def text (e : HostError) : String := s!"Error: {e.context}\n\nCaused by:\n    {e.cause}\n"

end HostError

/-- What a command writes, and how it ends: with an exit code, or by failing to read. -/
structure Transcript where
  output : String
  errors : String
  ending : Except HostError Nat

/-- The exit code for a command that fails to read or write. -/
def failureCode : Nat := 1

/-- Texts as lines. -/
def lines (texts : List String) : String := String.join (texts.map (· ++ "\n"))

/-- Diagnostics as lines. -/
def report (diagnostics : List Diagnostic) : String := lines (diagnostics.map (·.text))

/-- The name of a file in the working directory, if the path leads to one. -/
def localName? (path : String) : Option String :=
  match (path.splitOn "/").filter (· != ".") with
  | [name] => if name.isEmpty then none else some name
  | _ => none

/-- The bytes of a file, which is named as it is listed or by a path that leads to it. -/
def Host.bytes? (host : Host) (file : String) : Option ByteArray :=
  match host.files.lookup file with
  | some bytes => some bytes
  | none => (localName? file).bind (host.files.lookup ·)

/-- The text of a file. -/
def Host.text (host : Host) (file : String) : Except HostError String :=
  match host.bytes? file with
  | none => .error (.cannotOpen file)
  | some bytes =>
    match Text.Utf8.decode bytes with
    | .ok text => .ok text
    | .error fault => .error (.notText file fault)

/-- The exit code for a source with or without errors before its run. -/
def frontCode (hasErrors : Bool) : Nat :=
  (if hasErrors then Status.compileError else Status.ok).exitCode

/-- Lists the tokens of a source, and its lexical errors. -/
def tokenize (source : String) (asJson : Bool) : Transcript :=
  let errors := Scan.errors source
  let listed := (Scan.tokens source).map fun t => if asJson then t.json else t.text
  ⟨lines listed, report (errors.map (·.diagnostic)), .ok (frontCode !errors.isEmpty)⟩

/-- Writes the statements of a source in prefix form, unless it has errors. -/
def parse (source : String) : Transcript :=
  let parsed := Grammar.parse (Scan.tokens source) 0
  let found := frontDiagnostics source parsed
  let written := if found.isEmpty then parsed.statements.map (·.text) else []
  ⟨lines written, report found, .ok (frontCode !found.isEmpty)⟩

/-- Runs a source. -/
def run (depth : Nat) (clock : Nat → Float) (source : String) : Option Transcript := do
  let outcome ← runProgram depth clock .unlimited source
  return ⟨Text.Utf8.decodeLossy outcome.output, report outcome.verdict.reports,
    .ok outcome.verdict.status.exitCode⟩

/-- The prompt. -/
def prompt : String := "> "

/-- Bytes cut into lines: each ends with a line feed, which goes with the carriage return before it;
the last line may lack it. -/
def inputLines (bytes : List UInt8) : List (List UInt8) :=
  match bytes with
  | [] => []
  | b :: rest =>
    let line := (b :: rest).takeWhile (· != 10)
    if line.length = rest.length + 1 then [line]
    else
      let after := rest.drop line.length
      (if line.getLast? == some 13 then line.dropLast else line) :: inputLines after
termination_by bytes.length

/-- Runs lines in a session, with a prompt before each line and before the end of the input. -/
def replFrom (depth : Nat) (s : Session) : List (List UInt8) → Option Transcript
  | [] => some ⟨prompt, "", .ok Status.ok.exitCode⟩
  | line :: rest =>
    match String.fromUTF8? ⟨line.toArray⟩ with
    | none => some ⟨prompt, "", .error .inputNotText⟩
    | some source => do
      let (outcome, s) ← s.run depth source
      let t ← replFrom depth s rest
      return ⟨prompt ++ Text.Utf8.decodeLossy outcome.output ++ t.output,
        report outcome.verdict.reports ++ t.errors, t.ending⟩

/-- Carries out a command on the text of its file. -/
def onFile (host : Host) (file : String) (command : String → Option Transcript) :
    Option Transcript :=
  match host.text file with
  | .ok source => command source
  | .error e => some ⟨"", "", .error e⟩

/-- Carries out a command. -/
def perform (depth : Nat) (clock : Nat → Float) (host : Host) : Command → Option Transcript
  | .tokenize file asJson => onFile host file fun source => some (tokenize source asJson)
  | .parse file => onFile host file fun source => some (parse source)
  | .run file => onFile host file (run depth clock)
  | .repl => replFrom depth (.fresh clock .unlimited) (inputLines host.input.toList)

/-- The reply that a transcript makes, with the files there are afterwards. -/
def Transcript.reply (t : Transcript) (files : List String) : Reply :=
  match t.ending with
  | .ok code => ⟨code, t.output, t.errors, files⟩
  | .error e => ⟨failureCode, t.output, t.errors ++ e.text, files⟩

/-- Names in order, each once. -/
def sortedNames (names : List String) : List String :=
  (names.mergeSort (fun a b => decide (a ≤ b))).eraseDups

/-- Carries out an invocation: creates the log file, then performs the command. There is no answer
if a run goes deeper than `depth`. -/
def respond (depth : Nat) (clock : Nat → Float) (host : Host) (i : Invocation) : Option Reply :=
  let files := host.files.map (·.1)
  match i.log with
  | none => do
    let t ← perform depth clock host i.command
    return t.reply (sortedNames files)
  | some log =>
    match localName? log with
    | none => some (Transcript.reply ⟨"", "", .error (.cannotCreate log)⟩ (sortedNames files))
    | some name => do
      let t ← perform depth clock host i.command
      return t.reply (sortedNames (name :: files))

end Lox.CommandLine
