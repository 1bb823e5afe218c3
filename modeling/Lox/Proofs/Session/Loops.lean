import Mathlib
import Lox.Proofs.Grammar.ForAsWhile
import Lox.Proofs.Session.Joined
import Lox.Proofs.Session.Mirrors
import Lox.Proofs.Token.Rescanned

/-!
# Loops in programs

A program in which a loop is written with `while` and not with `for` does the same. Its uses are numbered
in another order, and so variables are found in another table; but the reference interpreter knows neither
numbers nor distances, and runs one tree for both.
-/

set_option autoImplicit false

namespace Lox

/-- What an outcome says, but for lines: its status, what was printed, and all reports in their order. -/
def Outcome.lineless (o : Outcome) : Status × ByteArray × List (Option String × String) :=
  (o.verdict.status, o.output, o.verdict.reports.map fun d => (d.place?, d.message))

/-- What the outcome of a run by the reference interpreter says, but for lines. -/
def Lexical.lineless : EStateM.Result Halt Machine Unit →
    Option (Status × ByteArray × List (Option String × String))
  | .ok () n => some (.ok, n.output.written, [])
  | .error (.failed failure) n =>
    some (.runtimeError, n.output.written, [(failure.diagnostic.place?, failure.diagnostic.message)])
  | .error .exhausted _ => none

/-- Only the line of a failure is changed. -/
theorem Failure.diagnostic_relabel (R : Relabeling) (failure : Failure) :
    ((failure.relabel R).diagnostic.place?, (failure.relabel R).diagnostic.message) =
      (failure.diagnostic.place?, failure.diagnostic.message) := by
  cases failure <;> rfl

/-- A line that ran like the reference interpreter says what this says. -/
theorem Session.Mirrors.RanAlike.lineless {R : Relabeling} {plan : List Site} {r : Option (Outcome × Session)}
    {result : EStateM.Result Halt Lexical.Machine Unit} (h : RanAlike R .empty plan r result) :
    r.map (·.1.lineless) = Lexical.lineless result := by
  rcases result with ⟨⟨⟩, n⟩ | ⟨failure | _, n⟩
  · cases r with
    | none => exact h.elim
    | some q =>
      obtain ⟨houtcome, w, -, hmirrors⟩ := h
      rw [Option.map_some, houtcome, Lexical.lineless, hmirrors.simulation.output.eq_of_empty]
      rfl
  · cases r with
    | none => exact h.elim
    | some q =>
      obtain ⟨failure', rfl, houtcome, w, -, hmirrors⟩ := h
      rw [Option.map_some, houtcome, Lexical.lineless, hmirrors.simulation.output.eq_of_empty,
        Failure.diagnostic_relabel]
      rfl
  · cases r with
    | some q => exact h.elim
    | none => rfl

/-- The errors of resolution are said but for lines. -/
theorem lineless_rejected (errors : List BindingError) :
    Outcome.lineless ⟨.rejected (errors.map (·.diagnostic)), .empty⟩ =
      (.compileError, .empty, (errors.map (·.relabel .bare)).map fun e =>
        (e.diagnostic.place?, e.diagnostic.message)) := by
  simp only [Outcome.lineless, Verdict.rejected, Verdict.reports, Option.map_none, Option.toList_none,
    List.append_nil, List.map_map]
  rfl

section SameTree

variable {source source' : String} (hfront : frontDiagnostics source (parsed source 0) = [])
  (hfront' : frontDiagnostics source' (parsed source' 0) = [])
  (htree : Stmt.relabelAll .bare (parsed source' 0).statements =
    Stmt.relabelAll .bare (parsed source 0).statements)
include htree

/-- The errors of resolution are found in the tree. -/
theorem resolve_errors_of_tree :
    (resolve (parsed source' 0).statements).errors.map (·.relabel .bare) =
      (resolve (parsed source 0).statements).errors.map (·.relabel .bare) := by
  rw [← resolve_relabel_errors, htree, resolve_relabel_errors]

include hfront hfront'

/-- Programs with the same tree do the same, but for lines. -/
theorem runProgram_of_tree (depth : Nat) (clock : Nat → Float) (output : Sink) :
    (runProgram depth clock output source').map Outcome.lineless =
      (runProgram depth clock output source).map Outcome.lineless := by
  have hmirrors := Session.fresh_mirrors .bare clock output
  have herrors := resolve_errors_of_tree htree
  unfold runProgram
  rw [Option.map_map, Option.map_map]
  by_cases hresolved : (resolve (parsed source 0).statements).errors = []
  · have hresolved' : (resolve (parsed source' 0).statements).errors = [] := by
      rwa [hresolved, List.map_nil, List.map_eq_nil_iff] at herrors
    have hran := hmirrors.accepted depth (.refl _) (⟨hfront, hresolved⟩ : Accepted source 0)
    have hran' := hmirrors.accepted depth (.refl _) (⟨hfront', hresolved'⟩ : Accepted source' 0)
    have hsame : Stmt.relabelAll .bare (parsed source' (Session.fresh clock output).nextId).statements =
      Stmt.relabelAll .bare (parsed source (Session.fresh clock output).nextId).statements := htree
    rw [hsame] at hran'
    exact hran'.lineless.trans hran.lineless.symm
  · have hresolved' : (resolve (parsed source' 0).statements).errors ≠ [] := fun hnil => by
      rw [hnil, List.map_nil] at herrors
      exact hresolved (List.map_eq_nil_iff.mp herrors.symm)
    have hrun : (Session.fresh clock output).run depth source = _ :=
      Session.run_of_unresolved hfront hresolved
    have hrun' : (Session.fresh clock output).run depth source' = _ :=
      Session.run_of_unresolved hfront' hresolved'
    have hsaid := lineless_rejected (resolve (parsed source' 0).statements).errors
    rw [herrors, ← lineless_rejected] at hsaid
    rw [hrun, hrun']
    exact congrArg some hsaid

end SameTree

section Loops

open Grammar Scan

/-- A source scans to tokens, but for their lines. -/
def ScansTo (source : String) (tokens : List Token) : Prop :=
  errors source = [] ∧ (tokensBefore source).map (·.relabel .bare) = tokens.map (·.relabel .bare)

/-- A source that scans to a program parses to its tree. -/
theorem parsed_of_program {source : String} {tokens : List Token} {tree : List Stmt}
    (hscans : ScansTo source tokens) (h : Program tokens tree) :
    frontDiagnostics source (parsed source 0) = [] ∧
      Stmt.relabelAll .bare (parsed source 0).statements = Stmt.relabelAll .bare tree := by
  obtain ⟨hlexical, htokens⟩ := hscans
  have hstart := @start_append tokens (.eofAt 1) 0 (Program.editable h).inner rfl
  obtain ⟨hclean, htree⟩ := parse_of_program (hstart.symm ▸ h)
  have hsame : (Scan.tokens source).map (·.relabel .bare) =
      (tokens ++ [Token.eofAt 1]).map (·.relabel .bare) := by
    rw [tokens_eq, List.map_append, List.map_append, htokens]
    rfl
  obtain ⟨herrors, hstatements⟩ := parse_alike (V := .bare) (fun _ _ => rfl) hsame 0 0
  rw [hclean, List.map_nil, List.map_eq_nil_iff] at herrors
  refine ⟨frontDiagnostics_eq_nil_iff.mpr ⟨hlexical, herrors⟩, hstatements.trans ?_⟩
  rw [← htree, Stmt.relabelAll_relabelAll]
  rfl

/-- A source without errors of scanning and parsing has the tokens of a program. -/
theorem program_of_front {source : String} (h : frontDiagnostics source (parsed source 0) = []) :
    Program (tokensBefore source) (Stmt.relabelAll .anonymous (parsed source 0).statements) := by
  have hprogram := program_of_parse (frontDiagnostics_eq_nil_iff.mp h).2
  rwa [start_tokens] at hprogram

/-- In a source that scans and parses without errors, one loop begins at each `for`. Written with `while`,
the loop can be put in its place, in some source; and any such source scans and parses without errors, has
the same errors of resolution, and does the same when it runs: all this but for lines. -/
theorem for_as_while {source : String} (hfront : frontDiagnostics source (parsed source 0) = []) :
    (∀ before keyword tail, tokensBefore source = before ++ keyword :: tail →
      keyword.isKeyword .for = true →
        ∃! found : ForLoop × List Token, found.1.At before found.2 (tokensBefore source)) ∧
    ∀ (l : ForLoop) before after, l.At before after (tokensBefore source) →
      (∃ source', ScansTo source' (before ++ l.asWhile ++ after)) ∧
      ∀ source', ScansTo source' (before ++ l.asWhile ++ after) →
        frontDiagnostics source' (parsed source' 0) = [] ∧
        (resolve (parsed source' 0).statements).errors.map (·.relabel .bare) =
          (resolve (parsed source 0).statements).errors.map (·.relabel .bare) ∧
        ∀ depth clock output, (runProgram depth clock output source').map Outcome.lineless =
          (runProgram depth clock output source).map Outcome.lineless := by
  have hprogram := program_of_front hfront
  refine ⟨fun before keyword tail htokens hfor => Program.existsUnique_loop hprogram htokens hfor,
    fun l before after hat => ⟨?_, fun source' hscans => ?_⟩⟩
  · have halone : ∀ t ∈ before ++ (l.tokens ++ after), Alone t := fun t ht =>
      alone_of_mem_tokensBefore (hat.1 ▸ ht)
    rw [List.forall_mem_append, List.forall_mem_append] at halone
    obtain ⟨hbefore, hloop, hafter⟩ := halone
    refine exists_source ?_
    rw [List.forall_mem_append, List.forall_mem_append]
    exact ⟨⟨hbefore, ForLoop.asWhile_forall alone_symbol alone_keyword hloop⟩, hafter⟩
  · obtain ⟨hfront', hstatements⟩ := parsed_of_program hscans (Program.asWhile hprogram hat)
    rw [Stmt.relabelAll_relabelAll] at hstatements
    exact ⟨hfront', resolve_errors_of_tree hstatements,
      runProgram_of_tree hfront hfront' hstatements⟩

/-- The loop of `nil;for(var a;a;)a;`. -/
def variableLoop : ForLoop where
  keyword := ⟨.keyword .for, "for", 1⟩
  opening := ⟨.symbol .leftParen, "(", 1⟩
  initial := [⟨.keyword .var, "var", 1⟩, ⟨.identifier, "a", 1⟩, ⟨.symbol .semicolon, ";", 1⟩]
  condition := [⟨.identifier, "a", 1⟩]
  semicolon := ⟨.symbol .semicolon, ";", 1⟩
  increment := []
  closing := ⟨.symbol .rightParen, ")", 1⟩
  body := [⟨.identifier, "a", 1⟩, ⟨.symbol .semicolon, ";", 1⟩]

/-- The loop may be written `{var a;while(a)a;}`, and there is such a program. It runs to its end. -/
theorem for_as_while_variable :
    frontDiagnostics "nil;for(var a;a;)a;" (parsed "nil;for(var a;a;)a;" 0) = [] ∧
      ∃ before, variableLoop.At before [] (tokensBefore "nil;for(var a;a;)a;") ∧
        variableLoop.asWhile.map (·.lexeme) =
          ["\x7b", "var", "a", ";", "while", "(", "a", ")", "a", ";", "\x7d"] ∧
        ∃ source', ScansTo source' (before ++ variableLoop.asWhile ++ []) ∧
          (runProgram 4 (fun _ => 0) .unlimited source').map Outcome.lineless = some (.ok, .empty, []) := by
  have hfront : frontDiagnostics "nil;for(var a;a;)a;" (parsed "nil;for(var a;a;)a;" 0) = [] := by cbv
  have htokens : tokensBefore "nil;for(var a;a;)a;" =
      [⟨.keyword .nil, "nil", 1⟩, ⟨.symbol .semicolon, ";", 1⟩] ++ (variableLoop.tokens ++ []) := by cbv
  have hrun : (runProgram 4 (fun _ => 0) .unlimited "nil;for(var a;a;)a;").map Outcome.lineless =
      some (.ok, .empty, []) := by cbv
  have hwf : variableLoop.WellFormed false :=
    { keyword := rfl, opening := rfl, semicolon := rfl, closing := rfl
      initial := ⟨_, .variable rfl (.plain rfl rfl)⟩
      condition := ⟨_, .some (name_phrase rfl _)⟩
      increment := ⟨_, .none⟩
      body := ⟨_, .expression (name_phrase rfl _) rfl⟩ }
  have hat : variableLoop.At _ [] (tokensBefore "nil;for(var a;a;)a;") :=
    ⟨htokens, false, hwf, by simp⟩
  obtain ⟨⟨source', hscans⟩, hany⟩ := (for_as_while hfront).2 _ _ _ hat
  exact ⟨hfront, _, hat, rfl, source', hscans, ((hany source' hscans).2.2 4 _ _).trans hrun⟩

end Loops

end Lox
