import Mathlib
import Lox.Proofs.Output.Program
import Lox.Proofs.Resolution.Verdict
import Lox.Proofs.Session.Renumbering

/-!
# What outcomes say

A source that terminates has one of three outcomes, and each says the same in all its parts: the status
goes with the diagnostics, with the failure and with what was printed. Which sources are rejected, and
with which diagnostics, is decided before the run and does not depend on the session. What fails during a
run is an operation of the program or the output, and the output only where it can; this is known by
induction over evaluation, since a step may stop with an error of any kind.
-/

set_option autoImplicit false

namespace Lox

/-- An error is one that a run can stop at if its output goes to the given sink. No error that is found before
a run is among these. -/
def Failure.PossibleWith (o : Sink) : Failure → Prop
  | .runtime _ => True
  | .output .full => o.limit ≠ none
  | .output .flushFailed => o.failsToFlush = true
  | .lexical _ => False
  | .grammatical _ => False
  | .binding _ => False

/-- What a sink has taken does not matter for the errors that are possible with it. -/
theorem Failure.possibleWith_emptied {failure : Failure} {o : Sink} :
    failure.PossibleWith o.emptied ↔ failure.PossibleWith o := by
  rcases failure with _ | _ | _ | _ | ⟨_ | _⟩ <;> rfl

/-- Among the errors of all kinds, those of a run are the runtime errors and the errors of the output. -/
theorem Failure.PossibleWith.kind {failure : Failure} {o : Sink} (h : failure.PossibleWith o) :
    (∃ error, failure = .runtime error) ∨ ∃ error, failure = .output error := by
  cases failure with
  | runtime error => exact .inl ⟨error, rfl⟩
  | output error => exact .inr ⟨error, rfl⟩
  | lexical _ => exact h.elim
  | grammatical _ => exact h.elim
  | binding _ => exact h.elim

/-- A flush fails only where the sink says so. -/
theorem Eval.flush_failure {m t : Interpreter} {failure : Failure}
    (h : Eval.flush m = .error (.failed failure) t) : failure.PossibleWith m.output := by
  unfold Eval.flush Sink.flush at h
  cases hfails : m.output.failsToFlush with
  | false => simp [hfails] at h
  | true =>
    simp only [hfails, if_true] at h
    cases h
    exact hfails

/-- A failed run has failed in a way that is possible with its output, whatever the program is and from
whatever state it runs. -/
theorem interpret_failure {depth : Nat} {program : List Stmt} {m t : Interpreter} {failure : Failure}
    (h : interpret depth program m = .error (.failed failure) t) : failure.PossibleWith m.output := by
  have hlimits := Limits.executeProgram (n := 0) depth program
  have hgrows := hlimits.grows { m with current := m.topLevel }
  unfold interpret at h
  cases hrun : executeProgram (execute depth) program { m with current := m.topLevel } with
  | ok _ m' =>
    rw [hrun] at h hgrows
    rw [← Failure.possibleWith_emptied, ← hgrows.emptied, Failure.possibleWith_emptied]
    exact Eval.flush_failure h
  | error e m' =>
    rw [hrun] at h hgrows
    cases e with
    | exhausted => cases h
    | failed first =>
      dsimp only at h
      cases hm' : Eval.flush { m' with current := m'.topLevel } with
      | ok _ m'' =>
        rw [hm'] at h
        cases h
        -- the error of the statements stays, and the induction over evaluation says of which kind it is
        rcases hlimits.failure _ m' failure hrun with ⟨error, rfl⟩ | ⟨rfl, hlimit⟩
        · trivial
        · exact hlimit
      | error e' m'' =>
        rw [hm'] at h
        cases h
        rw [← Failure.possibleWith_emptied, ← hgrows.emptied, Failure.possibleWith_emptied]
        have hflush := Eval.flush_failure hm'
        exact hflush

/-- All parts of an outcome of `source` agree, with output to the given sink. A source whose run completes or
fails has been accepted, and nothing is reported of it but the error at which it failed. The diagnostics of a
rejected source are those of scanning and then those of parsing, or those of resolution if there are no
others. -/
def Outcome.Consistent (source : String) (o : Sink) (outcome : Outcome) : Prop :=
  match outcome.verdict.status with
  | .ok =>
    Accepted source 0 ∧ outcome.verdict.diagnostics = [] ∧ outcome.verdict.failure? = none
  | .compileError =>
    outcome.verdict.diagnostics ≠ [] ∧ outcome.verdict.failure? = none ∧ outcome.output = .empty ∧
      (outcome.verdict.diagnostics =
          (Scan.errors source).map (·.diagnostic) ++ (parsed source 0).errors.map (·.diagnostic) ∨
        Scan.errors source = [] ∧ (parsed source 0).errors = [] ∧ outcome.verdict.diagnostics =
          (resolve (parsed source 0).statements).errors.map (·.diagnostic))
  | .runtimeError =>
    Accepted source 0 ∧ outcome.verdict.diagnostics = [] ∧
      ∃ failure, outcome.verdict.failure? = some failure ∧
        ((∃ error, failure = .runtime error) ∨ ∃ error, failure = .output error) ∧ failure.PossibleWith o

section Run

variable (depth : Nat) (s : Session) (source : String)

/-- A line is rejected exactly if it is not accepted. -/
theorem Session.rejected_iff :
    (∃ outcome s', s.run depth source = some (outcome, s') ∧ outcome.verdict.status = .compileError) ↔
      ¬Accepted source s.nextId := by
  constructor
  · rintro ⟨outcome, s', hrun, hstatus⟩ haccepted
    rw [run_of_accepted haccepted] at hrun
    split at hrun <;> cases hrun <;> cases hstatus
  · intro h
    by_cases hfront : frontDiagnostics source (parsed source s.nextId) = []
    · have hresolved : (resolve (parsed source s.nextId).statements).errors ≠ [] :=
        fun hresolved => h ⟨hfront, hresolved⟩
      exact ⟨_, _, run_of_unresolved hfront hresolved, rfl⟩
    · exact ⟨_, _, run_of_front hfront, rfl⟩

/-- Whether a line is accepted can be told from its text. -/
theorem accepted_iff_wellBound (firstId : Occurrence) :
    Accepted source firstId ↔
      frontDiagnostics source (parsed source 0) = [] ∧ WellBound (parsed source 0).statements := by
  rw [← resolve_errors_iff]
  exact ⟨fun h => ⟨h.renumber.front, h.renumber.resolved⟩,
    fun h => Accepted.renumber ⟨h.1, h.2⟩⟩

end Run

/-- Every outcome is consistent, of a program and of a line in whatever state a session is. And whatever is
evaluated, run or called in whatever state, the error at which this stops is a runtime error or one of the
output. -/
theorem outcome_consistent :
    (∀ depth clock o source outcome, runProgram depth clock o source = some outcome →
      outcome.Consistent source o) ∧
    (∀ depth (s s' : Session) source outcome, s.run depth source = some (outcome, s') →
      outcome.Consistent source s.interpreter.output) ∧
    ∀ depth (m t : Interpreter) failure,
      (∃ e, evaluate depth e m = .error (.failed failure) t) ∨
      (∃ s, execute depth s m = .error (.failed failure) t) ∨
      (∃ f arguments, apply depth f arguments m = .error (.failed failure) t) ∨
      (∃ program, interpret depth program m = .error (.failed failure) t) →
        (∃ error, failure = .runtime error) ∨ ∃ error, failure = .output error := by
  have hsession (depth : Nat) (s s' : Session) (source : String) (outcome : Outcome)
      (h : s.run depth source = some (outcome, s')) : outcome.Consistent source s.interpreter.output := by
    by_cases hfront : frontDiagnostics source (parsed source s.nextId) = []
    · by_cases hresolved : (resolve (parsed source s.nextId).statements).errors = []
      · have haccepted : Accepted source s.nextId := ⟨hfront, hresolved⟩
        rw [Session.run_of_accepted haccepted] at h
        split at h
        · cases h
          exact ⟨haccepted.renumber, rfl, rfl⟩
        · rename_i failure m hrun
          cases h
          have hpossible := Failure.possibleWith_emptied.mp (interpret_failure hrun)
          exact ⟨haccepted.renumber, rfl, failure, rfl, hpossible.kind, hpossible⟩
        · cases h
      · -- the errors of resolution do not depend on the numbers that the session has reached
        have hscanned := (frontDiagnostics_renumber source s.nextId 0).trans hfront
        obtain ⟨hlexical, hgrammatical⟩ := frontDiagnostics_eq_nil_iff.mp hscanned
        rw [Session.run_of_unresolved hfront hresolved] at h
        cases h
        refine ⟨by simpa [Verdict.rejected] using hresolved, rfl, rfl, .inr ⟨hlexical, hgrammatical, ?_⟩⟩
        exact congrArg (List.map _) (resolve_errors_renumber source 0 s.nextId)
    · rw [Session.run_of_front hfront] at h
      cases h
      exact ⟨hfront, rfl, rfl, .inl (frontDiagnostics_renumber source 0 s.nextId)⟩
  refine ⟨fun depth clock o source outcome h => ?_, hsession, fun depth m t failure h => ?_⟩
  · obtain ⟨⟨_, s'⟩, hrun, rfl⟩ := Option.map_eq_some_iff.mp h
    exact hsession depth (.fresh clock o) s' source _ hrun
  · have hlimits := Limits.evaluation 0 depth
    have hkind (h : (∃ error, failure = .runtime error) ∨ failure = .output .full ∧ m.output.limit ≠ none) :
        (∃ error, failure = .runtime error) ∨ ∃ error, failure = .output error :=
      h.imp_right fun hfull => ⟨_, hfull.1⟩
    rcases h with ⟨e, h⟩ | ⟨s, h⟩ | ⟨f, arguments, h⟩ | ⟨program, h⟩
    · exact hkind ((hlimits.evaluate e).failure m t failure h)
    · exact hkind ((hlimits.execute s).failure m t failure h)
    · exact hkind ((hlimits.apply f arguments).failure m t failure h)
    · exact (interpret_failure h).kind

/-- One source for each status, a line of a session whose sink is full, and an expression that fails. -/
theorem outcome_consistent_statuses :
    (∃ ok rejected failed,
      runProgram 9 (fun _ => 0) .unlimited "print nil;" = some ok ∧
      ok.verdict.status = .ok ∧ ok.Consistent "print nil;" .unlimited ∧
      runProgram 9 (fun _ => 0) .unlimited "\x7bvar a=a;\x7d" = some rejected ∧
      rejected.verdict.status = .compileError ∧ rejected.Consistent "\x7bvar a=a;\x7d" .unlimited ∧
      runProgram 9 (fun _ => 0) .unlimited "print nil; nil();" = some failed ∧
      failed.verdict.status = .runtimeError ∧ failed.Consistent "print nil; nil();" .unlimited) ∧
    (∃ full s', (Session.fresh (fun _ => 0) ⟨.empty, some 1, false⟩).run 9 "print nil;" = some (full, s') ∧
      full.verdict.failure? = some (.output .full) ∧ full.Consistent "print nil;" ⟨.empty, some 1, false⟩) ∧
    ∃ m t failure, evaluate 9 (.unary ⟨.symbol .minus, "-", 1⟩ (.literal .nil)) m = .error (.failed failure) t ∧
      ((∃ error, failure = .runtime error) ∨ ∃ error, failure = .output error) := by
  have hok : (runProgram 9 (fun _ => 0) .unlimited "print nil;").map (·.verdict.status) = some .ok := by cbv
  have hrejected : (runProgram 9 (fun _ => 0) .unlimited "\x7bvar a=a;\x7d").map (·.verdict.status) =
      some .compileError := by cbv
  have hfailed : (runProgram 9 (fun _ => 0) .unlimited "print nil; nil();").map (·.verdict.status) =
      some .runtimeError := by cbv
  have hfull : ((Session.fresh (fun _ => 0) ⟨.empty, some 1, false⟩).run 9 "print nil;").map
      (·.1.verdict.failure?) = some (some (.output .full)) := by cbv
  obtain ⟨ok, hok, hstatus⟩ := Option.map_eq_some_iff.mp hok
  obtain ⟨rejected, hrejected, hstatus'⟩ := Option.map_eq_some_iff.mp hrejected
  obtain ⟨failed, hfailed, hstatus''⟩ := Option.map_eq_some_iff.mp hfailed
  obtain ⟨⟨full, s'⟩, hrun, hfull⟩ := Option.map_eq_some_iff.mp hfull
  have hevaluate : evaluate 9 (.unary ⟨.symbol .minus, "-", 1⟩ (.literal .nil)) (.fresh (fun _ => 0) .unlimited) =
      .error (.failed (.runtime ⟨1, .operandNotNumber⟩)) (.fresh (fun _ => 0) .unlimited) := rfl
  exact ⟨⟨ok, rejected, failed, hok, hstatus, outcome_consistent.1 _ _ _ _ _ hok,
    hrejected, hstatus', outcome_consistent.1 _ _ _ _ _ hrejected,
    hfailed, hstatus'', outcome_consistent.1 _ _ _ _ _ hfailed⟩,
    ⟨full, s', hrun, hfull, outcome_consistent.2.1 _ _ _ _ _ hrun⟩,
    ⟨_, _, _, hevaluate, outcome_consistent.2.2 _ _ _ _ (.inl ⟨_, hevaluate⟩)⟩⟩

/-- A program is resolved without errors exactly if it keeps the rules of binding; and a session, in
whatever state it is, rejects a line exactly if this does not scan and parse, or does not keep the rules. -/
theorem rejected_iff_not_wellBound :
    (∀ program : List Stmt, (resolve program).errors = [] ↔ WellBound program) ∧
      ∀ (depth : Nat) (s : Session) (source : String),
        (∃ outcome s', s.run depth source = some (outcome, s') ∧
            outcome.verdict.status = .compileError) ↔
          frontDiagnostics source (parsed source 0) ≠ [] ∨ ¬WellBound (parsed source 0).statements := by
  refine ⟨resolve_errors_iff, fun depth s source => ?_⟩
  rw [s.rejected_iff depth source, accepted_iff_wellBound, not_and_or]

end Lox
