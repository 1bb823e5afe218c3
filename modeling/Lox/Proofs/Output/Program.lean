import Mathlib
import Lox.Proofs.Output.Evaluation
import Lox.Proofs.Session.Mirrors

/-!
# Programs with limited output

A program that terminates prints a prefix of its output to a limited sink, and all of it with the same
verdict where it fits. Where it does not fit the program fails with the error of the sink, whatever its
verdict would have been.
-/

set_option autoImplicit false

namespace Lox

variable {n depth : Nat} {program : List Stmt} {m : Interpreter}

/-- A failed run back at the top level. -/
def settled : EStateM.Result Halt Interpreter Unit → EStateM.Result Halt Interpreter Unit
  | .error (.failed failure) m => .error (.failed failure) { m with current := m.topLevel }
  | result => result

/-- Where flushing succeeds a program ends as its statements do. -/
theorem interpret_eq_settled (hflush : m.output.failsToFlush = false) :
    interpret depth program m =
      settled (executeProgram (execute depth) program { m with current := m.topLevel }) := by
  have hgrows :=
    (Limits.executeProgram (n := 0) depth program).grows { m with current := m.topLevel }
  unfold interpret
  cases h : executeProgram (execute depth) program { m with current := m.topLevel } with
  | ok _ t =>
    rw [h] at hgrows
    have hend : t.output.failsToFlush = false := hgrows.failsToFlush.trans hflush
    simp [Eval.flush, Sink.flush, settled, hend]
  | error e t =>
    rw [h] at hgrows
    have hend : t.output.failsToFlush = false := hgrows.failsToFlush.trans hflush
    cases e with
    | exhausted => rfl
    | failed failure => simp [Eval.flush, Sink.flush, settled, hend]

/-- What an interpreter has printed does not depend on how the result is settled. -/
theorem endState_settled (result : EStateM.Result Halt Interpreter Unit) :
    (endState (settled result)).output = (endState result).output := by
  fun_cases settled result <;> rfl

/-- A program only adds to the output. -/
theorem interpret_grows (depth : Nat) (program : List Stmt) (hflush : m.output.failsToFlush = false) :
    m.output.Grows (endState (interpret depth program m)).output := by
  rw [interpret_eq_settled hflush, endState_settled]
  exact (Limits.executeProgram (n := 0) depth program).grows { m with current := m.topLevel }

/-- Settling a result commutes with limiting it. -/
theorem settled_limited (result : EStateM.Result Halt Interpreter Unit) :
    settled (limitedResult n result) = limitedResult n (settled result) := by
  rcases result with ⟨⟨⟩, m⟩ | ⟨_ | _, m⟩ <;> rfl

/-- A program keeps to a limit from the top level, unless its output fails to flush. -/
theorem interpret_limited (depth : Nat) (program : List Stmt) (hflush : m.output.failsToFlush = false)
    (hlimit : m.output.limit = none) (hsize : m.output.written.size ≤ n) :
    (interpret depth program (m.limited n) = limitedResult n (interpret depth program m) ∧
        (endState (interpret depth program m)).output.written.size ≤ n) ∨
      Overflows n (interpret depth program (m.limited n))
        (endState (interpret depth program m)).output := by
  have henter : { m.limited n with current := m.topLevel } = { m with current := m.topLevel }.limited n :=
    rfl
  have hlimited : (m.limited n).output.failsToFlush = false := hflush
  have hrun := (Limits.executeProgram (n := n) depth program).limited
    { m with current := m.topLevel } hlimit hsize
  rw [interpret_eq_settled hflush, interpret_eq_settled hlimited, endState_settled]
  rcases hrun with ⟨hsame, hroom⟩ | ⟨t, hfull, hover⟩
  · exact .inl ⟨by rw [← settled_limited, ← hsame]; rfl, hroom⟩
  · refine .inr ⟨{ t with current := t.topLevel }, ?_, hover⟩
    rw [← henter] at hfull
    exact congrArg settled hfull

/-- The outcome of a run that was not cut short. -/
def outcomeOf : EStateM.Result Halt Interpreter Unit → Option Outcome
  | .ok () m => some ⟨.completed, m.output.written⟩
  | .error (.failed failure) m => some ⟨.failed failure, m.output.written⟩
  | .error .exhausted _ => none

/-- The output of an outcome is what the sink has taken in the end. -/
theorem output_of_outcomeOf {result : EStateM.Result Halt Interpreter Unit} {outcome : Outcome}
    (h : outcomeOf result = some outcome) : outcome.output = (endState result).output.written := by
  unfold outcomeOf at h
  split at h <;> cases h <;> rfl

/-- The interpreter on which a program runs. -/
def started (clock : Nat → Float) (output : Sink) (source : String) : Interpreter :=
  (Session.fresh clock output).emptied.learn (resolve (parsed source 0).statements).distances

/-- The outcome of a program that is accepted is that of interpreting its statements. -/
theorem runProgram_eq_outcomeOf (depth : Nat) (clock : Nat → Float) (output : Sink) {source : String}
    (h : Accepted source 0) :
    runProgram depth clock output source =
      outcomeOf (interpret depth (parsed source 0).statements (started clock output source)) := by
  rw [runProgram, @Session.run_of_accepted depth (Session.fresh clock output) source h]
  show Option.map Prod.fst _ = outcomeOf
    (interpret depth (parsed source (Session.fresh clock output).nextId).statements
      ((Session.fresh clock output).emptied.learn
        (resolve (parsed source (Session.fresh clock output).nextId).statements).distances))
  generalize interpret depth (parsed source (Session.fresh clock output).nextId).statements _ = result
  rcases result with ⟨⟨⟩, m⟩ | ⟨_ | _, m⟩ <;> rfl

/-- The outcome with a limited sink is settled by that with an unlimited one. -/
theorem outcomeOf_limited {result result' : EStateM.Result Halt Interpreter Unit} {outcome : Outcome}
    (h : outcomeOf result = some outcome)
    (hlimited : (result' = limitedResult n result ∧ (endState result).output.written.size ≤ n) ∨
      Overflows n result' (endState result).output) :
    ∃ limited, outcomeOf result' = some limited ∧
      limited.output = outcome.output.extract 0 n ∧
      (outcome.output.size ≤ n → limited = outcome) ∧
      (n < outcome.output.size → limited.verdict = .failed (.output .full)) := by
  rw [output_of_outcomeOf h]
  rcases hlimited with ⟨rfl, hroom⟩ | ⟨t, rfl, hsize, houtput⟩
  · refine ⟨outcome, ?_, ?_, fun _ => rfl, fun hfull => absurd hfull (Nat.not_lt_of_le hroom)⟩
    · rw [← h]
      rcases result with ⟨⟨⟩, m⟩ | ⟨_ | _, m⟩ <;> rfl
    · rw [extract_all hroom, output_of_outcomeOf h]
  · exact ⟨_, rfl, congrArg Sink.written houtput, fun hroom => absurd hsize (Nat.not_lt_of_le hroom),
      fun _ => rfl⟩

/-- What a program prints to an unlimited sink decides what becomes of it with a limited one: the sink
holds the beginning of it, and the program fails with the error of the sink if that is not all. -/
theorem runProgram_limited {depth : Nat} {clock : Nat → Float} {source : String} {outcome : Outcome}
    (h : runProgram depth clock .unlimited source = some outcome) (n : Nat) :
    ∃ limited, runProgram depth clock (Sink.unlimited.limited n) source = some limited ∧
      limited.output = outcome.output.extract 0 n ∧
      (outcome.output.size ≤ n → limited = outcome) ∧
      (n < outcome.output.size → limited.verdict = .failed (.output .full)) := by
  by_cases hfront : frontDiagnostics source (parsed source 0) = []
  · by_cases hresolved : (resolve (parsed source 0).statements).errors = []
    · have haccepted : Accepted source 0 := ⟨hfront, hresolved⟩
      rw [runProgram_eq_outcomeOf depth clock _ haccepted] at h ⊢
      exact outcomeOf_limited h (interpret_limited (m := started clock .unlimited source) depth
        (parsed source 0).statements rfl rfl (Nat.zero_le n))
    · rw [runProgram, Session.run_of_unresolved hfront hresolved] at h ⊢
      cases h
      exact ⟨_, rfl, (extract_all (Nat.zero_le n)).symm, fun _ => rfl,
        fun h => absurd h (Nat.not_lt_zero n)⟩
  · rw [runProgram, Session.run_of_front hfront] at h ⊢
    cases h
    exact ⟨_, rfl, (extract_all (Nat.zero_le n)).symm, fun _ => rfl,
        fun h => absurd h (Nat.not_lt_zero n)⟩

/-- A program that would fail behind its second line stops in the middle of the first. -/
theorem runProgram_limited_line :
    ∃ outcome limited,
      runProgram 9 (fun _ => 0) .unlimited "print \"ab\"; print nil; nil();" = some outcome ∧
      outcome.output = "ab\nnil\n".toUTF8 ∧
      runProgram 9 (fun _ => 0) (Sink.unlimited.limited 1) "print \"ab\"; print nil; nil();" =
        some limited ∧
      limited.output = "a".toUTF8 ∧ limited.verdict = .failed (.output .full) := by
  have hrun : (runProgram 9 (fun _ => 0) .unlimited "print \"ab\"; print nil; nil();").map (·.output) =
      some "ab\nnil\n".toUTF8 := by cbv
  obtain ⟨outcome, hrun, houtput⟩ := Option.map_eq_some_iff.mp hrun
  obtain ⟨limited, hlimited, hbeginning, -, hfull⟩ := runProgram_limited hrun 1
  refine ⟨outcome, limited, hrun, houtput, hlimited, ?_, hfull ?_⟩
  · rw [hbeginning, houtput]
    rfl
  · rw [houtput]
    decide

end Lox
