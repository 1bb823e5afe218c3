import Lox.Proofs.Session.Mirrors

/-!
# Programs are lexically scoped

A program on a fresh interpreter does what it does under the reference interpreter: it is rejected with
the same diagnostics, or prints the same bytes and ends in the same way. The interpreter finds variables
by distances in environments that keep growing after functions have captured them; the reference
interpreter knows neither, and looks every name up in a map that never changes.
-/

set_option autoImplicit false

namespace Lox

/-- A failure is left alone where no label changes. -/
@[simp] theorem Failure.relabel_id (failure : Failure) : failure.relabel .id = failure := by
  cases failure <;> rfl

/-- Under the reference interpreter, an accepted program ends as its run does. -/
theorem Lexical.runProgram_of_accepted (depth : Nat) (clock : Nat → Float) (output : Sink)
    {source : String} (h : Accepted source 0) :
    Lexical.runProgram depth clock output source =
      match Lexical.interpret depth (parsed source 0).statements (.fresh clock output.emptied) with
      | .ok () n => some ⟨.completed, n.output.written⟩
      | .error (.failed failure) n => some ⟨.failed failure, n.output.written⟩
      | .error .exhausted _ => none := by
  have hfound : ¬(!(frontDiagnostics source (parsed source 0)).isEmpty) = true := by
    simp [h.front]
  have herrors : ¬(!(resolve (parsed source 0).statements).errors.isEmpty) = true := by
    simp [h.resolved]
  exact (if_neg hfound).trans (if_neg herrors)

/-- An accepted program has the outcome that lexical scoping gives it. -/
theorem runProgram_of_accepted (depth : Nat) (clock : Nat → Float) (output : Sink) {source : String}
    (h : Accepted source 0) :
    runProgram depth clock output source = Lexical.runProgram depth clock output source := by
  have haccepted := (Session.fresh_mirrors .id clock output).accepted depth (.refl output.emptied) h
  rw [Stmt.relabelAll_id] at haccepted
  have hrun : Session.Mirrors.RanAlike .id .empty _ ((Session.fresh clock output).run depth source)
      (Lexical.interpret depth (parsed source 0).statements (.fresh clock output.emptied)) := haccepted
  rw [runProgram, Lexical.runProgram_of_accepted depth clock output h]
  generalize (Session.fresh clock output).run depth source = result,
    Lexical.interpret depth (parsed source 0).statements (.fresh clock output.emptied) = result'
    at hrun ⊢
  have hwritten {w : World} {s : Session} {n : Lexical.Machine}
      (h : s.Mirrors .id .empty w n) : n.output.written = s.interpreter.output.written := by
    rw [h.simulation.output.eq_of_empty]
  match result, result' with
  | some (outcome, s), .ok () n =>
    obtain ⟨rfl, w, -, hmirrors⟩ := hrun
    simp [hwritten hmirrors]
  | some (outcome, s), .error (.failed failure') n =>
    obtain ⟨failure, rfl, rfl, w, -, hmirrors⟩ := hrun
    simp [hwritten hmirrors]
  | some (outcome, s), .error .exhausted n => exact hrun.elim
  | none, .ok () n => exact hrun.elim
  | none, .error (.failed failure') n => exact hrun.elim
  | none, .error .exhausted n => rfl

/-- A program has the outcome that lexical scoping gives it, whatever it is. -/
theorem runProgram_eq_lexical (depth : Nat) (clock : Nat → Float) (output : Sink) (source : String) :
    runProgram depth clock output source = Lexical.runProgram depth clock output source := by
  by_cases hfront : frontDiagnostics source (parsed source 0) = []
  · by_cases hresolved : (resolve (parsed source 0).statements).errors = []
    · exact runProgram_of_accepted depth clock output ⟨hfront, hresolved⟩
    · have hfound : ¬(!(frontDiagnostics source (parsed source 0)).isEmpty) = true := by
        simp [hfront]
      have herrors : (!(resolve (parsed source 0).statements).errors.isEmpty) = true := by
        simpa using hresolved
      rw [runProgram, Session.run_of_unresolved hfront hresolved]
      exact ((if_neg hfound).trans (if_pos herrors)).symm
  · have hfound : (!(frontDiagnostics source (parsed source 0)).isEmpty) = true := by
      simpa using hfront
    rw [runProgram, Session.run_of_front hfront]
    exact (if_pos hfound).symm

end Lox
