import Lox.Proofs.Grammar.Programs
import Lox.Proofs.Resolution.Relabel
import Lox.Proofs.Session.Accepted

/-!
# Sources with other numbers

Whether a source is accepted, and with which diagnostics it is rejected, does not depend on the number
from which its occurrences are counted.
-/

set_option autoImplicit false

namespace Lox

section Renumbering

variable (source : String) (i j : Occurrence)

/-- Whatever the first number is, scanning and parsing find the same errors. -/
theorem frontDiagnostics_renumber :
    frontDiagnostics source (parsed source j) = frontDiagnostics source (parsed source i) := by
  unfold frontDiagnostics
  rw [(Grammar.parse_renumber (Scan.tokens source) i j).1]

/-- Whatever the first number is, resolution finds the same errors. -/
theorem resolve_errors_renumber :
    (resolve (parsed source j).statements).errors = (resolve (parsed source i).statements).errors := by
  have hsame (program : List Stmt) :
      (resolve (Stmt.relabelAll .anonymous program)).errors = (resolve program).errors :=
    (resolve_relabel_errors .anonymous program).trans (List.map_id _)
  rw [← hsame, (Grammar.parse_renumber (Scan.tokens source) i j).2, hsame]

/-- Whether a source is rejected, and how, does not depend on the first number. -/
theorem rejection_renumber : rejection source j = rejection source i := by
  unfold rejection
  rw [frontDiagnostics_renumber source i j, resolve_errors_renumber source i j]

variable {source i j}

/-- Whether a source is accepted does not depend on the first number. -/
theorem Accepted.renumber (h : Accepted source i) : Accepted source j where
  front := (frontDiagnostics_renumber source i j).trans h.front
  resolved := (resolve_errors_renumber source i j).trans h.resolved

end Renumbering

end Lox
