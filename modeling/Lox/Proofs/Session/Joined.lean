import Lox.Proofs.Session.Renumbering
import Lox.Proofs.Token.Lines

/-!
# Sources in a row

Sources that are accepted one by one are accepted when they are joined by new lines, and the statements of
the joined source are those of its parts in a row, but for numbers and lines.
-/

set_option autoImplicit false

namespace Lox

/-- Statements in a row are resolved one list after the other. -/
theorem Stmt.resolveAll_append (around : Surroundings) (ss ts : List Stmt) (r : Resolution) :
    Stmt.resolveAll around (ss ++ ts) r =
      Stmt.resolveAll around ts (Stmt.resolveAll around ss r) := by
  induction ss generalizing r with
  | nil => rfl
  | cons s rest ih => rw [List.cons_append, Stmt.resolveAll, ih, Stmt.resolveAll]

/-- Statements that stand behind a program without errors have the errors that they have alone. -/
theorem resolve_append_errors {program : List Stmt} (hwf : Stmt.AllWellFormed program)
    (h : (resolve program).errors = []) (more : List Stmt) :
    (resolve (program ++ more)).errors = (resolve more).errors := by
  -- behind the program no scope is open, as at its beginning
  have hmatches : Resolution.Matches .id .empty (resolve program) := by
    refine ⟨?_, h⟩
    rw [(resolve_yields program hwf h).eq]
    rfl
  have hmore := (Stmt.resolveAll_relabel .topLevel more hmatches).errors
  rw [Stmt.relabelAll_id] at hmore
  rw [resolve, Stmt.resolveAll_append]
  exact hmore.trans (List.map_id _)

section Join

variable {s t : String} (hs : Accepted s 0) (ht : Accepted t 0)
include hs ht

open Scan in
/-- What scanning makes of two sources that are joined. -/
theorem scan_join : errors (s ++ "\n" ++ t) = [] ∧
    ∃ lines, tokensBefore (s ++ "\n" ++ t) = tokensBefore s ++ (tokensBefore t).map (·.later lines) := by
  have hfree : errors s = [] := (frontDiagnostics_eq_nil_iff.mp hs.front).1
  have hclosed : ∀ p ∈ pieces s.toList, p.shape ≠ .unterminated := by
    rw [← unterminatedString_iff 1, ← errors_eq, hfree]
    exact nofun
  have hitems := itemsBefore_pieces_append hclosed 1 t.toList
  have hlist : (s ++ "\n" ++ t).toList = s.toList ++ '\n' :: t.toList := by simp
  constructor
  · rw [errors_eq, hlist, hitems, errorsOf_append, errorsOf_later_eq_nil, ← errors_eq, List.append_nil]
    · exact hfree
    · exact errors_eq t ▸ (frontDiagnostics_eq_nil_iff.mp ht.front).1
  · rw [tokensBefore, hlist, hitems, tokensOf_append, tokensOf_later]
    exact ⟨_, rfl⟩

/-- What parsing makes of two sources that are joined. -/
theorem parse_join : (parsed (s ++ "\n" ++ t) 0).errors = [] ∧
    Stmt.relabelAll .bare (parsed (s ++ "\n" ++ t) 0).statements =
      Stmt.relabelAll .bare ((parsed s 0).statements ++ (parsed t 0).statements) := by
  obtain ⟨-, lines, htokens⟩ := scan_join hs ht
  refine Grammar.parse_append (fun _ _ => rfl) 0 ?_ ?_ ?_ (frontDiagnostics_eq_nil_iff.mp hs.front).2
    (frontDiagnostics_eq_nil_iff.mp ht.front).2
  · rw [Grammar.start_tokens, Grammar.start_tokens, Grammar.start_tokens, htokens, List.map_append,
      List.map_append, List.map_map]
    rfl
  · rw [Grammar.start_tokens, Grammar.start_tokens]
    rfl
  · rw [Grammar.start_tokens, Grammar.start_tokens]
    rfl

/-- Joined sources are accepted if both are. -/
theorem Accepted.join : Accepted (s ++ "\n" ++ t) 0 where
  front := frontDiagnostics_eq_nil_iff.mpr ⟨(scan_join hs ht).1, (parse_join hs ht).1⟩
  resolved := by
    have hbare (program : List Stmt) :
        (resolve (Stmt.relabelAll .bare program)).errors = [] ↔ (resolve program).errors = [] := by
      rw [resolve_relabel_errors, List.map_eq_nil_iff]
    rw [← hbare, (parse_join hs ht).2, hbare,
      resolve_append_errors (parsed_numbered hs.front).wellFormed hs.resolved]
    exact ht.resolved

end Join

end Lox
