import Mathlib
import Lox.Proofs.Grammar.Language

/-!
# Syntax errors are reported independently

Tokens that end where parsing is back at the top level may be followed by any others, but for an `else`:
what is wrong with the first says nothing about the second. The top level is reached at the end of tokens
that are accepted. After an error it is reached there too, if the tokens end with a semicolon and no error
is found at their end: from whatever depth of nested rules an error unwinds, tokens are skipped to a
boundary inside, or just behind that semicolon.
-/

set_option autoImplicit false

namespace Lox.Grammar

open Lox.Parser

/-- The token behind tokens ends their input. -/
theorem start_last_append {tokens : List Token} {last : Token} (firstId : Occurrence)
    (htokens : ∀ t ∈ tokens, t.isEof = false) (hlast : last.isEof = true) :
    (start (tokens ++ [last]) firstId).last = last := by
  have hnone : tokens.find? (·.isEof) = none := List.find?_eq_none.mpr fun t ht => by simp [htokens t ht]
  show ((tokens ++ [last]).find? (·.isEof)).getD (.eofAt 1) = last
  rw [List.find?_append, hnone]
  simp [hlast]

/-- Tokens are parsed in a row as each for itself: the errors of both are found, one after the other, and
if there are none, the statements stand in a row. It is assumed that the second do not begin with `else`,
and that the first are accepted, or end with a semicolon and have no error at their end. -/
theorem parse_in_row {p q : List Token} {last : Token} {i : Occurrence}
    (hp : ∀ t ∈ p, t.isEof = false) (hq : ∀ t ∈ q, t.isEof = false) (hlast : last.isEof = true)
    (hends : (∃ statements, (parse (p ++ [last]) i).result = .ok statements) ∨
      p.getLast?.any (·.isSymbol .semicolon) = true ∧
        ∀ e ∈ (parse (p ++ [last]) i).errors, e.token.isEof = false)
    (helse : q.head?.any (·.isKeyword .else) = false) :
    let first := parse (p ++ [last]) i
    let second := parse (q ++ [last]) first.nextId
    let both := parse (p ++ q ++ [last]) i
    both.errors = first.errors ++ second.errors ∧
      (∀ j, (parse (q ++ [last]) j).errors = second.errors) ∧
      (first.errors = [] → second.errors = [] →
        both.result = .ok (first.statements ++ second.statements)) ∧
      both.nextId = second.nextId := by
  intro first second both
  have hboth : ∀ t ∈ p ++ q, t.isEof = false := List.forall_mem_append.mpr ⟨hp, hq⟩
  have hinside : ∀ e ∈ first.errors, e.token.isEof = false := by
    rcases hends with ⟨statements, hok⟩ | ⟨-, hinside⟩
    · have hclean : first.errors = [] := (Parsed.result_eq_ok_iff.mp hok).1
      simp [hclean]
    · exact hinside
  have hclosed (hne : first.errors ≠ []) : Closed (start (p ++ [last]) i).rest := by
    rw [start_append i hp hlast]
    rcases hends with ⟨statements, hok⟩ | ⟨hsemicolon, -⟩
    · exact absurd (Parsed.result_eq_ok_iff.mp hok).1 hne
    · exact fun t ht => by rwa [Option.mem_def.mp ht] at hsemicolon
  obtain ⟨herrors, hstatements, hids⟩ := @parse_row .id (p ++ [last]) (q ++ [last])
    (p ++ q ++ [last]) i first.nextId i
    (by rw [start_append i hboth hlast, start_append i hp hlast, start_append first.nextId hq hlast])
    (by rw [start_last_append i hboth hlast, start_last_append i hp hlast])
    (by rw [start_last_append i hp hlast, start_last_append first.nextId hq hlast])
    (fun _ => rfl) (fun _ => rfl) (by rwa [start_append first.nextId hq hlast]) hinside hclosed
  have hsame : (fun e : SyntaxError => e.relabel .id) = id := rfl
  rw [hsame, List.map_id, List.map_id] at herrors
  rw [Stmt.relabelAll_id, Stmt.relabelAll_id] at hstatements
  refine ⟨herrors, fun j => (parse_renumber (q ++ [last]) first.nextId j).1, fun h₁ h₂ => ?_, hids 0⟩
  exact Parsed.result_eq_ok_iff.mpr ⟨by rw [herrors, h₁, h₂, List.append_nil], hstatements⟩

/-- The tokens of `fun f(+);`. -/
def unwoundTokens : List Token :=
  [⟨.keyword .fun, "fun", 1⟩, ⟨.identifier, "f", 1⟩, ⟨.symbol .leftParen, "(", 1⟩,
    ⟨.symbol .plus, "+", 1⟩, ⟨.symbol .rightParen, ")", 1⟩, ⟨.symbol .semicolon, ";", 1⟩]

/-- The tokens of `) print nil;`. -/
def strayTokens : List Token :=
  [⟨.symbol .rightParen, ")", 2⟩, ⟨.keyword .print, "print", 2⟩, ⟨.keyword .nil, "nil", 2⟩,
    ⟨.symbol .semicolon, ";", 2⟩]

/-- An error among the parameters of a function does not hide one at the beginning of the next line. -/
theorem parse_in_row_unwound :
    unwoundTokens.getLast?.any (·.isSymbol .semicolon) = true ∧
      (∀ e ∈ (parse (unwoundTokens ++ [.eofAt 2]) 0).errors, e.token.isEof = false) ∧
      strayTokens.head?.any (·.isKeyword .else) = false ∧
      (parse (unwoundTokens ++ strayTokens ++ [.eofAt 2]) 0).errors =
        [⟨⟨.symbol .plus, "+", 1⟩, .noParameterName⟩, ⟨⟨.symbol .rightParen, ")", 2⟩, .noExpression⟩] := by
  have hfirst : (parse (unwoundTokens ++ [.eofAt 2]) 0).errors =
      [⟨⟨.symbol .plus, "+", 1⟩, .noParameterName⟩] := by cbv
  have hsecond : (parse (strayTokens ++ [.eofAt 2]) 0).errors =
      [⟨⟨.symbol .rightParen, ")", 2⟩, .noExpression⟩] := by cbv
  have hinside : ∀ e ∈ (parse (unwoundTokens ++ [.eofAt 2]) 0).errors, e.token.isEof = false := by
    rw [hfirst]
    decide
  obtain ⟨herrors, hany, -⟩ := parse_in_row (p := unwoundTokens) (q := strayTokens) (i := 0)
    (by decide) (by decide) (rfl : (Token.eofAt 2).isEof = true) (.inr ⟨by decide, hinside⟩) (by decide)
  rw [← hany 0, hfirst, hsecond] at herrors
  exact ⟨by decide, hinside, by decide, herrors⟩

end Lox.Grammar
