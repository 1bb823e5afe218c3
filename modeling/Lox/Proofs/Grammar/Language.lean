import Lox.Proofs.Grammar.Programs
import Lox.Proofs.Grammar.StatementAccepts
import Lox.Proofs.Grammar.StatementReads

/-!
# The language of the parser

The parser yields statements exactly for the tokens that are a program by the rules of the grammar, and
what it yields is the tree that the rules give, apart from the numbers of occurrences. For all other tokens
it yields errors, and at least one.
-/

set_option autoImplicit false

namespace Lox.Grammar

open Lox.Parser

/-- A parse yields statements exactly if it has found no errors. -/
theorem Parsed.result_eq_ok_iff {p : Parsed} {statements : List Stmt} :
    p.result = .ok statements ↔ p.errors = [] ∧ p.statements = statements := by
  rw [Parsed.result]
  cases p.errors <;> simp

/-- A parse without errors has read a program. -/
theorem program_of_parse {tokens : List Token} {firstId : Occurrence}
    (h : (parse tokens firstId).errors = []) :
    Program (start tokens firstId).rest
      (Stmt.relabelAll .anonymous (parse tokens firstId).statements) := by
  obtain ⟨t, hrun, hclean, -⟩ := program_of_clean h
  have hreads := program_reads (start tokens firstId).rest.length (start tokens firstId)
    (start_ends tokens firstId)
  rw [hrun] at hreads
  exact hreads.2 hclean (Nat.le_refl _)

/-- The parse of a program has no errors and yields its tree. -/
theorem parse_of_program {tokens : List Token} {firstId : Occurrence} {tree : List Stmt}
    (h : Program (start tokens firstId).rest tree) :
    (parse tokens firstId).errors = [] ∧
      Stmt.relabelAll .anonymous (parse tokens firstId).statements = tree := by
  obtain ⟨statements, t, hrun, htree, -, herrors⟩ := program_accepts h (start tokens firstId) rfl
  rw [parse_eq_start, hrun]
  exact ⟨herrors, htree⟩

/-- Only the tokens before the one that ends the input are parsed. -/
theorem start_append {tokens : List Token} {last : Token} (firstId : Occurrence)
    (htokens : ∀ t ∈ tokens, t.isEof = false) (hlast : last.isEof = true) :
    (start (tokens ++ [last]) firstId).rest = tokens := by
  have hall : ∀ t ∈ tokens, (!t.isEof) = true := fun t ht => by rw [htokens t ht]; rfl
  show (tokens ++ [last]).takeWhile (!·.isEof) = tokens
  rw [List.takeWhile_append_of_pos hall, List.takeWhile_cons_of_neg (by rw [hlast]; decide),
    List.append_nil]

/-- Tokens with a token that ends the input behind them are parsed if, and only if, they are a program;
the parser yields the tree of the program, apart from the numbers of occurrences. What is no program is
rejected with errors. -/
theorem parse_ok_iff_program {tokens : List Token} {last : Token} (firstId : Occurrence)
    (htokens : ∀ t ∈ tokens, t.isEof = false) (hlast : last.isEof = true) :
    (∀ tree, (∃ statements, (parse (tokens ++ [last]) firstId).result = .ok statements ∧
      Stmt.relabelAll .anonymous statements = tree) ↔ Program tokens tree) ∧
    ((¬ ∃ tree, Program tokens tree) →
      ∃ errors, (parse (tokens ++ [last]) firstId).result = .error errors ∧ errors ≠ []) := by
  have hstart := start_append firstId htokens hlast
  have hsound : (parse (tokens ++ [last]) firstId).errors = [] →
      Program tokens (Stmt.relabelAll .anonymous (parse (tokens ++ [last]) firstId).statements) :=
    fun hclean => by
      have hread := program_of_parse hclean
      rwa [hstart] at hread
  cases herrors : (parse (tokens ++ [last]) firstId).errors with
  | nil =>
    have hresult : (parse (tokens ++ [last]) firstId).result =
        .ok (parse (tokens ++ [last]) firstId).statements := by
      rw [Parsed.result, herrors]
      rfl
    refine ⟨fun tree => ⟨?_, fun htree => ⟨_, hresult, (parse_of_program (hstart.symm ▸ htree)).2⟩⟩,
      fun hnone => absurd ⟨_, hsound herrors⟩ hnone⟩
    rintro ⟨statements, hok, rfl⟩
    rw [hresult] at hok
    cases hok
    exact hsound herrors
  | cons e es =>
    have hresult : (parse (tokens ++ [last]) firstId).result = .error (e :: es) := by
      rw [Parsed.result, herrors]
      rfl
    refine ⟨fun tree => ⟨?_, fun htree => ?_⟩, fun _ => ⟨_, hresult, List.cons_ne_nil e es⟩⟩
    · rintro ⟨statements, hok, -⟩
      rw [hresult] at hok
      cases hok
    · have hclean := (parse_of_program (hstart.symm ▸ htree)).1
      rw [herrors] at hclean
      cases hclean

/-- A name is an expression. -/
theorem name_phrase {name : Token} (h : name.isIdentifier = true) (rest : List Token) :
    Phrase .expression (name :: rest) (.variable 0 name) rest := .of_primary (.name h)

/-- The tokens of `if (a) if (b) c = d; else e.f = g;`. -/
def nestedConditional : List Token :=
  [⟨.keyword .if, "if", 1⟩, ⟨.symbol .leftParen, "(", 1⟩, ⟨.identifier, "a", 1⟩,
    ⟨.symbol .rightParen, ")", 1⟩, ⟨.keyword .if, "if", 1⟩, ⟨.symbol .leftParen, "(", 1⟩,
    ⟨.identifier, "b", 1⟩, ⟨.symbol .rightParen, ")", 1⟩, ⟨.identifier, "c", 1⟩,
    ⟨.symbol .equal, "=", 1⟩, ⟨.identifier, "d", 1⟩, ⟨.symbol .semicolon, ";", 1⟩,
    ⟨.keyword .else, "else", 1⟩, ⟨.identifier, "e", 1⟩, ⟨.symbol .dot, ".", 1⟩, ⟨.identifier, "f", 1⟩,
    ⟨.symbol .equal, "=", 1⟩, ⟨.identifier, "g", 1⟩, ⟨.symbol .semicolon, ";", 1⟩]

/-- An `else` behind two conditionals is parsed as part of the second, and one behind none is rejected. -/
theorem parse_nestedConditional :
    (∀ t ∈ nestedConditional, t.isEof = false) ∧ (Token.eofAt 1).isEof = true ∧
    (∃ statements, (parse (nestedConditional ++ [.eofAt 1]) 7).result = .ok statements ∧
      Stmt.relabelAll .anonymous statements =
        [.conditional (.variable 0 ⟨.identifier, "a", 1⟩)
          (.conditional (.variable 0 ⟨.identifier, "b", 1⟩)
            (.expression (.assign 0 ⟨.identifier, "c", 1⟩ (.variable 0 ⟨.identifier, "d", 1⟩)))
            (some (.expression (.set (.variable 0 ⟨.identifier, "e", 1⟩) ⟨.identifier, "f", 1⟩
              (.variable 0 ⟨.identifier, "g", 1⟩))))) none]) ∧
    (¬ ∃ tree, Program [⟨.keyword .else, "else", 1⟩] tree) ∧
    ∃ errors, (parse ([⟨.keyword .else, "else", 1⟩] ++ [.eofAt 1]) 7).result = .error errors ∧
      errors ≠ [] := by
  have htokens : ∀ t ∈ nestedConditional, t.isEof = false := by decide
  have hbranches : Program nestedConditional _ :=
    .more (.statement (.if rfl rfl (name_phrase rfl _) rfl (.ifElse rfl rfl (name_phrase rfl _) rfl
      (.expression (.assign rfl rfl (name_phrase rfl _)) rfl) rfl
      (.expression (.set (.primary (.name rfl)) rfl rfl rfl (name_phrase rfl _)) rfl)))) .none
  have helse : ¬ ∃ tree, Program [⟨.keyword .else, "else", 1⟩] tree := by
    rintro ⟨_, _ | ⟨h, -⟩⟩
    obtain ⟨t, others, hfirst, ht⟩ := h.first
    cases hfirst
    exact absurd ht (by decide)
  exact ⟨htokens, rfl, ((parse_ok_iff_program 7 htokens rfl).1 _).mpr hbranches, helse,
    (parse_ok_iff_program 7 (by decide) rfl).2 helse⟩

end Lox.Grammar
