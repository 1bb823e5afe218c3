import Lox.Proofs.Grammar.ExpressionReads
import Lox.Proofs.Grammar.Phrases
import Lox.Proofs.Grammar.StatementFollows

/-!
# Parsers of statements read statements

What the parsers of statements and declarations read without reporting anything follows the rules, with the
tree that the parser yields. An `else` behind a statement is read with it, unless it can not belong to it.
-/

set_option autoImplicit false

namespace Lox.Grammar

open Lox.Parser

/-- Tokens begin with a statement that has the tree of `s`, to which no `else` behind it belongs. -/
def StatementOf (tokens : List Token) (s : Stmt) (rest : List Token) : Prop :=
  ∃ dangling, Statement dangling tokens (s.relabel .anonymous) rest ∧
    (dangling = true → rest.head?.any (·.isKeyword .else) = false)

/-- Tokens begin with a declaration that has the tree of `s`. -/
abbrev DeclarationOf (tokens : List Token) (s : Stmt) (rest : List Token) : Prop :=
  Declaration tokens (s.relabel .anonymous) rest

/-- Tokens begin with a function that has the tree of `d`. -/
abbrev FunctionOf (tokens : List Token) (d : FunctionDecl) (rest : List Token) : Prop :=
  NamedFunction tokens (d.relabel .anonymous) rest

/-- A parser that has recovered from an error has reported it. -/
theorem recovering_reads {p : Parser Stmt} (h : Reads p DeclarationOf) :
    Reads (recovering p) fun tokens s? rest => ∃ s, s? = some s ∧ DeclarationOf tokens s rest := by
  intro s hlast
  have hs := h s hlast
  unfold recovering
  cases hp : p s with
  | ok stmt s' =>
    rw [hp] at hs
    exact ⟨hs.1, fun hclean => ⟨stmt, rfl, hs.2 hclean⟩⟩
  | error e s' =>
    rw [hp] at hs
    refine ⟨⟨(skip_suffix s'.rest).trans hs.rest, hs.last, hs.nextId,
      hs.errors.trans (List.prefix_append _ _)⟩, fun hclean => ?_⟩
    have hlength := hs.errors.length_le
    have hlonger := congrArg List.length hclean
    simp only [List.length_append, List.length_singleton] at hlonger
    omega

section Declarations

variable {declaration : Parser (Option Stmt)} (hdeclaration : Reads declaration fun tokens s? rest =>
  ∃ s, s? = some s ∧ DeclarationOf tokens s rest)
include hdeclaration

/-- Declarations are read up to the end or a token that stops them, if the bound allows it. -/
theorem declarationsUntil_reads (stop : Token → Bool) (bound : Nat) :
    Reads (declarationsUntil stop declaration bound) fun tokens ss rest =>
      Declarations tokens (Stmt.relabelAll .anonymous ss) rest ∧
        (tokens.length ≤ bound → rest = [] ∨ rest.head?.any stop = true) := by
  induction bound with
  | zero => exact .pure _ fun rest => ⟨.none, fun h => .inl (List.length_eq_zero_iff.mp (Nat.le_zero.mp h))⟩
  | succ bound ih =>
    refine atEnd_reads.bind fun tokens ended => (sees_reads stop).bind fun others stopped => ?_
    split <;> rename_i hends
    · refine .pure _ fun rest hstopped hended => ?_
      obtain ⟨rfl, rfl⟩ := hstopped
      obtain ⟨rfl, rfl⟩ := hended
      refine ⟨.none, fun _ => ?_⟩
      simpa using hends
    · refine hdeclaration.bind fun tokens₁ first => ih.bind fun tokens₂ others => .pure _
        fun rest hothers hfirst hstopped hended => ?_
      obtain ⟨s, rfl, hs⟩ := hfirst
      obtain ⟨rfl, -⟩ := hstopped
      obtain ⟨rfl, -⟩ := hended
      refine ⟨.more hs hothers.1, fun hbound => hothers.2 ?_⟩
      have hlength := hs.length_lt
      omega

/-- Where nothing is reported, declarations and a closing brace have been read. -/
theorem block_reads (bound : Nat) : Reads (block bound declaration) fun tokens ss rest =>
    ∃ closing, closing.isSymbol .rightBrace = true ∧
      Declarations tokens (Stmt.relabelAll .anonymous ss) (closing :: rest) := by
  refine (declarationsUntil_reads hdeclaration _ bound).bind fun tokens body =>
    (expect_reads _ _).bind fun others closing => .pure _ fun rest hclosing hbody => ?_
  obtain ⟨hclosing, rfl⟩ := hclosing
  exact ⟨closing, hclosing, hbody.1⟩

omit hdeclaration in
/-- Parameters are read, and there are at most eight. -/
theorem parameters_reads (bound count : Nat) : Reads (parameters bound count) fun tokens params rest =>
    Parameters tokens params rest ∧ count + params.length ≤ 8 := by
  induction bound generalizing count with
  | zero => exact .fail _
  | succ bound ih =>
    have hfrom : Reads
        (do
          let parameter ← expect (·.isIdentifier) .noParameterName
          if ← accepts (·.isSymbol .comma) then
            return parameter :: (← parameters bound (count + 1))
          else return [parameter])
        fun tokens params rest => Parameters tokens params rest ∧
          (count + 1 ≤ 8 → count + params.length ≤ 8) := by
      refine (expect_reads _ _).bind fun tokens parameter => (accepts_reads _).bind fun others more => ?_
      cases more with
      | true =>
        refine (ih (count + 1)).bind fun behind params => .pure _ fun rest hparams hcomma hname => ?_
        obtain ⟨comma, hsymbol, rfl⟩ := hcomma.1 rfl
        obtain ⟨hname, rfl⟩ := hname
        refine ⟨.more hname hsymbol hparams.1, fun _ => ?_⟩
        have hlength := hparams.2
        rw [List.length_cons]
        omega
      | false =>
        refine .pure _ fun rest hcomma hname => ?_
        obtain ⟨rfl, -⟩ := hcomma.2 rfl
        obtain ⟨hname, rfl⟩ := hname
        exact ⟨.last hname, fun hcount => hcount⟩
    unfold parameters
    split
    · exact peek_reads.bind fun _ t => (report_reads t _).bind fun _ _ =>
        hfrom.imp fun _ _ _ _ hreported => hreported.elim
    · rename_i hcount
      exact hfrom.imp fun _ _ _ hparams => ⟨hparams.1, hparams.2 (Nat.lt_of_not_le hcount)⟩

/-- Where nothing is reported, a function has been read. -/
theorem function_reads (bound : Nat) (role : FunctionRole) :
    Reads (function bound role declaration) FunctionOf := by
  refine (expect_reads _ _).bind fun tokens name => (expect_reads _ _).bind fun others opening =>
    Reads.optional _ [] (parameters_reads bound 0) fun tokens₁ params => (expect_reads _ _).bind
      fun tokens₂ closing => (expect_reads _ _).bind fun tokens₃ brace =>
        (block_reads hdeclaration bound).bind fun tokens₄ body => .pure _
          fun rest hbody hbrace hclosing hparams hopening hname => ?_
  obtain ⟨last, hlast, hbody⟩ := hbody
  obtain ⟨hbrace, rfl⟩ := hbrace
  obtain ⟨hclosing, rfl⟩ := hclosing
  obtain ⟨hopening, rfl⟩ := hopening
  obtain ⟨hname, rfl⟩ := hname
  have hparams : OptionalParameters tokens₁ params (closing :: brace :: tokens₄) := by
    rcases hparams with ⟨rfl, rfl⟩ | ⟨hparams, hlength⟩
    · exact .none
    · exact .some hparams (by omega)
  have hsame : params.map (·.relabel .anonymous) = params := List.map_id' params
  rw [FunctionOf, FunctionDecl.relabel, hsame]
  exact .mk hname hopening hparams hclosing hbrace hbody hlast

omit hdeclaration in
/-- Where nothing is reported, methods have been read. -/
theorem methods_reads {method : Parser FunctionDecl} (hmethod : Reads method FunctionOf) (bound : Nat) :
    Reads (methods method bound) fun tokens ds rest =>
      Methods tokens (FunctionDecl.relabelAll .anonymous ds) rest := by
  induction bound with
  | zero => exact .pure _ fun _ => .none
  | succ bound ih =>
    refine atEnd_reads.bind fun tokens ended => (sees_reads _).bind fun others stopped => ?_
    split
    · refine .pure _ fun rest hstopped hended => ?_
      obtain ⟨rfl, -⟩ := hstopped
      obtain ⟨rfl, -⟩ := hended
      exact .none
    · refine hmethod.bind fun tokens₁ first => ih.bind fun tokens₂ others => .pure _
        fun rest hothers hfirst hstopped hended => ?_
      obtain ⟨rfl, -⟩ := hstopped
      obtain ⟨rfl, -⟩ := hended
      exact .more hfirst hothers

/-- Where nothing is reported, a class has been read behind its keyword. -/
theorem classDeclaration_reads (bound : Nat) :
    Reads (classDeclaration bound declaration) fun tokens s rest =>
      ∀ keyword, keyword.isKeyword .class = true → DeclarationOf (keyword :: tokens) s rest := by
  refine (expect_reads _ _).bind fun tokens name => (expect_reads _ _).bind fun others opening =>
    (methods_reads (function_reads hdeclaration bound .method) bound).bind fun tokens₁ ms =>
      (expect_reads _ _).bind fun tokens₂ closing => .pure _
        fun rest hclosing hmethods hopening hname keyword hkeyword => ?_
  obtain ⟨hclosing, rfl⟩ := hclosing
  obtain ⟨hopening, rfl⟩ := hopening
  obtain ⟨hname, rfl⟩ := hname
  exact .class hkeyword hname hopening hmethods hclosing

end Declarations

section Simple

variable (bound : Nat)

/-- An expression that may be left out. -/
abbrev OptionalExpressionOf (tokens : List Token) (e? : Option Expr) (rest : List Token) : Prop :=
  OptionalExpression tokens (e?.map (·.relabel .anonymous)) rest

/-- Where nothing is reported, an optional expression has been read that is there. -/
theorem optionalExpression_reads :
    Reads (some <$> expression bound) fun tokens e? rest => OptionalExpressionOf tokens e? rest :=
  (expression_reads bound).map fun _ _ _ he => .some he

/-- What was left out is an optional expression too. -/
theorem optionalExpressionOf_or {tokens rest : List Token} {e? : Option Expr}
    (h : (rest = tokens ∧ e? = none) ∨ OptionalExpressionOf tokens e? rest) :
    OptionalExpressionOf tokens e? rest := by
  rcases h with ⟨rfl, rfl⟩ | h
  · exact .none
  · exact h

/-- Where nothing is reported, the declaration of a variable has been read behind its keyword. -/
theorem variableDeclaration_reads : Reads (variableDeclaration bound) fun tokens s rest =>
    Variable tokens (s.relabel .anonymous) rest := by
  refine (expect_reads _ _).bind fun tokens name => (accepts_reads _).bind fun others hasInitial => ?_
  cases hasInitial with
  | true =>
    refine ((expression_reads bound).map fun _ e _ he => ⟨e, rfl, he⟩ : Reads (some <$> expression bound)
      fun tokens e? rest => ∃ e, e? = some e ∧ PhraseOf .expression tokens e rest).bind fun tokens₁ initial =>
        (expect_reads _ _).bind fun tokens₂ semicolon => .pure _
          fun rest hsemicolon hinitial hequals hname => ?_
    obtain ⟨hsemicolon, rfl⟩ := hsemicolon
    obtain ⟨e, rfl, he⟩ := hinitial
    obtain ⟨equals, hsymbol, rfl⟩ := hequals.1 rfl
    obtain ⟨hname, rfl⟩ := hname
    exact .initialized hname hsymbol he hsemicolon
  | false =>
    refine (expect_reads _ _).bind fun tokens₁ semicolon => .pure _
      fun rest hsemicolon hequals hname => ?_
    obtain ⟨hsemicolon, rfl⟩ := hsemicolon
    obtain ⟨rfl, -⟩ := hequals.2 rfl
    obtain ⟨hname, rfl⟩ := hname
    exact .plain hname hsemicolon

/-- An expression statement is an expression with its semicolon. -/
theorem expressionStatement_reads : Reads (expressionStatement bound) fun tokens s rest =>
    ∃ e semicolon, s = .expression e ∧ semicolon.isSymbol .semicolon = true ∧
      PhraseOf .expression tokens e (semicolon :: rest) := by
  refine (expression_reads bound).bind fun tokens e => (expect_reads _ _).bind fun others semicolon =>
    .pure _ fun rest hsemicolon he => ?_
  obtain ⟨hsemicolon, rfl⟩ := hsemicolon
  exact ⟨e, semicolon, rfl, hsemicolon, he⟩

/-- Where nothing is reported, a print statement has been read behind its keyword. -/
theorem printStatement_reads : Reads (printStatement bound) fun tokens s rest =>
    ∀ keyword, keyword.isKeyword .print = true → StatementOf (keyword :: tokens) s rest := by
  refine (expression_reads bound).bind fun tokens e => (expect_reads _ _).bind fun others semicolon =>
    .pure _ fun rest hsemicolon he keyword hkeyword => ?_
  obtain ⟨hsemicolon, rfl⟩ := hsemicolon
  exact ⟨false, .print hkeyword he hsemicolon, fun h => (by cases h)⟩

/-- Where nothing is reported, a return statement has been read behind its keyword. -/
theorem returnStatement_reads (keyword : Token) : Reads (returnStatement bound keyword)
    fun tokens s rest => keyword.isKeyword .return = true → StatementOf (keyword :: tokens) s rest := by
  refine Reads.optional _ none (optionalExpression_reads bound) fun tokens value =>
    (expect_reads _ _).bind fun others semicolon => .pure _ fun rest hsemicolon hvalue hkeyword => ?_
  obtain ⟨hsemicolon, rfl⟩ := hsemicolon
  exact ⟨false, .return hkeyword (optionalExpressionOf_or hvalue) hsemicolon, fun h => (by cases h)⟩

/-- Where nothing is reported, the first clause of a `for` loop has been read with its semicolon. -/
theorem initialClause_reads : Reads (initialClause bound) fun tokens s? rest =>
    InitialClause tokens (s?.map (·.relabel .anonymous)) rest := by
  refine (accepts_reads _).bind fun tokens isEmpty => ?_
  cases isEmpty with
  | true =>
    refine .pure none fun rest hsemicolon => ?_
    obtain ⟨semicolon, hsymbol, rfl⟩ := hsemicolon.1 rfl
    exact .none hsymbol
  | false =>
    refine (accepts_reads _).bind fun others isVariable => ?_
    cases isVariable with
    | true =>
      refine (variableDeclaration_reads bound).map fun _ s rest hs hkeyword hsemicolon => ?_
      obtain ⟨keyword, hvar, rfl⟩ := hkeyword.1 rfl
      obtain ⟨rfl, -⟩ := hsemicolon.2 rfl
      exact .variable hvar hs
    | false =>
      refine (expressionStatement_reads bound).map fun _ s rest hs hkeyword hsemicolon => ?_
      obtain ⟨rfl, -⟩ := hkeyword.2 rfl
      obtain ⟨rfl, -⟩ := hsemicolon.2 rfl
      obtain ⟨e, semicolon, rfl, hsemicolon, he⟩ := hs
      exact .expression he hsemicolon

end Simple

/-- The statement before an `else` ends in no `if` to which the `else` belongs. -/
theorem StatementOf.closed {tokens others : List Token} {s : Stmt} {t : Token}
    (h : StatementOf tokens s (t :: others)) (helse : t.isKeyword .else = true) :
    Statement false tokens (s.relabel .anonymous) (t :: others) := by
  obtain ⟨dangling, hs, hopen⟩ := h
  cases dangling with
  | false => exact hs
  | true => simp [helse] at hopen

section Branches

variable (bound : Nat) {nested : Parser Stmt} (hnested : Reads nested StatementOf)
include hnested

/-- Where nothing is reported, an `if` statement has been read behind its keyword. -/
theorem ifStatement_reads : Reads (ifStatement bound nested) fun tokens s rest =>
    ∀ keyword, keyword.isKeyword .if = true → StatementOf (keyword :: tokens) s rest := by
  refine (expect_reads _ _).bind fun tokens opening => (expression_reads bound).bind
    fun others condition => (expect_reads _ _).bind fun tokens₁ closing => hnested.bind
      fun tokens₂ thenBranch => (accepts_reads _).bind fun tokens₃ hasElse => ?_
  cases hasElse with
  | true =>
    refine (hnested.map fun _ s _ hs => ⟨s, rfl, hs⟩ : Reads (some <$> nested)
      fun tokens s? rest => ∃ s, s? = some s ∧ StatementOf tokens s rest).bind fun tokens₄ elseBranch =>
        .pure _ fun rest helse haccepted hthen hclosing hcondition hopening keyword hkeyword => ?_
    obtain ⟨elseBranch, rfl, dangling, helse, hdangling⟩ := helse
    obtain ⟨t, ht, rfl⟩ := haccepted.1 rfl
    obtain ⟨hclosing, rfl⟩ := hclosing
    obtain ⟨hopening, rfl⟩ := hopening
    exact ⟨dangling, .ifElse hkeyword hopening hcondition hclosing (hthen.closed ht) ht helse, hdangling⟩
  | false =>
    refine .pure _ fun rest haccepted hthen hclosing hcondition hopening keyword hkeyword => ?_
    obtain ⟨rfl, hnone⟩ := haccepted.2 rfl
    obtain ⟨dangling, hthen, -⟩ := hthen
    obtain ⟨hclosing, rfl⟩ := hclosing
    obtain ⟨hopening, rfl⟩ := hopening
    exact ⟨true, .if hkeyword hopening hcondition hclosing hthen, fun _ => hnone⟩

/-- Where nothing is reported, a `while` statement has been read behind its keyword. -/
theorem whileStatement_reads : Reads (whileStatement bound nested) fun tokens s rest =>
    ∀ keyword, keyword.isKeyword .while = true → StatementOf (keyword :: tokens) s rest := by
  refine (expect_reads _ _).bind fun tokens opening => (expression_reads bound).bind
    fun others condition => (expect_reads _ _).bind fun tokens₁ closing => hnested.bind
      fun tokens₂ body => .pure _ fun rest hbody hclosing hcondition hopening keyword hkeyword => ?_
  obtain ⟨dangling, hbody, hdangling⟩ := hbody
  obtain ⟨hclosing, rfl⟩ := hclosing
  obtain ⟨hopening, rfl⟩ := hopening
  exact ⟨dangling, .while hkeyword hopening hcondition hclosing hbody, hdangling⟩

/-- Where nothing is reported, a `for` statement has been read behind its keyword. -/
theorem forStatement_reads : Reads (forStatement bound nested) fun tokens s rest =>
    ∀ keyword, keyword.isKeyword .for = true → StatementOf (keyword :: tokens) s rest := by
  have hpresent : Reads (expression bound) fun tokens e rest =>
      ∃ e?, e = e?.getD (.literal .true) ∧ OptionalExpressionOf tokens e? rest :=
    (expression_reads bound).imp fun _ e _ he => ⟨some e, rfl, .some he⟩
  refine (expect_reads _ _).bind fun tokens opening => (initialClause_reads bound).bind
    fun others initial => Reads.optional _ _ hpresent fun tokens₁ condition => (expect_reads _ _).bind
      fun tokens₂ semicolon => Reads.optional _ none (optionalExpression_reads bound)
        fun tokens₃ increment => (expect_reads _ _).bind fun tokens₄ closing => hnested.bind
          fun tokens₅ body => .pure _ fun rest hbody hclosing hincrement hsemicolon hcondition hinitial
            hopening keyword hkeyword => ?_
  obtain ⟨dangling, hbody, hdangling⟩ := hbody
  obtain ⟨hclosing, rfl⟩ := hclosing
  obtain ⟨hsemicolon, rfl⟩ := hsemicolon
  obtain ⟨hopening, rfl⟩ := hopening
  obtain ⟨condition?, hsame, hcondition⟩ : ∃ e?, condition = e?.getD (.literal .true) ∧
      OptionalExpressionOf tokens₁ e? (semicolon :: tokens₃) := by
    rcases hcondition with ⟨rfl, rfl⟩ | h
    · exact ⟨none, rfl, .none⟩
    · exact h
  have hloop := Statement.for hkeyword hopening hinitial hcondition hsemicolon
    (optionalExpressionOf_or hincrement) hclosing hbody
  refine ⟨dangling, ?_, hdangling⟩
  rw [forLoop_relabel, hsame]
  cases condition? <;> exact hloop

end Branches

section Levels

variable {bound : Nat} {nested : Parser Stmt} {declaration : Parser (Option Stmt)}
  (hnested : Reads nested StatementOf)
  (hdeclaration : Reads declaration fun tokens s? rest => ∃ s, s? = some s ∧ DeclarationOf tokens s rest)
include hnested hdeclaration

/-- Where nothing is reported, a statement has been read, if this holds of those nested in it. -/
theorem statementWith_reads : Reads (statementWith bound nested declaration) StatementOf := by
  refine peek_reads.bind fun tokens t => ?_
  split <;> rename_i hkind
  · refine advance_reads.bind fun others _ => (forStatement_reads bound hnested).imp
      fun _ s rest hs hadvance hnext => ?_
    obtain rfl := hnext.eq_cons (by simp [hkind]) hadvance
    exact hs t (Token.isKeyword_iff.mpr hkind)
  · refine advance_reads.bind fun others _ => (ifStatement_reads bound hnested).imp
      fun _ s rest hs hadvance hnext => ?_
    obtain rfl := hnext.eq_cons (by simp [hkind]) hadvance
    exact hs t (Token.isKeyword_iff.mpr hkind)
  · refine advance_reads.bind fun others _ => (whileStatement_reads bound hnested).imp
      fun _ s rest hs hadvance hnext => ?_
    obtain rfl := hnext.eq_cons (by simp [hkind]) hadvance
    exact hs t (Token.isKeyword_iff.mpr hkind)
  · refine advance_reads.bind fun others _ => (returnStatement_reads bound t).imp
      fun _ s rest hs hadvance hnext => ?_
    obtain rfl := hnext.eq_cons (by simp [hkind]) hadvance
    exact hs (Token.isKeyword_iff.mpr hkind)
  · refine advance_reads.bind fun others _ => (block_reads hdeclaration bound).map
      fun _ ss rest hbody hadvance hnext => ?_
    obtain rfl := hnext.eq_cons (by simp [hkind]) hadvance
    obtain ⟨closing, hclosing, hbody⟩ := hbody
    exact ⟨false, .block (Token.isSymbol_iff.mpr hkind) hbody hclosing, fun h => (by cases h)⟩
  · refine advance_reads.bind fun others _ => (printStatement_reads bound).imp
      fun _ s rest hs hadvance hnext => ?_
    obtain rfl := hnext.eq_cons (by simp [hkind]) hadvance
    exact hs t (Token.isKeyword_iff.mpr hkind)
  · refine (expressionStatement_reads bound).imp fun others s rest hs hnext => ?_
    obtain ⟨e, semicolon, rfl, hsemicolon, he⟩ := hs
    exact ⟨false, .expression (hnext.rest_eq ▸ he) hsemicolon, fun h => (by cases h)⟩

omit hnested in
/-- Where nothing is reported, a declaration has been read, if this holds of those nested in it. -/
theorem declarationWith_reads {other : Parser Stmt} (hother : Reads other StatementOf) :
    Reads (declarationWith bound other declaration) DeclarationOf := by
  refine peek_reads.bind fun tokens t => ?_
  split <;> rename_i hkind
  · refine advance_reads.bind fun others _ => (classDeclaration_reads hdeclaration bound).imp
      fun _ s rest hs hadvance hnext => ?_
    obtain rfl := hnext.eq_cons (by simp [hkind]) hadvance
    exact hs t (Token.isKeyword_iff.mpr hkind)
  · refine advance_reads.bind fun others _ => (function_reads hdeclaration bound .function).map
      fun _ d rest hd hadvance hnext => ?_
    obtain rfl := hnext.eq_cons (by simp [hkind]) hadvance
    exact .function (Token.isKeyword_iff.mpr hkind) hd
  · refine advance_reads.bind fun others _ => (variableDeclaration_reads bound).imp
      fun _ s rest hs hadvance hnext => ?_
    obtain rfl := hnext.eq_cons (by simp [hkind]) hadvance
    exact .variable (Token.isKeyword_iff.mpr hkind) hs
  · refine hother.imp fun others s rest hs hnext => ?_
    obtain ⟨dangling, hs, -⟩ := hs
    exact .statement (hnext.rest_eq ▸ hs)

end Levels

/-- Parsers of statements and declarations read statements and declarations. -/
theorem statement_and_declaration_read (bound : Nat) :
    Reads (statement bound) StatementOf ∧
      Reads (declaration bound) fun tokens s? rest => ∃ s, s? = some s ∧ DeclarationOf tokens s rest := by
  induction bound with
  | zero => exact ⟨.fail _, recovering_reads (.fail _)⟩
  | succ bound ih =>
    have hstatement : Reads (statement (bound + 1)) StatementOf := statementWith_reads ih.1 ih.2
    exact ⟨hstatement, recovering_reads (declarationWith_reads ih.2 hstatement)⟩

/-- Tokens that are parsed without errors are a program. -/
theorem program_reads (bound : Nat) : Reads (program bound) fun tokens ss _ =>
    tokens.length ≤ bound → Program tokens (Stmt.relabelAll .anonymous ss) := by
  refine (declarationsUntil_reads (statement_and_declaration_read bound).2 _ bound).imp
    fun _ _ _ hss hbound => ?_
  have hend := (hss.2 hbound).resolve_right (by simp)
  rw [hend] at hss
  exact hss.1

end Lox.Grammar
