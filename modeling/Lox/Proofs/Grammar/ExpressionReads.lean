import Lox.Proofs.Grammar.ExpressionFollows
import Lox.Proofs.Grammar.Reads
import Lox.Proofs.Grammar.Rules

/-!
# Parsers of expressions read expressions

What the parsers of expressions read without reporting anything are phrases of their rules, with the tree
that the parser yields.
-/

set_option autoImplicit false

namespace Lox.Grammar

open Lox.Parser

/-- Tokens begin with a phrase of the rule, with the tree of `e`. -/
abbrev PhraseOf (r : Rule) (tokens : List Token) (e : Expr) (rest : List Token) : Prop :=
  Phrase r tokens (e.relabel .anonymous) rest

/-- Relabeling an expression of a level relabels its parts. -/
theorem Level.build_relabel (l : Level) (R : Relabeling) (left : Expr) (operator : Token)
    (right : Expr) :
    (l.build left operator right).relabel R =
      l.build (left.relabel R) (operator.relabel R) (right.relabel R) := by
  cases l <;> rfl

section Chains

variable {operand : Parser Expr} (l : Level) (hoperand : Reads operand (PhraseOf l.operand))
include hoperand

/-- Operators are read behind what is already a phrase of their level. -/
theorem chainFrom_reads (bound : Nat) (left : Expr) :
    Reads (chainFrom l.isOperator l.build operand bound left) fun tokens e rest =>
      ∀ start, PhraseOf (.level l) start left tokens → PhraseOf (.level l) start e rest := by
  induction bound generalizing left with
  | zero => exact .pure left fun _ _ h => h
  | succ bound ih =>
    refine (accept?_reads l.isOperator).bind fun tokens operator? => ?_
    cases operator? with
    | none =>
      refine .pure left fun rest hnone start hleft => ?_
      obtain ⟨rfl, -⟩ := hnone.2 rfl
      exact hleft
    | some operator =>
      refine hoperand.bind fun behind right =>
        (ih (l.build left operator right)).imp fun others e rest he hright hread start hleft => ?_
      obtain ⟨hoperator, rfl⟩ := hread.1 operator rfl
      refine he start ?_
      rw [PhraseOf, Level.build_relabel]
      exact .operation hleft hoperator hright

/-- A level of infix operators reads its phrases if its operands do. -/
theorem chain_reads (bound : Nat) :
    Reads (chain bound l.isOperator l.build operand) (PhraseOf (.level l)) :=
  hoperand.bind fun tokens left =>
    (chainFrom_reads l hoperand bound left).imp fun _ _ _ he hleft => he tokens (.operand hleft)

end Chains

section Assignments

variable {tokens others rest : List Token} {value e result : Expr} {equals : Token}

/-- What values can be assigned to is no operation. -/
theorem Phrase.of_level {l : Level} (h : Phrase (.level l) tokens e rest)
    (htarget : assignmentTo? value e = some result) : Phrase l.operand tokens e rest := by
  cases h with
  | operand h => exact h
  | operation hleft hoperator hright => cases l <;> cases htarget

/-- Behind a name or a property, an equals sign and a value make an assignment. -/
theorem Phrase.assignment (h : Phrase (.level .disjunction) tokens e (equals :: others))
    (hequals : equals.isSymbol .equal = true) (hvalue : Phrase .expression others value rest)
    (htarget : assignmentTo? value e = some result) : Phrase .expression tokens result rest := by
  have hfactor := ((((h.of_level htarget).of_level htarget).of_level htarget).of_level htarget).of_level
    htarget
  cases hfactor.of_level htarget with
  | unary => cases htarget
  | called hcall =>
    cases hcall with
    | callEmpty => cases htarget
    | call => cases htarget
    | property hobject hdot hname =>
      cases htarget
      exact .set hobject hdot hname hequals hvalue
    | primary hprimary =>
      cases hprimary with
      | constant => cases htarget
      | this => cases htarget
      | grouping => cases htarget
      | name hname =>
        cases htarget
        exact .assign hname hequals hvalue

end Assignments

section Nested

variable {nested : Parser Expr} (hnested : Reads nested (PhraseOf .expression))
include hnested

/-- Arguments are read, and there are at most eight. -/
theorem arguments_reads (bound count : Nat) : Reads (arguments nested bound count) fun tokens es rest =>
    Arguments tokens (Expr.relabelAll .anonymous es) rest ∧ count + es.length ≤ 8 := by
  induction bound generalizing count with
  | zero => exact .fail _
  | succ bound ih =>
    have hfrom : Reads
        (do
          let argument ← nested
          if ← accepts (·.isSymbol .comma) then
            return argument :: (← arguments nested bound (count + 1))
          else return [argument])
        fun tokens es rest => Arguments tokens (Expr.relabelAll .anonymous es) rest ∧
          (count + 1 ≤ 8 → count + es.length ≤ 8) := by
      refine hnested.bind fun tokens argument => (accepts_reads _).bind fun others more => ?_
      cases more with
      | true =>
        refine (ih (count + 1)).bind fun behind es => .pure _ fun rest hes hcomma hargument => ?_
        obtain ⟨comma, hsymbol, rfl⟩ := hcomma.1 rfl
        refine ⟨.more hargument hsymbol hes.1, fun _ => ?_⟩
        rw [List.length_cons]
        omega
      | false =>
        refine .pure _ fun rest hcomma hargument => ?_
        obtain ⟨rfl, -⟩ := hcomma.2 rfl
        exact ⟨.last hargument, fun hcount => hcount⟩
    unfold arguments
    split
    · exact peek_reads.bind fun _ t => (report_reads t _).bind fun _ _ =>
        hfrom.imp fun _ _ _ _ hreported => hreported.elim
    · rename_i hcount
      exact hfrom.imp fun _ _ _ hes => ⟨hes.1, hes.2 (Nat.lt_of_not_le hcount)⟩

/-- Where nothing is reported, a primary expression has been read. -/
theorem primary_reads : Reads (primary nested) (PhraseOf .primary) := by
  refine peek_reads.bind fun tokens t => ?_
  have hconstant {value : Literal} (hvalue : constant? t = some value) (hkind : t.kind ≠ .eof) :
      Reads (do advance; return .literal value) fun others e rest =>
        Peeks tokens t others → PhraseOf .primary tokens e rest := by
    refine advance_reads.bind fun others _ => .pure _ fun rest hrest hnext => ?_
    obtain rfl := hnext.eq_cons hkind hrest
    exact .constant hvalue
  split <;> rename_i hkind
  · exact hconstant (by rw [constant?, hkind]) (by simp [hkind])
  · exact hconstant (by rw [constant?, hkind]) (by simp [hkind])
  · exact hconstant (by rw [constant?, hkind]) (by simp [hkind])
  · exact hconstant (by rw [constant?, hkind]) (by simp [hkind])
  · exact hconstant (by rw [constant?, hkind]) (by simp [hkind])
  · refine advance_reads.bind fun others _ => fresh_reads.bind fun behind id =>
      .pure _ fun rest hrest hbehind hnext => ?_
    obtain rfl := hnext.eq_cons (by simp [hkind]) (hrest.trans hbehind)
    exact .this (Token.isKeyword_iff.mpr hkind)
  · refine advance_reads.bind fun others _ => fresh_reads.bind fun behind id =>
      .pure _ fun rest hrest hbehind hnext => ?_
    obtain rfl := hnext.eq_cons (by simp [hkind]) (hrest.trans hbehind)
    exact .name (Token.isIdentifier_iff.mpr hkind)
  · refine advance_reads.bind fun others _ => hnested.bind fun behind inner =>
      (expect_reads _ _).bind fun _ closing => .pure _ fun rest hclosing hinner hbehind hnext => ?_
    obtain rfl := hnext.eq_cons (by simp [hkind]) hbehind
    obtain ⟨hclosing, rfl⟩ := hclosing
    exact .grouping (Token.isSymbol_iff.mpr hkind) hinner hclosing
  · exact .fail _

/-- Calls and properties are read behind what is already a call. -/
theorem callFrom_reads (bound : Nat) (callee : Expr) : Reads (callFrom nested bound callee)
    fun tokens e rest => ∀ start, PhraseOf .call start callee tokens → PhraseOf .call start e rest := by
  induction bound generalizing callee with
  | zero => exact .pure callee fun _ _ h => h
  | succ bound ih =>
    have hclose (args : List Expr) : Reads
        (do
          let paren ← expect (·.isSymbol .rightParen) .noArgumentsEnd
          callFrom nested bound (.call callee paren args))
        fun tokens e rest => ∃ closing others, tokens = closing :: others ∧
          closing.isSymbol .rightParen = true ∧ ∀ start,
            PhraseOf .call start (.call callee closing args) others → PhraseOf .call start e rest :=
      (expect_reads _ _).bind fun _ closing => (ih _).imp fun others _ _ he hclosing =>
        ⟨closing, others, hclosing.2, hclosing.1, he⟩
    refine (accepts_reads _).bind fun tokens isCall => ?_
    cases isCall with
    | true =>
      refine (sees_reads _).bind fun others isEmpty => ?_
      cases isEmpty with
      | true =>
        refine (hclose []).imp fun behind e rest he hseen hopening start hcallee => ?_
        obtain ⟨closing, behind, rfl, hclosing, he⟩ := he
        obtain ⟨rfl, -⟩ := hseen
        obtain ⟨opening, hsymbol, rfl⟩ := hopening.1 rfl
        exact he start (.callEmpty hcallee hsymbol hclosing)
      | false =>
        refine (arguments_reads hnested (bound + 1) 0).bind fun behind args =>
          (hclose args).imp fun _ e rest he hargs hseen hopening start hcallee => ?_
        obtain ⟨closing, _, rfl, hclosing, he⟩ := he
        obtain ⟨rfl, -⟩ := hseen
        obtain ⟨opening, hsymbol, rfl⟩ := hopening.1 rfl
        refine he start (.call hcallee hsymbol hargs.1 ?_ hclosing)
        have hlength := hargs.2
        rw [Expr.relabelAll_length]
        omega
    | false =>
      refine (accepts_reads _).bind fun others isProperty => ?_
      cases isProperty with
      | true =>
        refine (expect_reads _ _).bind fun behind name => (ih (.get callee name)).imp
          fun _ e rest he hname hdot hopening start hcallee => ?_
        obtain ⟨hname, rfl⟩ := hname
        obtain ⟨dot, hsymbol, rfl⟩ := hdot.1 rfl
        obtain ⟨rfl, -⟩ := hopening.2 rfl
        exact he start (.property hcallee hsymbol hname)
      | false =>
        refine .pure callee fun rest hdot hopening start hcallee => ?_
        obtain ⟨rfl, -⟩ := hdot.2 rfl
        obtain ⟨rfl, -⟩ := hopening.2 rfl
        exact hcallee

/-- Where nothing is reported, a call has been read. -/
theorem call_reads (bound : Nat) : Reads (call bound nested) (PhraseOf .call) :=
  (primary_reads hnested).bind fun tokens callee =>
    (callFrom_reads hnested bound callee).imp fun _ _ _ he hcallee => he tokens (.primary hcallee)

omit hnested in
/-- Where nothing is reported, prefix operators have been read, with the call behind them. -/
theorem unary_reads {operand : Parser Expr} (hoperand : Reads operand (PhraseOf .call)) (bound : Nat) :
    Reads (unary operand bound) (PhraseOf .unary) := by
  induction bound with
  | zero => exact hoperand.imp fun _ _ _ h => .called h
  | succ bound ih =>
    refine (accept?_reads _).bind fun tokens operator? => ?_
    cases operator? with
    | none =>
      refine hoperand.imp fun others e rest he hnone => ?_
      obtain ⟨rfl, -⟩ := hnone.2 rfl
      exact .called he
    | some operator =>
      refine ih.bind fun others right => .pure _ fun rest hright hread => ?_
      obtain ⟨hoperator, rfl⟩ := hread.1 operator rfl
      exact .unary hoperator hright

/-- What is read at the levels of infix operators are their phrases. -/
theorem disjunction_reads (bound : Nat) :
    Reads (disjunction bound nested) (PhraseOf (.level .disjunction)) := by
  have hunary := unary_reads (call_reads hnested bound) bound
  have hfactor : Reads (factor bound nested) _ := chain_reads .factor hunary bound
  have hterm : Reads (term bound nested) _ := chain_reads .term hfactor bound
  have hcomparison : Reads (comparison bound nested) _ := chain_reads .comparison hterm bound
  have hequality : Reads (equality bound nested) _ := chain_reads .equality hcomparison bound
  have hconjunction : Reads (conjunction bound nested) _ := chain_reads .conjunction hequality bound
  exact chain_reads .disjunction hconjunction bound

/-- Where nothing is reported, an assignment has been read, or an expression that is none. -/
theorem assignment_reads (bound : Nat) : Reads (assignment bound nested) (PhraseOf .expression) := by
  refine (disjunction_reads hnested bound).bind fun tokens target =>
    (accept?_reads _).bind fun others equals? => ?_
  cases equals? with
  | none =>
    refine .pure target fun rest hnone htarget => ?_
    obtain ⟨rfl, -⟩ := hnone.2 rfl
    exact .disjunction htarget
  | some equals =>
    refine hnested.bind fun behind value => ?_
    cases hresult : assignmentTo? value target with
    | none => exact (report_reads _ _).bind fun _ _ => .pure _ fun _ hreported => hreported.elim
    | some result =>
      refine .pure result fun rest hvalue hread htarget => ?_
      obtain ⟨hequals, rfl⟩ := hread.1 equals rfl
      exact Phrase.assignment htarget hequals hvalue (by rw [assignmentTo?_relabel, hresult]; rfl)

end Nested

/-- Parsers of expressions read expressions. -/
theorem expression_reads (bound : Nat) : Reads (expression bound) (PhraseOf .expression) := by
  induction bound with
  | zero => exact .fail _
  | succ bound ih => exact assignment_reads ih (bound + 1)

end Lox.Grammar
