import Lox.Grammar.Expression
import Lox.Proofs.Grammar.Yields

/-!
# What the rules for expressions yield

An expression that is parsed without errors is well-formed, and its uses carry exactly the numbers that
were handed out while it was parsed, though not always in their order: the target of an assignment is
read before the value and resolved behind it.
-/

set_option autoImplicit false

namespace Lox

/-- An expression carries the given numbers, and is well-formed. -/
structure Expr.Numbered (ids : List Occurrence) (e : Expr) : Prop where
  occurrences : e.occurrences.Perm ids
  wellFormed : e.WellFormed

/-- Expressions carry the given numbers, and are well-formed. -/
structure Expr.AllNumbered (ids : List Occurrence) (es : List Expr) : Prop where
  occurrences : (Expr.occurrencesAll es).Perm ids
  wellFormed : Expr.AllWellFormed es

namespace Grammar

open Lox.Parser

/-- The result is what a left part grows to when the numbers `ids` are handed out. -/
def Continues (left : Expr) (ids : List Occurrence) (e : Expr) : Prop :=
  ∀ before, left.Numbered before → e.Numbered (before ++ ids)

/-- An operand that continues the left part may be continued itself. -/
theorem Continues.trans {left middle e : Expr} {ids ids' : List Occurrence}
    (h : Continues left ids middle) (h' : Continues middle ids' e) :
    Continues left (ids ++ ids') e := by
  intro before hleft
  rw [← List.append_assoc]
  exact h' _ (h before hleft)

/-- A left part that does not grow takes up no numbers. -/
theorem Continues.refl (left : Expr) : Continues left [] left := by
  intro before hleft
  rwa [List.append_nil]

section Chains

variable {isOperator : Token → Bool} {build : Expr → Token → Expr → Expr} {operand : Parser Expr}

/-- The loop over infix operators carries the numbers of the left operand and those given out behind it. -/
theorem chainFrom_yields (hbuild : ∀ left operator right ids, right.Numbered ids →
      Continues left ids (build left operator right))
    (hoperand : Yields operand fun ids e => e.Numbered ids) (bound : Nat) (left : Expr) :
    Yields (chainFrom isOperator build operand bound left) (Continues left) := by
  induction bound generalizing left with
  | zero => exact .pure left (.refl left)
  | succ bound ih =>
    refine (accept?_yields isOperator).after fun operator? => ?_
    cases operator? with
    | none => exact .pure left fun _ => .refl left
    | some operator =>
      refine Yields.assuming (hoperand.bind (fun right => ih (build left operator right)) ?_) _
      exact fun right before after e hright he => (hbuild left operator right before hright).trans he

/-- A level of infix operators carries the numbers that are given out. -/
theorem chain_yields (hbuild : ∀ left operator right ids, right.Numbered ids →
      Continues left ids (build left operator right))
    (hoperand : Yields operand fun ids e => e.Numbered ids) (bound : Nat) :
    Yields (chain bound isOperator build operand) fun ids e => e.Numbered ids :=
  hoperand.bind (chainFrom_yields hbuild hoperand bound) fun _ before _ _ hleft he =>
    he before hleft

/-- A binary operator adds the numbers of its right operand. -/
theorem binary_continues (left : Expr) (operator : Token) (right : Expr) (ids : List Occurrence)
    (hright : right.Numbered ids) : Continues left ids (.binary left operator right) :=
  fun _ hleft => ⟨hleft.occurrences.append hright.occurrences, hleft.wellFormed, hright.wellFormed⟩

/-- A logical operator adds the numbers of its right operand. -/
theorem logical_continues (left : Expr) (operator : Token) (right : Expr) (ids : List Occurrence)
    (hright : right.Numbered ids) : Continues left ids (.logical left operator right) :=
  fun _ hleft => ⟨hleft.occurrences.append hright.occurrences, hleft.wellFormed, hright.wellFormed⟩

end Chains

section Nested

variable {nested : Parser Expr} (hnested : Yields nested fun ids e => e.Numbered ids)
include hnested

/-- Arguments carry the numbers that are given out. -/
theorem arguments_yields (bound count : Nat) :
    Yields (arguments nested bound count) fun ids es => Expr.AllNumbered ids es := by
  induction bound generalizing count with
  | zero => exact .fail _
  | succ bound ih =>
    have hmore (argument : Expr) : Yields
        (do
          if ← accepts (·.isSymbol .comma) then
            return argument :: (← arguments nested bound (count + 1))
          else return [argument])
        fun ids es => ∀ before, argument.Numbered before → Expr.AllNumbered (before ++ ids) es := by
      refine (accepts_yields _).after fun more => .assuming ?_ _
      cases more with
      | true =>
        exact (ih (count + 1)).returning fun ids es hes before hargument =>
          ⟨hargument.occurrences.append hes.occurrences, hargument.wellFormed, hes.wellFormed⟩
      | false =>
        exact .pure _ fun before hargument =>
          ⟨hargument.occurrences.append .nil, hargument.wellFormed, trivial⟩
    have hrest := hnested.bind hmore fun argument before _ _ hargument hes => hes before hargument
    unfold arguments
    split
    · exact peek_yields.after fun t => .assuming
        ((report_yields t _).after fun _ => .assuming hrest _) _
    · exact hrest

/-- A primary expression carries the number that is given out for it. -/
theorem primary_yields : Yields (primary nested) fun ids e => e.Numbered ids := by
  refine peek_yields.after fun t => ?_
  have hconstant (value : Literal) :
      Yields (do advance; return .literal value) fun ids e => t.Spelled → Expr.Numbered ids e :=
    advance_yields.after fun _ => .pure _ fun _ _ => ⟨.nil, trivial⟩
  split
  · exact hconstant _
  · exact hconstant _
  · exact hconstant _
  · exact hconstant _
  · exact hconstant _
  · rename_i hkind
    refine advance_yields.after fun _ => .assuming (fresh_yields.returning fun ids id hids hspelled => ?_) _
    refine ⟨hids ▸ .refl _, hspelled.this ?_⟩
    rw [Token.isKeyword, hkind]
    rfl
  · exact advance_yields.after fun _ => .assuming
      (fresh_yields.returning fun ids id hids _ => ⟨hids ▸ .refl _, trivial⟩) _
  · have hclose (inner : Expr) : Yields
        (do
          let _ ← expect (·.isSymbol .rightParen) .noGroupingEnd
          return Expr.grouping inner)
        fun ids e => ids = [] ∧ e = Expr.grouping inner :=
      (expect_yields _ _).after fun _ => .pure _ fun _ => ⟨rfl, rfl⟩
    refine advance_yields.after fun _ => .assuming (.assuming (hnested.bind hclose ?_) _) _
    rintro inner before after e ⟨hids, hwf⟩ ⟨rfl, rfl⟩
    exact ⟨by rwa [List.append_nil], hwf⟩
  · exact .fail _

/-- Calls and properties behind a callee carry its numbers and those given out behind it. -/
theorem callFrom_yields (bound : Nat) (callee : Expr) :
    Yields (callFrom nested bound callee) (Continues callee) := by
  induction bound generalizing callee with
  | zero => exact .pure callee (.refl callee)
  | succ bound ih =>
    have hclose (args : List Expr) : Yields
        (do
          let paren ← expect (·.isSymbol .rightParen) .noArgumentsEnd
          callFrom nested bound (.call callee paren args))
        fun ids e => ∃ paren, Continues (.call callee paren args) ids e :=
      (expect_yields _ _).after fun paren => .assuming ((ih _).imp fun _ _ he => ⟨paren, he⟩) _
    have hcall {args : Parser (List Expr)} (hargs : Yields args fun ids es => Expr.AllNumbered ids es) :
        Yields
          (do
            let args ← args
            let paren ← expect (·.isSymbol .rightParen) .noArgumentsEnd
            callFrom nested bound (.call callee paren args))
          (Continues callee) := by
      refine hargs.bind hclose fun args before after e hargs ⟨paren, he⟩ ids hcallee => ?_
      rw [← List.append_assoc]
      exact he _ ⟨hcallee.occurrences.append hargs.occurrences, hcallee.wellFormed, hargs.wellFormed⟩
    refine (accepts_yields _).after fun isCall => .assuming ?_ _
    cases isCall with
    | true =>
      refine (sees_yields _).after fun isEmpty => .assuming ?_ _
      cases isEmpty with
      | true => exact hcall (.pure [] ⟨.nil, trivial⟩)
      | false => exact hcall (arguments_yields hnested (bound + 1) 0)
    | false =>
      refine (accepts_yields _).after fun isProperty => .assuming ?_ _
      cases isProperty with
      | true =>
        refine (expect_yields _ _).after fun name => .assuming ((ih _).imp fun ids e he => ?_) _
        exact fun before hcallee => he before ⟨hcallee.occurrences, hcallee.wellFormed⟩
      | false => exact .pure callee (.refl callee)

/-- A call carries the numbers that are given out. -/
theorem call_yields (bound : Nat) : Yields (call bound nested) fun ids e => e.Numbered ids :=
  (primary_yields hnested).bind (callFrom_yields hnested bound) fun _ before _ _ hcallee he =>
    he before hcallee

omit hnested in
/-- Prefix operators carry the numbers of their operand. -/
theorem unary_yields {operand : Parser Expr} (hoperand : Yields operand fun ids e => e.Numbered ids)
    (bound : Nat) : Yields (unary operand bound) fun ids e => e.Numbered ids := by
  induction bound with
  | zero => exact hoperand
  | succ bound ih =>
    refine (accept?_yields _).after fun operator? => .assuming ?_ _
    cases operator? with
    | none => exact hoperand
    | some operator => exact ih.returning fun ids e he => ⟨he.occurrences, he.wellFormed⟩

/-- All levels of infix operators carry the numbers that are given out. -/
theorem disjunction_yields (bound : Nat) :
    Yields (disjunction bound nested) fun ids e => e.Numbered ids := by
  have hunary := unary_yields (call_yields hnested bound) bound
  have hfactor : Yields (factor bound nested) fun ids e => e.Numbered ids :=
    chain_yields binary_continues hunary bound
  have hterm : Yields (term bound nested) fun ids e => e.Numbered ids :=
    chain_yields binary_continues hfactor bound
  have hcomparison : Yields (comparison bound nested) fun ids e => e.Numbered ids :=
    chain_yields binary_continues hterm bound
  have hequality : Yields (equality bound nested) fun ids e => e.Numbered ids :=
    chain_yields binary_continues hcomparison bound
  have hconjunction : Yields (conjunction bound nested) fun ids e => e.Numbered ids :=
    chain_yields logical_continues hequality bound
  exact chain_yields logical_continues hconjunction bound

omit hnested in
/-- An assignment continues its target. -/
theorem assignmentTo?_continues {value target e : Expr} {ids : List Occurrence}
    (h : assignmentTo? value target = some e) (hvalue : value.Numbered ids) :
    Continues target ids e := by
  intro before htarget
  cases target with
  | «variable» id name =>
    cases h
    exact ⟨(hvalue.occurrences.append htarget.occurrences).trans List.perm_append_comm,
      hvalue.wellFormed⟩
  | get object name =>
    cases h
    exact ⟨(hvalue.occurrences.append htarget.occurrences).trans List.perm_append_comm,
      htarget.wellFormed, hvalue.wellFormed⟩
  | _ => cases h

/-- An assignment carries the numbers of its target and its value. -/
theorem assignment_yields (bound : Nat) :
    Yields (assignment bound nested) fun ids e => e.Numbered ids := by
  refine (disjunction_yields hnested bound).bind (fun target => (?_ : Yields _ (Continues target)))
    fun _ before _ _ htarget he => he before htarget
  refine (accept?_yields _).after fun equals? => .assuming ?_ _
  cases equals? with
  | none => exact .pure target (.refl target)
  | some equals =>
    refine hnested.bind (fun value =>
      (?_ : Yields _ fun ids e => ids = [] ∧ assignmentTo? value target = some e)) ?_
    · cases assignmentTo? value target with
      | some result => exact .pure result ⟨rfl, rfl⟩
      | none => exact (report_yields _ _).after fun _ => .pure _ fun h => h.elim
    · rintro value before after e hvalue ⟨rfl, he⟩
      rw [List.append_nil]
      exact assignmentTo?_continues he hvalue

end Nested

/-- An expression carries the numbers that are handed out while it is parsed. -/
theorem expression_yields (bound : Nat) :
    Yields (expression bound) fun ids e => e.Numbered ids := by
  induction bound with
  | zero => exact .fail _
  | succ bound ih => exact assignment_yields ih (bound + 1)

end Grammar

end Lox
