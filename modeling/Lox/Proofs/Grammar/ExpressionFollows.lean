import Lox.Grammar.Expression
import Lox.Proofs.Grammar.FollowsEnd

/-!
# Expressions that follow each other

Expressions are parsed alike from linked states, whatever bounds the two runs have, as long as these are
no smaller than the numbers of tokens left. An expression may always look for more, so this holds only
inside the tokens of the first run, unless nothing comes behind them.
-/

set_option autoImplicit false

namespace Lox

namespace Grammar

open Lox.Parser

variable {V : Respelling} {before : List SyntaxError} {ahead : List Token} {n : Nat}

section Chains

variable {isOperator : Token → Bool} {build : Expr → Token → Expr → Expr}
  {operand operand' : Parser Expr}

/-- At the end of the tokens, the loop over infix operators yields the left operand. -/
theorem chainFrom_end (bound : Nat) (left : Expr) (s : ParserState) (h : s.rest = []) :
    chainFrom isOperator build operand bound left s = .ok left s := by
  cases bound with
  | zero => rfl
  | succ bound => exact accept?_end isOperator _ h

/-- Infix operators build the same expressions from the same parts. -/
def Builds (V : Respelling) (build : Expr → Token → Expr → Expr) : Prop :=
  ∀ left operator right,
    (build left operator right).respell V =
      build (left.respell V) (operator.respell V) (right.respell V)

/-- The loop over infix operators does the same behind equal left operands. -/
theorem chainFrom_follows (hop : Unaffected V isOperator) (hbuild : Builds V build)
    (hoperand : Follows V before ahead true n 1 (Expr.respell V) operand operand') {m : Nat} (hm : m ≤ n)
    {bound bound' : Nat} (hbound : m ≤ bound) (hbound' : m + ahead.length ≤ bound') {left left' : Expr}
    (hleft : left'.respell V = left.respell V) :
    Follows V before ahead true m 0 (Expr.respell V) (chainFrom isOperator build operand bound left)
      (chainFrom isOperator build operand' bound' left') := by
  induction m generalizing bound bound' left left' with
  | zero => exact follows_at_end (chainFrom_end bound left) (chainFrom_end bound' left') hleft
  | succ m ih =>
    obtain ⟨bound, rfl⟩ := Nat.exists_eq_add_of_le' (Nat.le_trans (Nat.le_add_left 1 m) hbound)
    obtain ⟨bound', rfl⟩ := Nat.exists_eq_add_of_le' (show 1 ≤ bound' by omega)
    refine .accept? hop (.inl rfl) (.pure hleft) fun t t' ht _ => ?_
    refine (hoperand.fewer (Nat.le_of_succ_le hm)).bind (Nat.zero_le _) fun right right' hright _ => ?_
    refine (ih (by omega) (by omega) (by omega) ?_).fewer (by omega)
    rw [hbuild, hbuild, hleft, ht, hright]

/-- A level of infix operators does the same if its operands do. -/
theorem chain_follows (hop : Unaffected V isOperator) (hbuild : Builds V build)
    (hoperand : Follows V before ahead true n 1 (Expr.respell V) operand operand') {bound bound' : Nat}
    (hbound : n ≤ bound) (hbound' : n + ahead.length ≤ bound') :
    Follows V before ahead true n 1 (Expr.respell V) (chain bound isOperator build operand)
      (chain bound' isOperator build operand') := by
  refine hoperand.bind (Nat.le_refl _) fun left left' hleft _ => ?_
  exact chainFrom_follows hop hbuild hoperand (by omega) (by omega) (by omega) hleft

end Chains

section Nested

variable {nested nested' : Parser Expr}

/-- At the end of the tokens, the loop over calls yields the callee. -/
theorem callFrom_end (bound : Nat) (callee : Expr) (s : ParserState) (h : s.rest = []) :
    callFrom nested bound callee s = .ok callee s := by
  cases bound with
  | zero => rfl
  | succ bound =>
    unfold callFrom
    simp only [accepts, bind_assoc, pure_bind]
    rw [accept?_end _ _ h]
    exact accept?_end _ _ h

variable (hnested : Follows V before ahead true n 1 (Expr.respell V) nested nested')
include hnested

/-- The loop over arguments does the same if expressions do. -/
theorem arguments_follows {m : Nat} (hm : m ≤ n) {bound bound' : Nat} (hbound : m < bound)
    (hbound' : m + ahead.length < bound') (count : Nat) :
    Follows V before ahead true m 1 (Expr.respellAll V) (arguments nested bound count)
      (arguments nested' bound' count) := by
  induction bound generalizing m bound' count with
  | zero => cases hbound
  | succ bound ih =>
    obtain ⟨bound', rfl⟩ := Nat.exists_eq_add_of_le' (show 1 ≤ bound' by omega)
    have hrest : Follows V before ahead true m 1 (Expr.respellAll V)
        (do
          let argument ← nested
          if ← accepts (·.isSymbol .comma) then
            return argument :: (← arguments nested bound (count + 1))
          else return [argument])
        (do
          let argument ← nested'
          if ← accepts (·.isSymbol .comma) then
            return argument :: (← arguments nested' bound' (count + 1))
          else return [argument]) := by
      refine (hnested.fewer hm).bind (Nat.le_refl _) fun e e' he _ => ?_
      refine .accepts (fun _ => rfl) (.inl rfl) (.pure ?_) fun _ => ?_
      · simp only [Expr.respellAll, he]
      · refine (ih (by omega) (by omega) (by omega) (count + 1)).bind (Nat.zero_le _)
          fun es es' hes _ => .pure ?_
        simp only [Expr.respellAll, he, hes]
    unfold arguments
    by_cases hcount : maxArity ≤ count
    · simp only [if_pos hcount]
      refine peek_follows.bind_reads fun t t' ht _ => ?_
      exact (report_follows ht _).bind_reads fun _ _ _ _ => hrest
    · simp only [if_neg hcount]
      exact hrest

/-- A primary expression reads a token before it comes to the expression in it. -/
theorem primary_follows :
    Follows V before ahead true (n + 1) 1 (Expr.respell V) (primary nested) (primary nested') := by
  refine .choose (fun t ht => ?_) (fun t ht => ?_) fun s s' t t' rest hlinked hs hlength ht' => ?_
  · simp only [ht]
    exact .fail _
  · simp only [ht]
    exact .fail _
  · have hconstant (value : Literal) : FollowsAt V before ahead true 1 (Expr.respell V)
        (do advance; return .literal value) (do advance; return .literal value) s s' :=
      .advance hlinked hs hlength (.pure rfl)
    rw [kind_eq ht']
    split
    · exact hconstant _
    · exact hconstant _
    · exact hconstant _
    · exact hconstant _
    · exact hconstant _
    · refine .advance hlinked hs hlength (k := 0) (fresh_follows.bind (Nat.le_refl _) fun id id' hid _ => .pure ?_)
      simp only [Expr.respell, hid, ht']
    · refine .advance hlinked hs hlength (k := 0) (fresh_follows.bind (Nat.le_refl _) fun id id' hid _ => .pure ?_)
      simp only [Expr.respell, hid, ht']
    · have hinner : Follows V before ahead true n 0 (Expr.respell V)
          (do
            let inner ← nested
            let _ ← expect (·.isSymbol .rightParen) .noGroupingEnd
            return Expr.grouping inner)
          (do
            let inner ← nested'
            let _ ← expect (·.isSymbol .rightParen) .noGroupingEnd
            return Expr.grouping inner) := by
        refine hnested.bind (Nat.zero_le _) fun e e' he _ => ?_
        refine (expect_follows (fun _ => rfl) _).bind (Nat.zero_le _) fun _ _ _ _ => .pure ?_
        simp only [Expr.respell, he]
      exact .advance hlinked hs hlength hinner
    · exact .fail hlinked _

/-- The loop over calls and properties does the same behind equal callees. -/
theorem callFrom_follows {m : Nat} (hm : m ≤ n) {bound bound' : Nat} (hbound : m ≤ bound)
    (hbound' : m + ahead.length ≤ bound') {callee callee' : Expr}
    (hcallee : callee'.respell V = callee.respell V) :
    Follows V before ahead true m 0 (Expr.respell V) (callFrom nested bound callee)
      (callFrom nested' bound' callee') := by
  induction m generalizing bound bound' callee callee' with
  | zero => exact follows_at_end (callFrom_end bound callee) (callFrom_end bound' callee') hcallee
  | succ m ih =>
    obtain ⟨bound, rfl⟩ := Nat.exists_eq_add_of_le' (show 1 ≤ bound by omega)
    obtain ⟨bound', rfl⟩ := Nat.exists_eq_add_of_le' (show 1 ≤ bound' by omega)
    have hclose {args args' : Parser (List Expr)} {k : Nat}
        (hargs : Follows V before ahead true m k (Expr.respellAll V) args args') :
        Follows V before ahead true m 0 (Expr.respell V)
          (do
            let args ← args
            let paren ← expect (·.isSymbol .rightParen) .noArgumentsEnd
            callFrom nested bound (.call callee paren args))
          (do
            let args ← args'
            let paren ← expect (·.isSymbol .rightParen) .noArgumentsEnd
            callFrom nested' bound' (.call callee' paren args)) := by
      refine hargs.bind (Nat.zero_le _) fun es es' hes _ => ?_
      refine (expect_follows (fun _ => rfl) _).bind (Nat.zero_le _) fun paren paren' hparen _ => ?_
      refine (ih (by omega) (by omega) (by omega) ?_).fewer (by omega)
      simp only [Expr.respell, hcallee, hparen, hes]
    refine .accepts (fun _ => rfl) (.inl rfl) ?_ fun _ => ?_
    · refine .accepts (fun _ => rfl) (.inl rfl) (.pure hcallee) fun _ => ?_
      refine (expect_follows (fun _ => rfl) _).bind (Nat.zero_le _) fun name name' hname _ => ?_
      refine (ih (by omega) (by omega) (by omega) ?_).fewer (by omega)
      simp only [Expr.respell, hcallee, hname]
    · refine (sees_follows fun _ => rfl).bind (Nat.le_refl _) fun isEmpty isEmpty' hempty _ => ?_
      obtain rfl : isEmpty' = isEmpty := hempty
      cases isEmpty' with
      | true => exact hclose (.pure rfl)
      | false =>
        exact hclose (arguments_follows hnested (by omega) (by omega) (by omega) 0)

/-- A call, with all that follows its callee, does the same if expressions do. -/
theorem call_follows {bound bound' : Nat}
    (hbound : n ≤ bound) (hbound' : n + ahead.length ≤ bound') :
    Follows V before ahead true (n + 1) 1 (Expr.respell V) (call bound nested) (call bound' nested') :=
  (primary_follows hnested).bind (Nat.le_refl _) fun _ _ hcallee _ =>
    callFrom_follows hnested (Nat.le_refl n) hbound hbound' hcallee

end Nested

section Prefixes

variable {operand operand' : Parser Expr}
  (hoperand : Follows V before ahead true n 1 (Expr.respell V) operand operand')

/-- At the end of the tokens, there are no prefix operators. -/
theorem unary_end (bound : Nat) {s : ParserState} (h : s.rest = []) :
    unary operand bound s = operand s := by
  cases bound with
  | zero => rfl
  | succ bound => exact accept?_end _ _ h

include hoperand in
/-- Prefix operators do the same if their operands do. -/
theorem unary_follows {m : Nat} (hm : m ≤ n) {bound bound' : Nat} (hbound : m ≤ bound)
    (hbound' : m + ahead.length ≤ bound') :
    Follows V before ahead true m 1 (Expr.respell V) (unary operand bound) (unary operand' bound') := by
  induction m generalizing bound bound' with
  | zero =>
    intro s s' hlinked hlength
    have hs : s.rest = [] := List.length_eq_zero_iff.mp (Nat.le_zero.mp hlength)
    have hsame {q : Parser Expr} (h : q s' = operand' s') :
        FollowsAt V before ahead true 1 (Expr.respell V) (unary operand bound) q s s' :=
      (hoperand s s' hlinked (by omega)).of_eq (unary_end bound hs) h
    by_cases hahead : ahead = []
    · subst hahead
      exact hsame (unary_end bound' (hlinked.rest_eq_nil hs))
    · exact (hsame rfl).alone hs hahead (.inl rfl) _
  | succ m ih =>
    obtain ⟨bound, rfl⟩ := Nat.exists_eq_add_of_le' (show 1 ≤ bound by omega)
    obtain ⟨bound', rfl⟩ := Nat.exists_eq_add_of_le' (show 1 ≤ bound' by omega)
    refine .accept? (fun _ => rfl) (.inl rfl) (hoperand.fewer hm) fun t t' ht _ => ?_
    refine (ih (by omega) (by omega) (by omega)).bind (Nat.zero_le _) fun e e' he _ => .pure ?_
    simp only [Expr.respell, ht, he]

end Prefixes

section Nested

variable {nested nested' : Parser Expr}
  (hnested : Follows V before ahead true n 1 (Expr.respell V) nested nested')
  {bound bound' : Nat} (hbound : n < bound)
  (hbound' : n + ahead.length < bound')
include hnested hbound hbound'

/-- All levels of infix operators do the same. -/
theorem disjunction_follows : Follows V before ahead true (n + 1) 1 (Expr.respell V)
    (disjunction bound nested) (disjunction bound' nested') := by
  have hle : n + 1 ≤ bound := hbound
  have hle' : n + 1 + ahead.length ≤ bound' := by omega
  have hbinary : Builds V .binary := fun _ _ _ => rfl
  have hlogical : Builds V .logical := fun _ _ _ => rfl
  have hcall : Follows V before ahead true (n + 1) 1 (Expr.respell V) (call bound nested)
      (call bound' nested') := call_follows hnested (by omega) (by omega)
  have hunary := unary_follows hcall (Nat.le_refl _) hle hle'
  have hfactor : Follows V before ahead true (n + 1) 1 (Expr.respell V) (factor bound nested)
      (factor bound' nested') := chain_follows (fun _ => rfl) hbinary hunary hle hle'
  have hterm : Follows V before ahead true (n + 1) 1 (Expr.respell V) (term bound nested)
      (term bound' nested') := chain_follows (fun _ => rfl) hbinary hfactor hle hle'
  have hcomparison : Follows V before ahead true (n + 1) 1 (Expr.respell V) (comparison bound nested)
      (comparison bound' nested') := chain_follows (fun _ => rfl) hbinary hterm hle hle'
  have hequality : Follows V before ahead true (n + 1) 1 (Expr.respell V) (equality bound nested)
      (equality bound' nested') := chain_follows (fun _ => rfl) hbinary hcomparison hle hle'
  have hconjunction : Follows V before ahead true (n + 1) 1 (Expr.respell V) (conjunction bound nested)
      (conjunction bound' nested') := chain_follows (fun _ => rfl) hlogical hequality hle hle'
  exact chain_follows (fun _ => rfl) hlogical hconjunction hle hle'

omit hnested hbound hbound' in
/-- Whether an expression takes values depends neither on labels nor on spelling. -/
theorem assignmentTo?_respell (value target : Expr) :
    assignmentTo? (value.respell V) (target.respell V) = (assignmentTo? value target).map (·.respell V) := by
  cases target <;> rfl

omit hnested hbound hbound' in
/-- An assignment that is made of relabeled parts is the relabeled assignment. -/
theorem assignmentTo?_relabel {R : Relabeling} (value target : Expr) :
    assignmentTo? (value.relabel R) (target.relabel R) = (assignmentTo? value target).map (·.relabel R) := by
  simpa using assignmentTo?_respell (V := R.respelling) value target

/-- An assignment, or an expression that is none, does the same if its parts do. -/
theorem assignment_follows : Follows V before ahead true (n + 1) 1 (Expr.respell V)
    (assignment bound nested) (assignment bound' nested') := by
  refine (disjunction_follows hnested hbound hbound').bind (Nat.le_refl _) fun target target' htarget _ => ?_
  refine .accept? (fun _ => rfl) (.inl rfl) (.pure htarget) fun equals equals' hequals _ => ?_
  refine (hnested.fewer (by omega)).bind (Nat.zero_le _) fun value value' hvalue _ => ?_
  have hresult := assignmentTo?_respell (V := V) value' target'
  rw [hvalue, htarget, assignmentTo?_respell] at hresult
  generalize assignmentTo? value target = result?, assignmentTo? value' target' = result'? at hresult ⊢
  match result?, result'?, hresult with
  | some result, some result', hresult => exact .pure (Option.some.inj hresult).symm
  | none, none, _ =>
    exact (report_follows hequals _).bind (Nat.le_refl _) fun _ _ _ _ => .pure htarget

end Nested

section Failures

variable {kind : Kind} (hkind : kind = .eof ∨ kind = .keyword .else)
include hkind

/-- Where an operand fails at the end of the input or at an `else`, so do prefix operators. -/
theorem unary_failsOn {operand : Parser Expr} (h : FailsOn kind operand) (bound : Nat) :
    FailsOn kind (unary operand bound) := by
  cases bound with
  | zero => exact h
  | succ bound =>
    intro s hs
    have hnone : unary operand (bound + 1) s = operand s := by
      show EStateM.bind (accept? isUnaryOperator) _ s = _
      unfold EStateM.bind accept?
      cases hrest : s.rest with
      | nil => rfl
      | cons t rest =>
        rw [hrest, List.headD_cons] at hs
        have hoperator : isUnaryOperator t = false := by
          rw [isUnaryOperator, Token.isSymbol, Token.isSymbol, hs]
          rcases hkind with rfl | rfl <;> rfl
        simp only [hoperator]
        rfl
    exact hnone.trans (h s hs)

/-- No primary expression begins with the end of the input or with an `else`. -/
theorem primary_failsOn (nested : Parser Expr) : FailsOn kind (primary nested) := by
  refine .peek fun t ht => ?_
  rcases hkind with rfl | rfl
  · simp only [ht]
    exact .fail _
  · simp only [ht]
    exact .fail _

/-- An expression begins neither at the end of the input nor with `else`. -/
theorem expression_failsOn (bound : Nat) : FailsOn kind (expression bound) := by
  cases bound with
  | zero => exact .fail kind
  | succ bound =>
    have hcall : FailsOn kind (call (bound + 1) (expression bound)) := (primary_failsOn hkind _).bind _
    have hfactor : FailsOn kind (factor (bound + 1) (expression bound)) :=
      (unary_failsOn hkind hcall (bound + 1)).bind _
    have hterm : FailsOn kind (term (bound + 1) (expression bound)) := hfactor.bind _
    have hcomparison : FailsOn kind (comparison (bound + 1) (expression bound)) := hterm.bind _
    have hequality : FailsOn kind (equality (bound + 1) (expression bound)) := hcomparison.bind _
    have hconjunction : FailsOn kind (conjunction (bound + 1) (expression bound)) := hequality.bind _
    have hdisjunction : FailsOn kind (disjunction (bound + 1) (expression bound)) :=
      hconjunction.bind _
    exact hdisjunction.bind _

end Failures

/-- Expressions are parsed alike. -/
theorem expression_follows {bound bound' : Nat}
    (hbound : n ≤ bound) (hbound' : n + ahead.length ≤ bound') :
    Follows V before ahead true n 1 (Expr.respell V) (expression bound) (expression bound') := by
  induction n generalizing bound bound' with
  | zero => exact (expression_failsOn (.inl rfl) bound).follows (expression_failsOn (.inl rfl) bound')
  | succ n ih =>
    obtain ⟨bound, rfl⟩ := Nat.exists_eq_add_of_le' (show 1 ≤ bound by omega)
    obtain ⟨bound', rfl⟩ := Nat.exists_eq_add_of_le' (show 1 ≤ bound' by omega)
    exact assignment_follows (ih (by omega) (by omega)) (by omega) (by omega)

end Grammar

end Lox
