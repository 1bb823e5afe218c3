import Lox.Proofs.Grammar.Accepts
import Lox.Proofs.Grammar.ExpressionFollows
import Lox.Proofs.Grammar.ExpressionReads
import Lox.Proofs.Grammar.Phrases

/-!
# Expressions are accepted

The parsers of expressions accept what the rules describe, with its tree, if the token behind it does not
belong to it. Which tokens may continue a phrase is a matter of strength: a phrase of some rule is
continued by the operators that bind stronger than the rule.
-/

set_option autoImplicit false

namespace Lox.Grammar

open Lox.Parser

/-- How strongly a kind of token binds what stands before it. -/
def strength (k : Kind) : Nat :=
  match k with
  | .symbol .leftParen => 8
  | .symbol .dot => 8
  | .symbol .star => 7
  | .symbol .slash => 7
  | .symbol .minus => 6
  | .symbol .plus => 6
  | .symbol .greater => 5
  | .symbol .greaterEqual => 5
  | .symbol .less => 5
  | .symbol .lessEqual => 5
  | .symbol .bangEqual => 4
  | .symbol .equalEqual => 4
  | .keyword .and => 3
  | .keyword .or => 2
  | .symbol .equal => 1
  | _ => 0

/-- The strength up to which tokens may stand behind a phrase. -/
def Rule.strength : Rule → Nat
  | expression => 0
  | level .disjunction => 1
  | level .conjunction => 2
  | level .equality => 3
  | level .comparison => 4
  | level .term => 5
  | level .factor => 6
  | unary => 7
  | call => 7
  | primary => 8

/-- The token behind a phrase does not continue it. -/
def Ends (r : Rule) (rest : List Token) : Prop := ∀ t ∈ rest.head?, strength t.kind ≤ r.strength

/-- Symbols that bind nothing end every phrase. -/
theorem ends_of_isSymbol {r : Rule} {t : Token} {k : Symbol} {rest : List Token}
    (h : t.isSymbol k = true) (hk : strength (.symbol k) = 0) : Ends r (t :: rest) := by
  rintro _ ⟨⟩
  rw [Token.isSymbol_iff.mp h, hk]
  exact Nat.zero_le _

/-- Behind a primary expression anything may stand. -/
theorem ends_primary (rest : List Token) : Ends .primary rest := by
  rintro ⟨kind, lexeme, line⟩ -
  rcases kind with ⟨⟨⟩⟩ | ⟨⟨⟩⟩ | _ | _ | _ | _ <;> simp [strength, Rule.strength]

/-- A token that ends a phrase of one rule ends those of a rule that binds no more strongly. -/
theorem Ends.mono {r r' : Rule} {rest : List Token} (h : Ends r rest) (hr : r.strength ≤ r'.strength) :
    Ends r' rest := fun t ht => Nat.le_trans (h t ht) hr

/-- The operators of a level are the weakest that its phrases do not end at. -/
theorem Level.isOperator_iff (l : Level) (t : Token) :
    l.isOperator t = true ↔ Grammar.strength t.kind = (Rule.level l).strength + 1 := by
  obtain ⟨kind, lexeme, line⟩ := t
  cases l <;> rcases kind with ⟨⟨⟩⟩ | ⟨⟨⟩⟩ | _ | _ | _ | _ <;>
    simp [isOperator, isEqualityOperator, isComparisonOperator, isTermOperator, isFactorOperator,
      Token.isSymbol, Token.isKeyword, Grammar.strength, Rule.strength]

/-- The operands of a level bind one degree more strongly than the level. -/
theorem Level.operand_strength (l : Level) : l.operand.strength = (Rule.level l).strength + 1 := by
  cases l <;> rfl

/-- Nothing that continues a phrase stands behind it. -/
theorem Ends.any_eq_false {r : Rule} {rest : List Token} (h : Ends r rest) {q : Token → Bool}
    (hq : ∀ t, q t = true → r.strength < strength t.kind) : rest.head?.any q = false := by
  cases rest with
  | nil => rfl
  | cons t rest => exact Bool.eq_false_iff.mpr fun ht => Nat.not_lt_of_le (h t rfl) (hq t ht)

/-- A parser accepts the phrases of a rule where at most `n` tokens are left. -/
def AcceptsRule (r : Rule) (n : Nat) (p : Parser Expr) : Prop :=
  ∀ tokens e rest, tokens.length ≤ n → Phrase r tokens e rest → Ends r rest →
    Accepts (·.relabel .anonymous) p tokens e rest

/-- A parser that reads a phrase with the tree `e`, and goes on with a loop behind it, accepts what the loop accepts
there. -/
def GoesOnBehind (p : Parser Expr) (loop : Nat → Expr → Parser Expr) (tokens : List Token) (e : Expr)
    (rest : List Token) : Prop :=
  ∀ e' last, (∀ bound a, rest.length ≤ bound → a.relabel .anonymous = e →
    Accepts (·.relabel .anonymous) (loop bound a) rest e' last) →
      Accepts (·.relabel .anonymous) p tokens e' last

section Chains

variable {l : Level} {n bound : Nat} {operand : Parser Expr}

/-- Behind a phrase of a level, the loop looks for more operators. -/
theorem chain_goesOnBehind (hoperand : AcceptsRule l.operand n operand) (hbound : n ≤ bound)
    {tokens rest : List Token} {e : Expr} :
    Phrase (.level l) tokens e rest → tokens.length ≤ n → Ends l.operand rest →
      GoesOnBehind (chain bound l.isOperator l.build operand)
        (chainFrom l.isOperator l.build operand) tokens e rest
  | .operand h, htokens, hends => fun e' last hloop => by
    have hlength := h.length_lt
    exact (hoperand tokens e rest htokens h hends).bind fun a ha => hloop bound a (by omega) ha
  | @Phrase.operation _ _ left operator others right _ hleft hoperator hright, htokens, hends =>
    fun e' last hloop => by
    have hbehind : Ends l.operand (operator :: others) := by
      rintro _ ⟨⟩
      exact Nat.le_of_eq (((l.isOperator_iff operator).mp hoperator).trans l.operand_strength.symm)
    have hshorter := hleft.length_lt
    have hshorter' := hright.length_lt
    rw [List.length_cons] at hshorter
    refine chain_goesOnBehind hoperand hbound hleft htokens hbehind e' last fun bound a hlength ha => ?_
    rw [List.length_cons] at hlength
    obtain ⟨bound, rfl⟩ := Nat.exists_eq_add_of_le' (show 1 ≤ bound by omega)
    refine (accept?_some hoperator).andThen ((hoperand others right rest (by omega) hright hends).bind
      fun b hb => hloop bound (l.build a operator b) (by omega) ?_)
    rw [Level.build_relabel, ha, hb]
    rfl
  termination_by tokens.length - rest.length
  decreasing_by
    have hshorter := hleft.length_lt
    have hshorter' := hright.length_lt
    rw [List.length_cons] at *
    omega

/-- A level of infix operators accepts its phrases if its operands do. -/
theorem chain_accepts (hoperand : AcceptsRule l.operand n operand) (hbound : n ≤ bound) :
    AcceptsRule (.level l) n (chain bound l.isOperator l.build operand) := by
  intro tokens e rest htokens h hends
  have hstrength := l.operand_strength
  refine chain_goesOnBehind hoperand hbound h htokens (hends.mono (by omega)) e rest fun bound a _ ha => ?_
  cases bound with
  | zero => exact .pure ha
  | succ bound =>
    refine (accept?_none (hends.any_eq_false fun t ht => ?_)).andThen (.pure ha)
    rw [(l.isOperator_iff t).mp ht]
    exact Nat.lt_succ_self _

end Chains

section Nested

variable {nested : Parser Expr} {m n bound : Nat} (hnested : AcceptsRule .expression m nested)
include hnested

/-- At most eight arguments are accepted, with the parenthesis behind them. -/
theorem arguments_accepts {tokens : List Token} {es : List Expr} {closing : Token} {rest : List Token}
    {count : Nat} (h : Arguments tokens es (closing :: rest))
    (hclosing : closing.isSymbol .rightParen = true) (hm : tokens.length ≤ m)
    (hbound : tokens.length ≤ bound) (hcount : count + es.length ≤ maxArity) :
    Accepts (Expr.relabelAll .anonymous) (arguments nested bound count) tokens es (closing :: rest) := by
  induction es generalizing tokens bound count with
  | nil => cases h
  | cons e es ih =>
    have hlength := h.length_lt
    obtain ⟨bound, rfl⟩ := Nat.exists_eq_add_of_le' (show 1 ≤ bound by omega)
    rw [List.length_cons] at hcount
    rw [arguments, if_neg (show ¬ maxArity ≤ count by omega)]
    cases h with
    | last h =>
      refine (hnested _ _ _ hm h (ends_of_isSymbol hclosing rfl)).bind fun a ha =>
        (accepts_false ?_).andThen (.pure ?_)
      · simp [Token.isSymbol, Token.isSymbol_iff.mp hclosing]
      · exact congrArg (· :: []) ha
    | more h hcomma hothers =>
      have hshorter := h.length_lt
      rw [List.length_cons] at hshorter
      refine (hnested _ _ _ hm h (ends_of_isSymbol hcomma rfl)).bind fun a ha =>
        (accepts_true hcomma).andThen
          ((ih hothers (by omega) (by omega) (by omega)).bind fun as has => .pure ?_)
      rw [Expr.relabelAll, ha, has]

/-- All primary expressions are accepted. -/
theorem primary_accepts (hm : n ≤ m + 1) : AcceptsRule .primary n (primary nested) := by
  intro tokens e rest htokens h _
  cases h with
  | constant hvalue =>
    refine peek_accepts.andThen ?_
    unfold constant? at hvalue
    split at hvalue <;> rename_i hkind <;> cases hvalue <;> rw [hkind] <;>
      exact advance_accepts.andThen (.pure rfl)
  | this hthis =>
    refine peek_accepts.andThen ?_
    rw [Token.isKeyword_iff.mp hthis]
    exact advance_accepts.andThen (fresh_accepts fun _ => .pure rfl)
  | name hname =>
    refine peek_accepts.andThen ?_
    rw [Token.isIdentifier_iff.mp hname]
    exact advance_accepts.andThen (fresh_accepts fun _ => .pure rfl)
  | grouping hopening h hclosing =>
    rw [List.length_cons] at htokens
    refine peek_accepts.andThen ?_
    rw [Token.isSymbol_iff.mp hopening]
    refine advance_accepts.andThen ((hnested _ _ _ (by omega) h (ends_of_isSymbol hclosing rfl)).bind
      fun a ha => (expect_accepts hclosing _).andThen (.pure ?_))
    exact congrArg Expr.grouping ha

/-- Behind a call, the loop looks for more calls and properties. -/
theorem call_goesOnBehind (hm : n ≤ m + 1) (hbound : n ≤ bound) {tokens rest : List Token} {e : Expr} :
    Phrase .call tokens e rest → tokens.length ≤ n →
      GoesOnBehind (call bound nested) (callFrom nested) tokens e rest
  | .primary h, htokens => fun e' last hloop => by
    have hlength := h.length_lt
    exact (primary_accepts hnested hm tokens e rest htokens h (ends_primary rest)).bind fun a ha =>
      hloop bound a (by omega) ha
  | .callEmpty hcallee hopening hclosing, htokens => fun e' last hloop => by
    refine call_goesOnBehind hm hbound hcallee htokens e' last fun bound a hlength ha => ?_
    simp only [List.length_cons] at hlength
    obtain ⟨bound, rfl⟩ := Nat.exists_eq_add_of_le' (show 1 ≤ bound by omega)
    refine (accepts_true hopening).andThen ((sees_accepts _ _).andThen ?_)
    rw [List.head?_cons, Option.any_some, hclosing]
    refine (expect_accepts hclosing _).andThen (hloop bound _ (by omega) ?_)
    exact congrArg (Expr.call · _ _) ha
  | .call hcallee hopening harguments hcount hclosing, htokens => fun e' last hloop => by
    have hshorter := hcallee.length_lt
    have hshorter' := harguments.length_lt
    simp only [List.length_cons] at hshorter hshorter'
    refine call_goesOnBehind hm hbound hcallee htokens e' last fun bound a hlength ha => ?_
    simp only [List.length_cons] at hlength
    obtain ⟨bound, rfl⟩ := Nat.exists_eq_add_of_le' (show 1 ≤ bound by omega)
    refine (accepts_true hopening).andThen ((sees_accepts _ _).andThen ?_)
    rw [harguments.head_any_eq_false fun t ht => not_isSymbol_of_startsExpression ht (by decide)]
    refine (arguments_accepts hnested harguments hclosing (by omega) (by omega)
      (by rw [Nat.zero_add]; exact hcount)).bind fun args hargs => (expect_accepts hclosing _).andThen
        (hloop bound _ (by omega) ?_)
    rw [Expr.relabel, ha, hargs]
    rfl
  | .property hobject hdot hname, htokens => fun e' last hloop => by
    refine call_goesOnBehind hm hbound hobject htokens e' last fun bound a hlength ha => ?_
    simp only [List.length_cons] at hlength
    obtain ⟨bound, rfl⟩ := Nat.exists_eq_add_of_le' (show 1 ≤ bound by omega)
    refine (accepts_false ?_).andThen ((accepts_true hdot).andThen ((expect_accepts hname _).andThen
      (hloop bound _ (by omega) ?_)))
    · simp [Token.isSymbol, Token.isSymbol_iff.mp hdot]
    · exact congrArg (Expr.get · _) ha
  termination_by tokens.length - rest.length
  decreasing_by
    · have := hcallee.length_lt
      simp only [List.length_cons] at *
      omega
    · have := hcallee.length_lt
      have := harguments.length_lt
      simp only [List.length_cons] at *
      omega
    · have := hobject.length_lt
      simp only [List.length_cons] at *
      omega

/-- All calls are accepted. -/
theorem call_accepts (hm : n ≤ m + 1) (hbound : n ≤ bound) :
    AcceptsRule .call n (call bound nested) := by
  intro tokens e rest htokens h hends
  refine call_goesOnBehind hnested hm hbound h htokens e rest fun bound a _ ha => ?_
  cases bound with
  | zero => exact .pure ha
  | succ bound =>
    have hstops {k : Symbol} (hk : 7 < strength (.symbol k)) :
        rest.head?.any (·.isSymbol k) = false :=
      hends.any_eq_false fun t ht => by rw [Token.isSymbol_iff.mp ht]; exact hk
    exact (accepts_false (hstops (by decide))).andThen ((accepts_false (hstops (by decide))).andThen
      (.pure ha))

omit hnested in
/-- All prefix operators are accepted, with the calls behind them. -/
theorem unary_accepts {operand : Parser Expr} (hoperand : AcceptsRule .call n operand) (hbound : n ≤ bound) :
    AcceptsRule .unary n (unary operand bound) := by
  induction bound generalizing n with
  | zero =>
    intro tokens e rest htokens h _
    have hlength := h.length_lt
    omega
  | succ bound ih =>
    intro tokens e rest htokens h hends
    cases h with
    | unary hoperator h =>
      rw [List.length_cons] at htokens
      obtain ⟨n, rfl⟩ := Nat.exists_eq_add_of_le' (show 1 ≤ n by omega)
      have hless : AcceptsRule .call n operand := fun tokens e rest hn =>
        hoperand tokens e rest (Nat.le_succ_of_le hn)
      exact (accept?_some hoperator).andThen ((ih hless (by omega) _ _ _ (by omega) h hends).bind
        fun a ha => .pure (congrArg (Expr.unary _) ha))
    | called h =>
      exact (accept?_none h.call_head).andThen (hoperand tokens e rest htokens h hends)

/-- All levels of infix operators are accepted. -/
theorem disjunction_accepts (hm : n ≤ m + 1) (hbound : n ≤ bound) :
    AcceptsRule (.level .disjunction) n (disjunction bound nested) := by
  have hunary := unary_accepts (call_accepts hnested hm hbound) hbound
  have hfactor : AcceptsRule _ n (factor bound nested) := chain_accepts (l := .factor) hunary hbound
  have hterm : AcceptsRule _ n (term bound nested) := chain_accepts (l := .term) hfactor hbound
  have hcomparison : AcceptsRule _ n (comparison bound nested) :=
    chain_accepts (l := .comparison) hterm hbound
  have hequality : AcceptsRule _ n (equality bound nested) :=
    chain_accepts (l := .equality) hcomparison hbound
  have hconjunction : AcceptsRule _ n (conjunction bound nested) :=
    chain_accepts (l := .conjunction) hequality hbound
  exact chain_accepts (l := .disjunction) hconjunction hbound

/-- A name or a property with an equals sign and a value behind it. -/
theorem assignmentTo_accepts (hm : n ≤ m + 1) (hbound : n ≤ bound) {tokens others rest : List Token}
    {target value result : Expr} {equals : Token} (htokens : tokens.length ≤ n)
    (htarget : Phrase .call tokens target (equals :: others)) (hequals : equals.isSymbol .equal = true)
    (hvalue : Phrase .expression others value rest) (hresult : assignmentTo? value target = some result)
    (hends : Ends .expression rest) :
    Accepts (·.relabel .anonymous) (assignment bound nested) tokens result rest := by
  have hlevel : Phrase (.level .disjunction) tokens target (equals :: others) :=
    .operand (.operand (.operand (.operand (.operand (.operand (.called htarget))))))
  have hbehind : Ends (.level .disjunction) (equals :: others) := by
    rintro _ ⟨⟩
    exact Nat.le_of_eq (by rw [Token.isSymbol_iff.mp hequals]; rfl)
  have hshorter := htarget.length_lt
  rw [List.length_cons] at hshorter
  refine (disjunction_accepts hnested hm hbound _ _ _ htokens hlevel hbehind).bind fun a ha =>
    (accept?_some hequals).andThen ((hnested _ _ _ (by omega) hvalue hends).bind fun b hb => ?_)
  have hsame := assignmentTo?_relabel (R := .anonymous) b a
  rw [ha, hb, hresult] at hsame
  obtain ⟨c, hc, rfl⟩ := Option.map_eq_some_iff.mp hsame.symm
  rw [hc]
  exact .pure rfl

/-- All assignments, and expressions that are none, are accepted. -/
theorem assignment_accepts (hm : n ≤ m + 1) (hbound : n ≤ bound) :
    AcceptsRule .expression n (assignment bound nested) := by
  intro tokens e rest htokens h hends
  cases h with
  | disjunction h =>
    refine (disjunction_accepts hnested hm hbound tokens e rest htokens h
      (hends.mono (Nat.zero_le _))).bind fun a ha =>
        (accept?_none (hends.any_eq_false fun t ht => ?_)).andThen (.pure ha)
    rw [Token.isSymbol_iff.mp ht]
    exact Nat.zero_lt_one
  | assign hname hequals hvalue =>
    exact assignmentTo_accepts hnested hm hbound htokens (.primary (.name hname)) hequals hvalue rfl hends
  | set hobject hdot hname hequals hvalue =>
    exact assignmentTo_accepts hnested hm hbound htokens (.property hobject hdot hname) hequals hvalue rfl
      hends

end Nested

/-- Parsers of expressions accept expressions. -/
theorem expression_accepts (n : Nat) : AcceptsRule .expression n (expression n) := by
  induction n with
  | zero =>
    intro tokens e rest htokens h _
    have hlength := h.length_lt
    omega
  | succ n ih => exact assignment_accepts ih (Nat.le_refl _) (Nat.le_refl _)

end Lox.Grammar
