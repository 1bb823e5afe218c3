import Lox.Proofs.Grammar.Rules

/-!
# The first tokens of phrases

Every phrase has a token, and what the token is tells statements and declarations from each other: an
expression begins with a constant, a name, a parenthesis or a prefix operator, everything else with a word
or brace of its own.
-/

set_option autoImplicit false

namespace Lox.Grammar

/-- Whether a token may begin an expression. -/
def startsExpression (t : Token) : Bool :=
  (constant? t).isSome || t.isKeyword .this || t.isIdentifier || t.isSymbol .leftParen ||
    isUnaryOperator t

/-- Whether a token may begin a statement. -/
def startsPlainStatement (t : Token) : Bool :=
  startsExpression t || t.isSymbol .leftBrace || t.isKeyword .for || t.isKeyword .if ||
    t.isKeyword .while || t.isKeyword .print || t.isKeyword .return

/-- Whether a token may begin a declaration or statement. -/
def startsDeclaration (t : Token) : Bool :=
  startsPlainStatement t || t.isKeyword .class || t.isKeyword .fun || t.isKeyword .var

mutual

/-- A phrase has a token. -/
theorem Phrase.length_lt {r tokens e rest} : Phrase r tokens e rest → rest.length < tokens.length
  | .disjunction h => h.length_lt
  | .assign _ _ hvalue => by
    have := hvalue.length_lt
    simp only [List.length_cons]
    omega
  | .set hobject _ _ _ hvalue => by
    have := hobject.length_lt
    have := hvalue.length_lt
    simp only [List.length_cons] at *
    omega
  | .operand h => h.length_lt
  | .operation hleft _ hright => by
    have := hleft.length_lt
    have := hright.length_lt
    simp only [List.length_cons] at *
    omega
  | .unary _ h => Nat.lt_succ_of_lt h.length_lt
  | .called h => h.length_lt
  | .callEmpty h _ _ => by
    have := h.length_lt
    simp only [List.length_cons] at *
    omega
  | .call h _ harguments _ _ => by
    have := h.length_lt
    have := harguments.length_lt
    simp only [List.length_cons] at *
    omega
  | .property h _ _ => by
    have := h.length_lt
    simp only [List.length_cons] at *
    omega
  | .primary h => h.length_lt
  | .constant _ => Nat.lt_succ_self _
  | .this _ => Nat.lt_succ_self _
  | .name _ => Nat.lt_succ_self _
  | .grouping _ h _ => by
    have := h.length_lt
    simp only [List.length_cons] at *
    omega

/-- Arguments take up at least one token. -/
theorem Arguments.length_lt {tokens es rest} : Arguments tokens es rest → rest.length < tokens.length
  | .last h => h.length_lt
  | .more h _ harguments => by
    have := h.length_lt
    have := harguments.length_lt
    simp only [List.length_cons] at *
    omega

end

/-- Parameters take up at least one token. -/
theorem Parameters.length_lt {tokens params rest} (h : Parameters tokens params rest) :
    rest.length < tokens.length := by
  induction h with
  | last => exact Nat.lt_succ_self _
  | more _ _ _ ih => exact Nat.lt_succ_of_lt (Nat.lt_succ_of_lt ih)

/-- Optional parameters may take up no token. -/
theorem OptionalParameters.length_le {tokens params rest} (h : OptionalParameters tokens params rest) :
    rest.length ≤ tokens.length := by
  cases h with
  | none => exact Nat.le_refl _
  | some h => exact Nat.le_of_lt h.length_lt

/-- An optional expression may take up no token. -/
theorem OptionalExpression.length_le {tokens e rest} (h : OptionalExpression tokens e rest) :
    rest.length ≤ tokens.length := by
  cases h with
  | none => exact Nat.le_refl _
  | some h => exact Nat.le_of_lt h.length_lt

/-- The declaration of a variable takes up at least one token. -/
theorem Variable.length_lt {tokens s rest} (h : Variable tokens s rest) : rest.length < tokens.length := by
  cases h with
  | plain =>
    simp only [List.length_cons]
    omega
  | initialized _ _ h =>
    have := h.length_lt
    simp only [List.length_cons] at *
    omega

/-- The first clause of a `for` loop takes up at least its semicolon. -/
theorem InitialClause.length_lt {tokens s rest} (h : InitialClause tokens s rest) :
    rest.length < tokens.length := by
  cases h with
  | none => exact Nat.lt_succ_self _
  | «variable» _ h => exact Nat.lt_succ_of_lt h.length_lt
  | expression h => exact Nat.lt_of_succ_lt h.length_lt

mutual

/-- A statement takes up at least one token. -/
theorem Statement.length_lt {dangling tokens s rest} :
    Statement dangling tokens s rest → rest.length < tokens.length
  | .expression h _ => Nat.lt_of_succ_lt h.length_lt
  | .print _ h _ => Nat.lt_succ_of_lt (Nat.lt_of_succ_lt h.length_lt)
  | .return _ h _ => Nat.lt_succ_of_lt h.length_le
  | .block _ h _ => Nat.lt_succ_of_lt h.length_le
  | .if _ _ hcondition _ hthen => by
    have := hcondition.length_lt
    have := hthen.length_lt
    simp only [List.length_cons] at *
    omega
  | .ifElse _ _ hcondition _ hthen _ helse => by
    have := hcondition.length_lt
    have := hthen.length_lt
    have := helse.length_lt
    simp only [List.length_cons] at *
    omega
  | .while _ _ hcondition _ hbody => by
    have := hcondition.length_lt
    have := hbody.length_lt
    simp only [List.length_cons] at *
    omega
  | .for _ _ hinitial hcondition _ hincrement _ hbody => by
    have := hinitial.length_lt
    have := hcondition.length_le
    have := hincrement.length_le
    have := hbody.length_lt
    simp only [List.length_cons] at *
    omega

/-- A declaration has a token. -/
theorem Declaration.length_lt {tokens s rest} : Declaration tokens s rest → rest.length < tokens.length
  | .class _ _ _ h _ => by
    have := h.length_le
    simp only [List.length_cons] at *
    omega
  | .function _ h => Nat.lt_succ_of_lt h.length_lt
  | .variable _ h => Nat.lt_succ_of_lt h.length_lt
  | .statement h => h.length_lt

/-- Declarations may take up no token. -/
theorem Declarations.length_le {tokens ss rest} : Declarations tokens ss rest → rest.length ≤ tokens.length
  | .none => Nat.le_refl _
  | .more h hs => Nat.le_trans hs.length_le (Nat.le_of_lt h.length_lt)

/-- A function takes up at least one token. -/
theorem NamedFunction.length_lt {tokens d rest} : NamedFunction tokens d rest → rest.length < tokens.length
  | .mk _ _ hparams _ _ hbody _ => by
    have := hparams.length_le
    have := hbody.length_le
    simp only [List.length_cons] at *
    omega

/-- Methods may take up no token. -/
theorem Methods.length_le {tokens ds rest} : Methods tokens ds rest → rest.length ≤ tokens.length
  | .none => Nat.le_refl _
  | .more h hs => Nat.le_trans hs.length_le (Nat.le_of_lt h.length_lt)

end

/-- An expression begins with a token that may begin one. -/
theorem Phrase.first {r tokens e rest} :
    Phrase r tokens e rest → ∃ t others, tokens = t :: others ∧ startsExpression t = true
  | .disjunction h => h.first
  | .assign hname _ _ => ⟨_, _, rfl, by simp [startsExpression, hname]⟩
  | .set h _ _ _ _ => h.first
  | .operand h => h.first
  | .operation h _ _ => h.first
  | .unary hoperator _ => ⟨_, _, rfl, by simp [startsExpression, hoperator]⟩
  | .called h => h.first
  | .callEmpty h _ _ => h.first
  | .call h _ _ _ _ => h.first
  | .property h _ _ => h.first
  | .primary h => h.first
  | .constant hvalue => ⟨_, _, rfl, by simp [startsExpression, hvalue]⟩
  | .this hthis => ⟨_, _, rfl, by simp [startsExpression, hthis]⟩
  | .name hname => ⟨_, _, rfl, by simp [startsExpression, hname]⟩
  | .grouping hopening _ _ => ⟨_, _, rfl, by simp [startsExpression, hopening]⟩

/-- Where an expression begins, nothing begins that an expression does not begin with. -/
theorem Phrase.head_any_eq_false {r tokens e rest} {q : Token → Bool} (h : Phrase r tokens e rest)
    (hq : ∀ t, startsExpression t = true → q t = false) : tokens.head?.any q = false := by
  obtain ⟨t, others, rfl, ht⟩ := h.first
  exact hq t ht

/-- Arguments begin with a token that may begin an expression. -/
theorem Arguments.head_any_eq_false {tokens es rest} {q : Token → Bool} (h : Arguments tokens es rest)
    (hq : ∀ t, startsExpression t = true → q t = false) : tokens.head?.any q = false := by
  cases h with
  | last h => exact h.head_any_eq_false hq
  | more h _ _ => exact h.head_any_eq_false hq

/-- The only symbols that begin an expression are `(`, `!` and `-`. -/
theorem not_isSymbol_of_startsExpression {t : Token} (h : startsExpression t = true) {k : Symbol}
    (hk : k ≠ .leftParen ∧ k ≠ .bang ∧ k ≠ .minus) : t.isSymbol k = false := by
  refine Bool.eq_false_iff.mpr fun hsymbol => ?_
  have hkind := Token.isSymbol_iff.mp hsymbol
  simp [startsExpression, constant?, isUnaryOperator, Token.isKeyword, Token.isIdentifier, Token.isSymbol,
    hkind, hk] at h

/-- The only reserved words that begin an expression are constants and `this`. -/
theorem not_isKeyword_of_startsExpression {t : Token} (h : startsExpression t = true) {k : Keyword}
    (hk : k ∉ [Keyword.false, .true, .nil, .this]) : t.isKeyword k = false := by
  refine Bool.eq_false_iff.mpr fun hkeyword => ?_
  have hkind := Token.isKeyword_iff.mp hkeyword
  cases k <;>
    simp [startsExpression, constant?, isUnaryOperator, Token.isKeyword, Token.isIdentifier,
      Token.isSymbol, hkind] at h hk

/-- A primary expression does not begin with a prefix operator. -/
theorem Phrase.primary_head {tokens e rest} (h : Phrase .primary tokens e rest) :
    tokens.head?.any isUnaryOperator = false := by
  have hsymbol {t : Token} (ht : ∀ k, t.kind = .symbol k → k ≠ .bang ∧ k ≠ .minus) :
      isUnaryOperator t = false := by
    refine Bool.eq_false_iff.mpr fun hoperator => ?_
    rcases Bool.or_eq_true_iff.mp hoperator with h | h
    · exact (ht _ (Token.isSymbol_iff.mp h)).1 rfl
    · exact (ht _ (Token.isSymbol_iff.mp h)).2 rfl
  cases h with
  | constant hvalue => exact hsymbol fun k hk => by simp [constant?, hk] at hvalue
  | this hthis => exact hsymbol fun k hk => by simp [Token.isKeyword_iff.mp hthis] at hk
  | name hname => exact hsymbol fun k hk => by simp [Token.isIdentifier_iff.mp hname] at hk
  | grouping hopening _ _ =>
    refine hsymbol fun k hk => ?_
    obtain rfl : Symbol.leftParen = k := by simpa [Token.isSymbol_iff.mp hopening] using hk
    decide

/-- A call does not begin with a prefix operator. -/
theorem Phrase.call_head {tokens e rest} :
    Phrase .call tokens e rest → tokens.head?.any isUnaryOperator = false
  | .callEmpty h _ _ => h.call_head
  | .call h _ _harguments _ _ => h.call_head
  | .property h _ _ => h.call_head
  | .primary h => h.primary_head
  termination_by tokens.length - rest.length
  decreasing_by
    · have := h.length_lt
      simp only [List.length_cons] at *
      omega
    · have := h.length_lt
      have := _harguments.length_lt
      simp only [List.length_cons] at *
      omega
    · have := h.length_lt
      simp only [List.length_cons] at *
      omega

/-- A statement begins with a token that may begin one. -/
theorem Statement.first {dangling tokens s rest} (h : Statement dangling tokens s rest) :
    ∃ t others, tokens = t :: others ∧ startsPlainStatement t = true := by
  cases h with
  | expression h _ =>
    obtain ⟨t, others, rfl, ht⟩ := h.first
    exact ⟨t, others, rfl, by simp [startsPlainStatement, ht]⟩
  | print h _ _ => exact ⟨_, _, rfl, by simp [startsPlainStatement, h]⟩
  | «return» h _ _ => exact ⟨_, _, rfl, by simp [startsPlainStatement, h]⟩
  | block h _ _ => exact ⟨_, _, rfl, by simp [startsPlainStatement, h]⟩
  | «if» h _ _ _ _ => exact ⟨_, _, rfl, by simp [startsPlainStatement, h]⟩
  | ifElse h _ _ _ _ _ _ => exact ⟨_, _, rfl, by simp [startsPlainStatement, h]⟩
  | «while» h _ _ _ _ => exact ⟨_, _, rfl, by simp [startsPlainStatement, h]⟩
  | «for» h _ _ _ _ _ _ _ => exact ⟨_, _, rfl, by simp [startsPlainStatement, h]⟩

/-- A declaration or statement begins with a token that may begin one. -/
theorem Declaration.first {tokens s rest} (h : Declaration tokens s rest) :
    ∃ t others, tokens = t :: others ∧ startsDeclaration t = true := by
  cases h with
  | «class» h _ _ _ _ => exact ⟨_, _, rfl, by simp [startsDeclaration, h]⟩
  | function h _ => exact ⟨_, _, rfl, by simp [startsDeclaration, h]⟩
  | «variable» h _ => exact ⟨_, _, rfl, by simp [startsDeclaration, h]⟩
  | statement h =>
    obtain ⟨t, others, rfl, ht⟩ := h.first
    exact ⟨t, others, rfl, by simp [startsDeclaration, ht]⟩

/-- A function begins with its name. -/
theorem NamedFunction.first {tokens d rest} (h : NamedFunction tokens d rest) :
    ∃ t others, tokens = t :: others ∧ t.isIdentifier = true := by
  cases h with
  | mk hname => exact ⟨_, _, rfl, hname⟩

/-- A word that begins nothing does not begin a declaration. -/
theorem not_isKeyword_else_of_startsDeclaration {t : Token} (h : startsDeclaration t = true) :
    t.isKeyword .else = false := by
  refine Bool.eq_false_iff.mpr fun hkeyword => ?_
  have hkind := Token.isKeyword_iff.mp hkeyword
  simp [startsDeclaration, startsPlainStatement, startsExpression, constant?, isUnaryOperator,
    Token.isKeyword, Token.isIdentifier, Token.isSymbol, hkind] at h

/-- No declaration begins with a closing brace. -/
theorem not_isSymbol_rightBrace_of_startsDeclaration {t : Token} (h : startsDeclaration t = true) :
    t.isSymbol .rightBrace = false := by
  refine Bool.eq_false_iff.mpr fun hsymbol => ?_
  have hkind := Token.isSymbol_iff.mp hsymbol
  simp [startsDeclaration, startsPlainStatement, startsExpression, constant?, isUnaryOperator,
    Token.isKeyword, Token.isIdentifier, Token.isSymbol, hkind] at h

/-- What binds strongest is an expression. -/
theorem Phrase.of_primary {tokens e rest} (h : Phrase .primary tokens e rest) :
    Phrase .expression tokens e rest :=
  .disjunction (.operand (.operand (.operand (.operand (.operand (.operand (.called (.primary h))))))))

/-- No `else` stands behind a declaration if none stands behind all of them. -/
theorem Declarations.head_not_else {tokens ss rest} (h : Declarations tokens ss rest)
    (hrest : rest.head?.any (·.isKeyword .else) = false) :
    tokens.head?.any (·.isKeyword .else) = false := by
  cases h with
  | none => exact hrest
  | more h _ =>
    obtain ⟨t, others, rfl, ht⟩ := h.first
    exact not_isKeyword_else_of_startsDeclaration ht

end Lox.Grammar
