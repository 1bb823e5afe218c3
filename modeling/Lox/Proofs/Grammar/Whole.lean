import Lox.Proofs.Grammar.Rules

/-!
# Phrases by themselves

A phrase is told from what follows it by its own tokens: the tokens that are read are a phrase in front of
any others. An expression, and what else stands in the head of a statement, has only plain tokens, among
which no loop begins with `for` and no input ends.
-/

set_option autoImplicit false

namespace Lox

/-- Whether a token neither ends the input nor begins a loop with `for`. -/
def Token.isPlain (t : Token) : Bool := !t.isEof && !t.isKeyword .for

namespace Token

variable {t : Token}

/-- Symbols are plain. -/
theorem isPlain_of_isSymbol {s : Symbol} (h : t.isSymbol s = true) : t.isPlain = true := by
  simp [isPlain, isEof, Kind.isEof, isKeyword, isSymbol_iff.mp h]

/-- Reserved words other than `for` are plain. -/
theorem isPlain_of_isKeyword {k : Keyword} (h : t.isKeyword k = true) (hk : k ≠ .for) :
    t.isPlain = true := by
  simp [isPlain, isEof, Kind.isEof, isKeyword, isKeyword_iff.mp h, hk]

/-- Names are plain. -/
theorem isPlain_of_isIdentifier (h : t.isIdentifier = true) : t.isPlain = true := by
  simp [isPlain, isEof, Kind.isEof, isKeyword, isIdentifier_iff.mp h]

/-- A plain token does not end the input. -/
theorem isEof_of_isPlain (h : t.isPlain = true) : t.isEof = false := by
  simp only [isPlain, Bool.and_eq_true, Bool.not_eq_true'] at h
  exact h.1

/-- A plain token does not begin a `for` loop. -/
theorem isKeyword_for_of_isPlain (h : t.isPlain = true) : t.isKeyword .for = false := by
  simp only [isPlain, Bool.and_eq_true, Bool.not_eq_true'] at h
  exact h.2

end Token

namespace Grammar

/-- Constants are plain. -/
theorem isPlain_of_constant? {t : Token} {value : Literal} (h : constant? t = some value) :
    t.isPlain = true := by
  unfold constant? at h
  split at h <;> simp_all [Token.isPlain, Token.isEof, Kind.isEof, Token.isKeyword]

/-- Prefix operators are plain. -/
theorem isPlain_of_isUnaryOperator {t : Token} (h : isUnaryOperator t = true) : t.isPlain = true :=
  (Bool.or_eq_true_iff.mp h).elim Token.isPlain_of_isSymbol Token.isPlain_of_isSymbol

/-- Infix operators are plain. -/
theorem Level.isPlain_of_isOperator {l : Level} {t : Token} (h : l.isOperator t = true) :
    t.isPlain = true := by
  cases l with
  | disjunction => exact Token.isPlain_of_isKeyword h (by decide)
  | conjunction => exact Token.isPlain_of_isKeyword h (by decide)
  | equality => exact (Bool.or_eq_true_iff.mp h).elim Token.isPlain_of_isSymbol Token.isPlain_of_isSymbol
  | term => exact (Bool.or_eq_true_iff.mp h).elim Token.isPlain_of_isSymbol Token.isPlain_of_isSymbol
  | factor => exact (Bool.or_eq_true_iff.mp h).elim Token.isPlain_of_isSymbol Token.isPlain_of_isSymbol
  | comparison =>
    simp only [isOperator, isComparisonOperator, Bool.or_eq_true] at h
    obtain ((h | h) | h) | h := h <;> exact Token.isPlain_of_isSymbol h

/-- Tokens are a phrase of a rule by themselves, whatever comes behind them, and all of them are plain. -/
structure Whole (P : List Token → List Token → Prop) (read : List Token) : Prop where
  stands : ∀ rest, P (read ++ rest) rest
  plain : read.all Token.isPlain = true

/-- A whole phrase is one with nothing behind it. -/
theorem Whole.alone {P : List Token → List Token → Prop} {read : List Token} (h : Whole P read) :
    P read [] := by
  simpa using h.stands []

/-- Tokens begin with a whole phrase. -/
def BeginsWhole (P : List Token → List Token → Prop) (tokens rest : List Token) : Prop :=
  ∃ read, tokens = read ++ rest ∧ Whole P read

/-- Tokens up to the end of a phrase are a phrase by themselves. -/
theorem BeginsWhole.whole {P : List Token → List Token → Prop} {read : List Token}
    (h : BeginsWhole P read []) : Whole P read := by
  obtain ⟨a, ha, hwhole⟩ := h
  rwa [ha, List.append_nil]

mutual

/-- Tokens that begin with an expression begin with a whole one. -/
theorem Phrase.whole {r tokens e rest} : Phrase r tokens e rest →
    BeginsWhole (fun tokens rest => Phrase r tokens e rest) tokens rest
  | .disjunction h =>
    have ⟨a, ha, hwhole⟩ := h.whole
    ⟨a, ha, fun rest => .disjunction (hwhole.stands rest), hwhole.plain⟩
  | @Phrase.assign name equals _ _ _ hname hequals hvalue =>
    have ⟨a, ha, hwhole⟩ := hvalue.whole
    ⟨name :: equals :: a, by rw [ha]; rfl, fun rest => .assign hname hequals (hwhole.stands rest), by
      simp [Token.isPlain_of_isIdentifier hname, Token.isPlain_of_isSymbol hequals, hwhole.plain]⟩
  | @Phrase.set _ _ dot name equals _ _ _ hobject hdot hname hequals hvalue =>
    have ⟨a, ha, hwhole⟩ := hobject.whole
    have ⟨b, hb, hwhole'⟩ := hvalue.whole
    ⟨a ++ dot :: name :: equals :: b, by simp [ha, hb], fun rest => by
      simpa using .set (hwhole.stands _) hdot hname hequals (hwhole'.stands rest), by
      simp [Token.isPlain_of_isIdentifier hname, Token.isPlain_of_isSymbol hequals,
        Token.isPlain_of_isSymbol hdot, hwhole.plain, hwhole'.plain]⟩
  | .operand h =>
    have ⟨a, ha, hwhole⟩ := h.whole
    ⟨a, ha, fun rest => .operand (hwhole.stands rest), hwhole.plain⟩
  | @Phrase.operation _ _ _ operator _ _ _ hleft hoperator hright =>
    have ⟨a, ha, hwhole⟩ := hleft.whole
    have ⟨b, hb, hwhole'⟩ := hright.whole
    ⟨a ++ operator :: b, by simp [ha, hb], fun rest => by
      simpa using .operation (hwhole.stands _) hoperator (hwhole'.stands rest), by
      simp [Level.isPlain_of_isOperator hoperator, hwhole.plain, hwhole'.plain]⟩
  | @Phrase.unary operator _ _ _ hoperator h =>
    have ⟨a, ha, hwhole⟩ := h.whole
    ⟨operator :: a, by rw [ha]; rfl, fun rest => .unary hoperator (hwhole.stands rest), by
      simp [isPlain_of_isUnaryOperator hoperator, hwhole.plain]⟩
  | .called h =>
    have ⟨a, ha, hwhole⟩ := h.whole
    ⟨a, ha, fun rest => .called (hwhole.stands rest), hwhole.plain⟩
  | @Phrase.callEmpty _ _ opening closing _ h hopening hclosing =>
    have ⟨a, ha, hwhole⟩ := h.whole
    ⟨a ++ [opening, closing], by simp [ha], fun rest => by
      simpa using .callEmpty (hwhole.stands _) hopening hclosing, by
      simp [Token.isPlain_of_isSymbol hopening, Token.isPlain_of_isSymbol hclosing,
        hwhole.plain]⟩
  | @Phrase.call _ _ opening _ _ closing _ h hopening harguments hcount hclosing =>
    have ⟨a, ha, hwhole⟩ := h.whole
    have ⟨b, hb, hwhole'⟩ := harguments.whole
    ⟨a ++ opening :: b ++ [closing], by simp [ha, hb], fun rest => by
      simpa using .call (hwhole.stands _) hopening (hwhole'.stands (closing :: rest)) hcount hclosing, by
      simp [Token.isPlain_of_isSymbol hopening, Token.isPlain_of_isSymbol hclosing,
        hwhole.plain, hwhole'.plain]⟩
  | @Phrase.property _ _ dot name _ h hdot hname =>
    have ⟨a, ha, hwhole⟩ := h.whole
    ⟨a ++ [dot, name], by simp [ha], fun rest => by
      simpa using .property (hwhole.stands _) hdot hname, by
      simp [Token.isPlain_of_isSymbol hdot, Token.isPlain_of_isIdentifier hname,
        hwhole.plain]⟩
  | .primary h =>
    have ⟨a, ha, hwhole⟩ := h.whole
    ⟨a, ha, fun rest => .primary (hwhole.stands rest), hwhole.plain⟩
  | @Phrase.constant t _ _ hvalue =>
    ⟨[t], rfl, fun _ => .constant hvalue, by simp [isPlain_of_constant? hvalue]⟩
  | @Phrase.this t _ hthis =>
    ⟨[t], rfl, fun _ => .this hthis, by simp [Token.isPlain_of_isKeyword hthis]⟩
  | @Phrase.name t _ hname =>
    ⟨[t], rfl, fun _ => .name hname, by simp [Token.isPlain_of_isIdentifier hname]⟩
  | @Phrase.grouping opening _ _ closing _ hopening h hclosing =>
    have ⟨a, ha, hwhole⟩ := h.whole
    ⟨opening :: a ++ [closing], by simp [ha], fun rest => by
      simpa using .grouping hopening (hwhole.stands (closing :: rest)) hclosing, by
      simp [Token.isPlain_of_isSymbol hopening, Token.isPlain_of_isSymbol hclosing,
        hwhole.plain]⟩

/-- Tokens that begin with arguments begin with whole ones. -/
theorem Arguments.whole {tokens es rest} : Arguments tokens es rest →
    BeginsWhole (fun tokens rest => Arguments tokens es rest) tokens rest
  | .last h =>
    have ⟨a, ha, hwhole⟩ := h.whole
    ⟨a, ha, fun rest => .last (hwhole.stands rest), hwhole.plain⟩
  | @Arguments.more _ _ comma _ _ _ h hcomma harguments =>
    have ⟨a, ha, hwhole⟩ := h.whole
    have ⟨b, hb, hwhole'⟩ := harguments.whole
    ⟨a ++ comma :: b, by simp [ha, hb], fun rest => by
      simpa using .more (hwhole.stands _) hcomma (hwhole'.stands rest), by
      simp [Token.isPlain_of_isSymbol hcomma, hwhole.plain, hwhole'.plain]⟩

end

/-- Tokens that begin with an optional expression begin with a whole one. -/
theorem OptionalExpression.whole {tokens e rest} (h : OptionalExpression tokens e rest) :
    BeginsWhole (fun tokens rest => OptionalExpression tokens e rest) tokens rest := by
  cases h with
  | none => exact ⟨[], rfl, fun _ => .none, by simp⟩
  | some h =>
    obtain ⟨a, ha, hwhole⟩ := h.whole
    exact ⟨a, ha, fun rest => .some (hwhole.stands rest), hwhole.plain⟩

/-- Tokens that begin with parameters begin with whole ones. -/
theorem Parameters.whole {tokens params rest} (h : Parameters tokens params rest) :
    BeginsWhole (fun tokens rest => Parameters tokens params rest) tokens rest := by
  induction h with
  | @last name _ hname =>
    exact ⟨[name], rfl, fun _ => .last hname, by simp [Token.isPlain_of_isIdentifier hname]⟩
  | @more name comma _ _ _ hname hcomma _ ih =>
    obtain ⟨a, rfl, hwhole⟩ := ih
    exact ⟨name :: comma :: a, rfl, fun rest => .more hname hcomma (hwhole.stands rest), by
      simp [Token.isPlain_of_isIdentifier hname, Token.isPlain_of_isSymbol hcomma, hwhole.plain]⟩

/-- Tokens that begin with optional parameters begin with whole ones. -/
theorem OptionalParameters.whole {tokens params rest} (h : OptionalParameters tokens params rest) :
    BeginsWhole (fun tokens rest => OptionalParameters tokens params rest) tokens rest := by
  cases h with
  | none => exact ⟨[], rfl, fun _ => .none, by simp⟩
  | some h hcount =>
    obtain ⟨a, ha, hwhole⟩ := h.whole
    exact ⟨a, ha, fun rest => .some (hwhole.stands rest) hcount, hwhole.plain⟩

/-- Tokens that begin with the declaration of a variable begin with a whole one. -/
theorem Variable.whole {tokens s rest} (h : Variable tokens s rest) :
    BeginsWhole (fun tokens rest => Variable tokens s rest) tokens rest := by
  cases h with
  | @plain name semicolon _ hname hsemicolon =>
    exact ⟨[name, semicolon], rfl, fun _ => .plain hname hsemicolon, by
      simp [Token.isPlain_of_isIdentifier hname, Token.isPlain_of_isSymbol hsemicolon]⟩
  | @initialized name equals _ _ semicolon _ hname hequals h hsemicolon =>
    obtain ⟨a, rfl, hwhole⟩ := h.whole
    exact ⟨name :: equals :: a ++ [semicolon], by simp, fun rest => by
      simpa using .initialized hname hequals (hwhole.stands (semicolon :: rest)) hsemicolon, by
      simp [Token.isPlain_of_isIdentifier hname, Token.isPlain_of_isSymbol hequals,
        Token.isPlain_of_isSymbol hsemicolon, hwhole.plain]⟩

/-- Tokens that begin with the first clause of a `for` loop begin with a whole one. -/
theorem InitialClause.whole {tokens s rest} (h : InitialClause tokens s rest) :
    BeginsWhole (fun tokens rest => InitialClause tokens s rest) tokens rest := by
  cases h with
  | @none semicolon _ hsemicolon =>
    exact ⟨[semicolon], rfl, fun _ => .none hsemicolon, by simp [Token.isPlain_of_isSymbol hsemicolon]⟩
  | @«variable» keyword _ _ _ hkeyword h =>
    obtain ⟨a, rfl, hwhole⟩ := h.whole
    exact ⟨keyword :: a, rfl, fun rest => .variable hkeyword (hwhole.stands rest), by
      simp [Token.isPlain_of_isKeyword hkeyword, hwhole.plain]⟩
  | @expression _ _ semicolon _ h hsemicolon =>
    obtain ⟨a, rfl, hwhole⟩ := h.whole
    exact ⟨a ++ [semicolon], by simp, fun rest => by
      simpa using .expression (hwhole.stands (semicolon :: rest)) hsemicolon, by
      simp [Token.isPlain_of_isSymbol hsemicolon, hwhole.plain]⟩

end Grammar

end Lox
