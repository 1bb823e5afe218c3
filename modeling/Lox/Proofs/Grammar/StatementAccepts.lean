import Lox.Proofs.Grammar.ExpressionAccepts
import Lox.Proofs.Grammar.StatementFollows

/-!
# Statements are accepted

The parsers of statements and declarations accept what the rules describe, with its tree. The token behind
decides only whether an `if` is over: no `else` may stand behind a statement to which it would belong.
-/

set_option autoImplicit false

namespace Lox.Grammar

open Lox.Parser

/-- A parser accepts the statements where at most `n` tokens are left. -/
def AcceptsStatements (n : Nat) (p : Parser Stmt) : Prop :=
  ∀ dangling tokens s rest, tokens.length ≤ n → Statement dangling tokens s rest →
    (dangling = true → rest.head?.any (·.isKeyword .else) = false) →
      Accepts (·.relabel .anonymous) p tokens s rest

/-- A parser accepts the declarations where at most `n` tokens are left. -/
def AcceptsDeclarations (n : Nat) (p : Parser (Option Stmt)) : Prop :=
  ∀ tokens s rest, tokens.length ≤ n → Declaration tokens s rest →
    rest.head?.any (·.isKeyword .else) = false →
      Accepts (Option.map (·.relabel .anonymous)) p tokens (some s) rest

/-- A parser that meets no error recovers from none. -/
theorem recovering_accepts {p : Parser Stmt} {tokens rest : List Token} {s : Stmt}
    (h : Accepts (·.relabel .anonymous) p tokens s rest) :
    Accepts (Option.map (·.relabel .anonymous)) (recovering p) tokens (some s) rest := by
  intro start hstart
  obtain ⟨a, t, hrun, rfl, ht, herrors⟩ := h start hstart
  refine ⟨some a, t, ?_, rfl, ht, herrors⟩
  unfold recovering
  rw [hrun]

section Lists

variable {declaration : Parser (Option Stmt)} {n bound : Nat}
  (hdeclaration : AcceptsDeclarations n declaration)
include hdeclaration

/-- Declarations are accepted up to the end or a token that stops them. -/
theorem declarationsUntil_accepts {stop : Token → Bool}
    (hstop : ∀ t, startsDeclaration t = true → stop t = false) {tokens rest : List Token}
    {ss : List Stmt} (h : Declarations tokens ss rest) (hrest : rest = [] ∨ rest.head?.any stop = true)
    (helse : rest.head?.any (·.isKeyword .else) = false) (hn : tokens.length ≤ n)
    (hbound : tokens.length ≤ bound) :
    Accepts (Stmt.relabelAll .anonymous) (declarationsUntil stop declaration bound) tokens ss rest := by
  induction ss generalizing tokens bound with
  | nil =>
    cases h
    cases bound with
    | zero => exact .pure rfl
    | succ bound =>
      refine (atEnd_accepts _).andThen ((sees_accepts stop _).andThen ?_)
      rw [if_pos (by simpa using hrest)]
      exact .pure rfl
  | cons s ss ih =>
    cases h with
    | more h hs =>
      have hlength := h.length_lt
      obtain ⟨t, tokens, rfl, ht⟩ := h.first
      obtain ⟨bound, rfl⟩ := Nat.exists_eq_add_of_le' (show 1 ≤ bound by omega)
      refine (atEnd_accepts _).andThen ((sees_accepts stop _).andThen ?_)
      rw [if_neg (by simp [hstop t ht])]
      refine (hdeclaration _ _ _ hn h (hs.head_not_else helse)).bind fun first hfirst =>
        (ih hs (by omega) (by omega)).bind fun others hothers => .pure ?_
      obtain ⟨a, rfl, rfl⟩ := Option.map_eq_some_iff.mp hfirst
      exact congrArg (a.relabel .anonymous :: ·) hothers

/-- A block is accepted up to its closing brace. -/
theorem block_accepts {tokens rest : List Token} {ss : List Stmt} {closing : Token}
    (h : Declarations tokens ss (closing :: rest)) (hclosing : closing.isSymbol .rightBrace = true)
    (hn : tokens.length ≤ n) (hbound : tokens.length ≤ bound) :
    Accepts (Stmt.relabelAll .anonymous) (block bound declaration) tokens ss rest := by
  have hnotElse : (closing :: rest).head?.any (·.isKeyword .else) = false := by
    simp [Token.isKeyword, Token.isSymbol_iff.mp hclosing]
  exact (declarationsUntil_accepts hdeclaration (fun _ => not_isSymbol_rightBrace_of_startsDeclaration) h
    (.inr hclosing) hnotElse hn hbound).bind fun _ hbody => (expect_accepts hclosing _).andThen (.pure hbody)

omit hdeclaration in
/-- At most eight parameters are accepted, with the parenthesis behind them. -/
theorem parameters_accepts {tokens params : List Token} {closing : Token} {rest : List Token} {count : Nat}
    (h : Parameters tokens params (closing :: rest)) (hclosing : closing.isSymbol .rightParen = true)
    (hbound : tokens.length ≤ bound) (hcount : count + params.length ≤ maxArity) :
    Accepts id (parameters bound count) tokens params (closing :: rest) := by
  induction params generalizing tokens bound count with
  | nil => cases h
  | cons param params ih =>
    have hlength := h.length_lt
    obtain ⟨bound, rfl⟩ := Nat.exists_eq_add_of_le' (show 1 ≤ bound by omega)
    rw [List.length_cons] at hcount
    rw [parameters, if_neg (show ¬ maxArity ≤ count by omega)]
    cases h with
    | last hname =>
      refine (expect_accepts hname _).andThen ((accepts_false ?_).andThen (.pure rfl))
      simp [Token.isSymbol, Token.isSymbol_iff.mp hclosing]
    | more hname hcomma h =>
      simp only [List.length_cons] at hbound
      exact (expect_accepts hname _).andThen ((accepts_true hcomma).andThen
        ((ih h (by omega) (by omega)).andThen (.pure rfl)))

/-- A function is accepted from its name on. -/
theorem function_accepts (role : FunctionRole) {tokens rest : List Token} {d : FunctionDecl}
    (h : NamedFunction tokens d rest) (hn : tokens.length ≤ n) (hbound : tokens.length ≤ bound) :
    Accepts (·.relabel .anonymous) (function bound role declaration) tokens d rest := by
  cases h with
  | @mk _ _ tokens params closing brace others ss _ _ hname hopening hparams hclosing hbrace hbody hend =>
    have hlength := hparams.length_le
    simp only [List.length_cons] at hn hbound hlength
    refine (expect_accepts hname _).andThen ((expect_accepts hopening _).andThen
      (Accepts.optional id (closing :: brace :: others) (b := params) ?_ fun params' hparams' => ?_))
    · cases hparams with
      | none => exact .inl ⟨hclosing, rfl, rfl⟩
      | some h hcount =>
        refine .inr ⟨?_, parameters_accepts h hclosing (by omega) (by rw [Nat.zero_add]; exact hcount)⟩
        cases h with
        | last hname => simp [Token.isSymbol, Token.isIdentifier_iff.mp hname]
        | more hname _ _ => simp [Token.isSymbol, Token.isIdentifier_iff.mp hname]
    · obtain rfl : params' = params := hparams'
      refine (expect_accepts hclosing _).andThen ((expect_accepts hbrace _).andThen
        ((block_accepts hdeclaration hbody hend (by omega) (by omega)).bind fun body hss => .pure ?_))
      have hsame : params'.map (·.relabel .anonymous) = params' := List.map_id' params'
      rw [FunctionDecl.relabel, hsame, hss]
      rfl

/-- Methods are accepted up to the closing brace of their class. -/
theorem methods_accepts (role : FunctionRole) {tokens rest : List Token} {ds : List FunctionDecl}
    {closing : Token} {count : Nat} (h : Methods tokens ds (closing :: rest))
    (hclosing : closing.isSymbol .rightBrace = true) (hn : tokens.length ≤ n)
    (hbound : tokens.length ≤ bound) (hcount : tokens.length ≤ count) :
    Accepts (FunctionDecl.relabelAll .anonymous) (methods (function bound role declaration) count) tokens
      ds (closing :: rest) := by
  induction ds generalizing tokens count with
  | nil =>
    cases h
    rw [List.length_cons] at hcount
    obtain ⟨count, rfl⟩ := Nat.exists_eq_add_of_le' (show 1 ≤ count by omega)
    refine (atEnd_accepts _).andThen ((sees_accepts _ _).andThen ?_)
    rw [if_pos (by simp [hclosing])]
    exact .pure rfl
  | cons d ds ih =>
    cases h with
    | more h hs =>
      have hlength := h.length_lt
      obtain ⟨count, rfl⟩ := Nat.exists_eq_add_of_le' (show 1 ≤ count by omega)
      obtain ⟨name, tokens, rfl, hname⟩ := h.first
      refine (atEnd_accepts _).andThen ((sees_accepts _ _).andThen ?_)
      rw [if_neg (by simp [Token.isSymbol, Token.isIdentifier_iff.mp hname])]
      refine (function_accepts hdeclaration role h hn hbound).bind fun first hfirst =>
        (ih hs (by omega) (by omega) (by omega)).bind fun others hothers => .pure ?_
      rw [FunctionDecl.relabelAll, hfirst, hothers]

/-- A class is accepted behind its keyword. -/
theorem classDeclaration_accepts {name opening : Token} {tokens rest : List Token} {ds : List FunctionDecl}
    {closing : Token} (hname : name.isIdentifier = true) (hopening : opening.isSymbol .leftBrace = true)
    (h : Methods tokens ds (closing :: rest)) (hclosing : closing.isSymbol .rightBrace = true)
    (hn : tokens.length ≤ n) (hbound : tokens.length ≤ bound) :
    Accepts (·.relabel .anonymous) (classDeclaration bound declaration) (name :: opening :: tokens)
      (.class name ds) rest := by
  refine (expect_accepts hname _).andThen ((expect_accepts hopening _).andThen
    ((methods_accepts hdeclaration .method h hclosing hn hbound hbound).bind fun ms hms =>
      (expect_accepts hclosing _).andThen (.pure ?_)))
  rw [Stmt.relabel, hms]
  rfl

end Lists

section Simple

variable {n : Nat} {tokens rest : List Token}

/-- An expression that may be left out before the symbol that ends it. -/
theorem optionalExpression_cases {e? : Option Expr} {closing : Token} {k : Symbol}
    (h : OptionalExpression tokens e? (closing :: rest)) (hclosing : closing.isSymbol k = true)
    (hk : strength (.symbol k) = 0 ∧ k ≠ .bang) (hn : tokens.length ≤ n) :
    (tokens.head?.any (·.isSymbol k) = true ∧ closing :: rest = tokens ∧ e? = none) ∨
      (tokens.head?.any (·.isSymbol k) = false ∧ ∃ e, e? = some e ∧
        Accepts (·.relabel .anonymous) (expression n) tokens e (closing :: rest)) := by
  cases h with
  | none => exact .inl ⟨hclosing, rfl, rfl⟩
  | some h =>
    refine .inr ⟨h.head_any_eq_false fun t ht => not_isSymbol_of_startsExpression ht ?_, _, rfl, ?_⟩
    · refine ⟨?_, hk.2, ?_⟩ <;> rintro rfl <;> exact absurd hk.1 (by decide)
    · exact expression_accepts n _ _ _ hn h (ends_of_isSymbol hclosing hk.1)

/-- An expression that may be left out, as the parsers read it. -/
theorem optionalExpression_accepts {γ δ : Type} {view : γ → δ} {f : Option Expr → Parser γ} {e? : Option Expr}
    {closing : Token} {others : List Token} {c : δ} {k : Symbol}
    (h : OptionalExpression tokens e? (closing :: others)) (hclosing : closing.isSymbol k = true)
    (hk : strength (.symbol k) = 0 ∧ k ≠ .bang) (hn : tokens.length ≤ n)
    (hf : ∀ a, a.map (·.relabel .anonymous) = e? → Accepts view (f a) (closing :: others) c rest) :
    Accepts view (sees (·.isSymbol k) >>= fun isAbsent =>
      if isAbsent = true then pure none >>= f else (some <$> expression n) >>= f) tokens c rest := by
  refine Accepts.optional (Option.map (·.relabel .anonymous)) _ ?_ hf
  rcases optionalExpression_cases h hclosing hk hn with ⟨hskip, hrest, rfl⟩ | ⟨hskip, e, rfl, he⟩
  · exact .inl ⟨hskip, hrest, rfl⟩
  · exact .inr ⟨hskip, he.some⟩

/-- The declaration of a variable is accepted behind its keyword. -/
theorem variableDeclaration_accepts {s : Stmt} (h : Variable tokens s rest) (hn : tokens.length ≤ n) :
    Accepts (·.relabel .anonymous) (variableDeclaration n) tokens s rest := by
  cases h with
  | plain hname hsemicolon =>
    refine (expect_accepts hname _).andThen ((accepts_false ?_).andThen
      ((expect_accepts hsemicolon _).andThen (.pure rfl)))
    simp [Token.isSymbol, Token.isSymbol_iff.mp hsemicolon]
  | initialized hname hequals h hsemicolon =>
    simp only [List.length_cons] at hn
    refine (expect_accepts hname _).andThen ((accepts_true hequals).andThen
      ((expression_accepts n _ _ _ (by omega) h (ends_of_isSymbol hsemicolon rfl)).some.bind
        fun initial hinitial => (expect_accepts hsemicolon _).andThen (.pure ?_)))
    exact congrArg (Stmt.variable _) hinitial

/-- An expression is accepted with its semicolon. -/
theorem expressionStatement_accepts {e : Expr} {semicolon : Token}
    (h : Phrase .expression tokens e (semicolon :: rest)) (hsemicolon : semicolon.isSymbol .semicolon = true)
    (hn : tokens.length ≤ n) :
    Accepts (·.relabel .anonymous) (expressionStatement n) tokens (.expression e) rest :=
  (expression_accepts n _ _ _ hn h (ends_of_isSymbol hsemicolon rfl)).bind fun _ ha =>
    (expect_accepts hsemicolon _).andThen (.pure (congrArg Stmt.expression ha))

/-- A print statement is accepted behind its keyword. -/
theorem printStatement_accepts {e : Expr} {semicolon : Token}
    (h : Phrase .expression tokens e (semicolon :: rest)) (hsemicolon : semicolon.isSymbol .semicolon = true)
    (hn : tokens.length ≤ n) :
    Accepts (·.relabel .anonymous) (printStatement n) tokens (.print e) rest :=
  (expression_accepts n _ _ _ hn h (ends_of_isSymbol hsemicolon rfl)).bind fun _ ha =>
    (expect_accepts hsemicolon _).andThen (.pure (congrArg Stmt.print ha))

/-- A return statement is accepted behind its keyword. -/
theorem returnStatement_accepts (keyword : Token) {e? : Option Expr} {semicolon : Token}
    (h : OptionalExpression tokens e? (semicolon :: rest)) (hsemicolon : semicolon.isSymbol .semicolon = true)
    (hn : tokens.length ≤ n) :
    Accepts (·.relabel .anonymous) (returnStatement n keyword) tokens (.return keyword e?) rest := by
  refine optionalExpression_accepts h hsemicolon (by decide) hn fun value hvalue =>
    (expect_accepts hsemicolon _).andThen (.pure ?_)
  exact congrArg (Stmt.return keyword) hvalue

/-- The first clause of a `for` loop is accepted with its semicolon. -/
theorem initialClause_accepts {s? : Option Stmt} (h : InitialClause tokens s? rest)
    (hn : tokens.length ≤ n) :
    Accepts (Option.map (·.relabel .anonymous)) (initialClause n) tokens s? rest := by
  cases h with
  | none hsemicolon => exact (accepts_true hsemicolon).andThen (.pure rfl)
  | «variable» hkeyword h =>
    rw [List.length_cons] at hn
    refine (accepts_false ?_).andThen ((accepts_true hkeyword).andThen
      (variableDeclaration_accepts h (by omega)).some)
    simp [Token.isSymbol, Token.isKeyword_iff.mp hkeyword]
  | expression h hsemicolon =>
    refine (accepts_false ?_).andThen ((accepts_false ?_).andThen
      (expressionStatement_accepts h hsemicolon hn).some)
    · exact h.head_any_eq_false fun t ht => not_isSymbol_of_startsExpression ht (by decide)
    · exact h.head_any_eq_false fun t ht => not_isKeyword_of_startsExpression ht (by decide)

end Simple

section Branches

variable {n bound : Nat} {tokens rest : List Token} {nested : Parser Stmt} (hnested : AcceptsStatements n nested)
include hnested

/-- An `if` statement without `else` is accepted behind its keyword, if no `else` follows. -/
theorem ifStatement_accepts {opening closing : Token} {others : List Token} {e : Expr} {dangling : Bool}
    {thenBranch : Stmt} (hopening : opening.isSymbol .leftParen = true)
    (hcondition : Phrase .expression tokens e (closing :: others))
    (hclosing : closing.isSymbol .rightParen = true) (hthen : Statement dangling others thenBranch rest)
    (helse : rest.head?.any (·.isKeyword .else) = false) (hn : tokens.length ≤ n)
    (hbound : tokens.length ≤ bound) :
    Accepts (·.relabel .anonymous) (ifStatement bound nested) (opening :: tokens)
      (.conditional e thenBranch none) rest := by
  have hshorter := hcondition.length_lt
  rw [List.length_cons] at hshorter
  refine (expect_accepts hopening _).andThen
    ((expression_accepts bound _ _ _ hbound hcondition (ends_of_isSymbol hclosing rfl)).bind fun a ha =>
      (expect_accepts hclosing _).andThen
        ((hnested _ _ _ _ (by omega) hthen fun _ => helse).bind fun b hb =>
          (accepts_false helse).andThen (.pure ?_)))
  rw [Stmt.relabel, ha, hb]

/-- An `if` statement with `else` is accepted behind its keyword. -/
theorem ifElseStatement_accepts {opening closing : Token} {others : List Token} {e : Expr}
    {thenBranch elseBranch : Stmt} {t : Token} {more : List Token} {dangling : Bool}
    (hopening : opening.isSymbol .leftParen = true)
    (hcondition : Phrase .expression tokens e (closing :: others))
    (hclosing : closing.isSymbol .rightParen = true) (hthen : Statement false others thenBranch (t :: more))
    (ht : t.isKeyword .else = true) (helse : Statement dangling more elseBranch rest)
    (hdangling : dangling = true → rest.head?.any (·.isKeyword .else) = false)
    (hn : tokens.length ≤ n) (hbound : tokens.length ≤ bound) :
    Accepts (·.relabel .anonymous) (ifStatement bound nested) (opening :: tokens)
      (.conditional e thenBranch (some elseBranch)) rest := by
  have hshorter := hcondition.length_lt
  have hshorter' := hthen.length_lt
  rw [List.length_cons] at hshorter hshorter'
  refine (expect_accepts hopening _).andThen
    ((expression_accepts bound _ _ _ hbound hcondition (ends_of_isSymbol hclosing rfl)).bind fun a ha =>
      (expect_accepts hclosing _).andThen
        ((hnested _ _ _ _ (by omega) hthen fun h => (by cases h)).bind fun b hb =>
          (accepts_true ht).andThen
            ((hnested _ _ _ _ (by omega) helse hdangling).some.bind fun c hc => .pure ?_)))
  obtain ⟨c, rfl, rfl⟩ := Option.map_eq_some_iff.mp hc
  rw [Stmt.relabel, ha, hb]

/-- A `while` statement is accepted behind its keyword. -/
theorem whileStatement_accepts {opening closing : Token} {others : List Token} {e : Expr} {dangling : Bool}
    {body : Stmt} (hopening : opening.isSymbol .leftParen = true)
    (hcondition : Phrase .expression tokens e (closing :: others))
    (hclosing : closing.isSymbol .rightParen = true) (hbody : Statement dangling others body rest)
    (hdangling : dangling = true → rest.head?.any (·.isKeyword .else) = false)
    (hn : tokens.length ≤ n) (hbound : tokens.length ≤ bound) :
    Accepts (·.relabel .anonymous) (whileStatement bound nested) (opening :: tokens) (.loop e body) rest := by
  have hshorter := hcondition.length_lt
  rw [List.length_cons] at hshorter
  refine (expect_accepts hopening _).andThen
    ((expression_accepts bound _ _ _ hbound hcondition (ends_of_isSymbol hclosing rfl)).bind fun a ha =>
      (expect_accepts hclosing _).andThen
        ((hnested _ _ _ _ (by omega) hbody hdangling).bind fun b hb => .pure ?_))
  rw [Stmt.relabel, ha, hb]

/-- A `for` statement is accepted behind its keyword. -/
theorem forStatement_accepts {opening semicolon closing : Token} {others more last : List Token}
    {initial : Option Stmt} {condition increment : Option Expr} {dangling : Bool} {body : Stmt}
    (hopening : opening.isSymbol .leftParen = true) (hinitial : InitialClause tokens initial others)
    (hcondition : OptionalExpression others condition (semicolon :: more))
    (hsemicolon : semicolon.isSymbol .semicolon = true)
    (hincrement : OptionalExpression more increment (closing :: last))
    (hclosing : closing.isSymbol .rightParen = true) (hbody : Statement dangling last body rest)
    (hdangling : dangling = true → rest.head?.any (·.isKeyword .else) = false)
    (hn : tokens.length ≤ n) (hbound : tokens.length ≤ bound) :
    Accepts (·.relabel .anonymous) (forStatement bound nested) (opening :: tokens)
      (forLoop initial (condition.getD (.literal .true)) increment body) rest := by
  have hshorter := hinitial.length_lt
  have hshorter' := hcondition.length_le
  have hshorter'' := hincrement.length_le
  simp only [List.length_cons] at hshorter' hshorter''
  have hpresent : (others.head?.any (·.isSymbol .semicolon) = true ∧ semicolon :: more = others ∧
      (Expr.literal .true).relabel .anonymous = condition.getD (.literal .true)) ∨
      (others.head?.any (·.isSymbol .semicolon) = false ∧ Accepts (·.relabel .anonymous)
        (expression bound) others (condition.getD (.literal .true)) (semicolon :: more)) := by
    rcases optionalExpression_cases hcondition hsemicolon (by decide) (n := bound) (by omega) with
      ⟨hskip, hrest, rfl⟩ | ⟨hskip, e, rfl, he⟩
    · exact .inl ⟨hskip, hrest, rfl⟩
    · exact .inr ⟨hskip, he⟩
  refine (expect_accepts hopening _).andThen ((initialClause_accepts hinitial hbound).bind fun a ha =>
    Accepts.optional _ _ hpresent fun b hb => (expect_accepts hsemicolon _).andThen
      (optionalExpression_accepts hincrement hclosing (by decide) (by omega) fun c hc =>
        (expect_accepts hclosing _).andThen
          ((hnested _ _ _ _ (by omega) hbody hdangling).bind fun d hd => .pure ?_)))
  rw [forLoop_relabel, ha, hb, hc, hd]

end Branches

section Levels

variable {n : Nat} {nested : Parser Stmt} {declaration : Parser (Option Stmt)}
  (hnested : AcceptsStatements n nested) (hdeclaration : AcceptsDeclarations n declaration)
include hnested hdeclaration

/-- All statements are accepted if those nested in them are. -/
theorem statementWith_accepts : AcceptsStatements (n + 1) (statementWith (n + 1) nested declaration) := by
  intro dangling tokens s rest htokens h hdangling
  cases h with
  | expression h hsemicolon =>
    obtain ⟨t, tokens, rfl, ht⟩ := h.first
    refine peek_accepts.andThen ?_
    split <;> rename_i hkind
    all_goals first
      | exact expressionStatement_accepts h hsemicolon htokens
      | simp [startsExpression, constant?, isUnaryOperator, Token.isKeyword, Token.isIdentifier,
          Token.isSymbol, hkind] at ht
  | print hkeyword h hsemicolon =>
    rw [List.length_cons] at htokens
    refine peek_accepts.andThen ?_
    rw [Token.isKeyword_iff.mp hkeyword]
    exact advance_accepts.andThen (printStatement_accepts h hsemicolon (by omega))
  | «return» hkeyword h hsemicolon =>
    rw [List.length_cons] at htokens
    refine peek_accepts.andThen ?_
    rw [Token.isKeyword_iff.mp hkeyword]
    exact advance_accepts.andThen (returnStatement_accepts _ h hsemicolon (by omega))
  | block hopening h hclosing =>
    rw [List.length_cons] at htokens
    refine peek_accepts.andThen ?_
    rw [Token.isSymbol_iff.mp hopening]
    exact advance_accepts.andThen ((block_accepts hdeclaration h hclosing (by omega) (by omega)).map
      fun a ha => congrArg Stmt.block ha)
  | «if» hkeyword hopening hcondition hclosing hthen =>
    simp only [List.length_cons] at htokens
    refine peek_accepts.andThen ?_
    rw [Token.isKeyword_iff.mp hkeyword]
    exact advance_accepts.andThen (ifStatement_accepts hnested hopening hcondition hclosing hthen
      (hdangling rfl) (by omega) (by omega))
  | ifElse hkeyword hopening hcondition hclosing hthen ht helse =>
    simp only [List.length_cons] at htokens
    refine peek_accepts.andThen ?_
    rw [Token.isKeyword_iff.mp hkeyword]
    exact advance_accepts.andThen (ifElseStatement_accepts hnested hopening hcondition hclosing hthen ht
      helse hdangling (by omega) (by omega))
  | «while» hkeyword hopening hcondition hclosing hbody =>
    simp only [List.length_cons] at htokens
    refine peek_accepts.andThen ?_
    rw [Token.isKeyword_iff.mp hkeyword]
    exact advance_accepts.andThen (whileStatement_accepts hnested hopening hcondition hclosing hbody
      hdangling (by omega) (by omega))
  | «for» hkeyword hopening hinitial hcondition hsemicolon hincrement hclosing hbody =>
    simp only [List.length_cons] at htokens
    refine peek_accepts.andThen ?_
    rw [Token.isKeyword_iff.mp hkeyword]
    exact advance_accepts.andThen (forStatement_accepts hnested hopening hinitial hcondition hsemicolon
      hincrement hclosing hbody hdangling (by omega) (by omega))

omit hnested in
/-- All declarations are accepted if the statements and declarations nested in them are. -/
theorem declarationWith_accepts {other : Parser Stmt} (hother : AcceptsStatements (n + 1) other)
    {tokens rest : List Token} {s : Stmt} (htokens : tokens.length ≤ n + 1) (h : Declaration tokens s rest)
    (helse : rest.head?.any (·.isKeyword .else) = false) :
    Accepts (·.relabel .anonymous) (declarationWith (n + 1) other declaration) tokens s rest := by
  cases h with
  | «class» hkeyword hname hopening h hclosing =>
    simp only [List.length_cons] at htokens
    refine peek_accepts.andThen ?_
    rw [Token.isKeyword_iff.mp hkeyword]
    exact advance_accepts.andThen (classDeclaration_accepts hdeclaration hname hopening h hclosing
      (by omega) (by omega))
  | function hkeyword h =>
    rw [List.length_cons] at htokens
    refine peek_accepts.andThen ?_
    rw [Token.isKeyword_iff.mp hkeyword]
    exact advance_accepts.andThen ((function_accepts hdeclaration .function h (by omega) (by omega)).map
      fun a ha => congrArg Stmt.function ha)
  | «variable» hkeyword h =>
    rw [List.length_cons] at htokens
    refine peek_accepts.andThen ?_
    rw [Token.isKeyword_iff.mp hkeyword]
    exact advance_accepts.andThen (variableDeclaration_accepts h (by omega))
  | statement h =>
    obtain ⟨t, tokens, rfl, ht⟩ := h.first
    refine peek_accepts.andThen ?_
    split <;> rename_i hkind
    all_goals first
      | exact hother _ _ _ _ htokens h fun _ => helse
      | simp [startsPlainStatement, startsExpression, constant?, isUnaryOperator, Token.isKeyword,
          Token.isIdentifier, Token.isSymbol, hkind] at ht

end Levels

/-- Parsers of statements and declarations accept statements and declarations. -/
theorem statement_and_declaration_accept (n : Nat) :
    AcceptsStatements n (statement n) ∧ AcceptsDeclarations n (declaration n) := by
  induction n with
  | zero =>
    refine ⟨fun _ tokens _ rest htokens h => ?_, fun tokens _ rest htokens h => ?_⟩
    · have hlength := h.length_lt
      omega
    · have hlength := h.length_lt
      omega
  | succ n ih =>
    have hstatement : AcceptsStatements (n + 1) (statement (n + 1)) := statementWith_accepts ih.1 ih.2
    exact ⟨hstatement, fun _ _ _ htokens h helse =>
      recovering_accepts (declarationWith_accepts ih.2 hstatement htokens h helse)⟩

/-- Programs are accepted. -/
theorem program_accepts {tokens : List Token} {tree : List Stmt} (h : Program tokens tree) :
    Accepts (Stmt.relabelAll .anonymous) (program tokens.length) tokens tree [] :=
  declarationsUntil_accepts (statement_and_declaration_accept _).2 (fun _ _ => rfl) h (.inl rfl) rfl
    (Nat.le_refl _) (Nat.le_refl _)

end Lox.Grammar
