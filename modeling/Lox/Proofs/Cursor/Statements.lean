import Mathlib
import Lox.Proofs.Cursor.Expressions
import Lox.Proofs.Cursor.Recovery
import Lox.Proofs.Grammar.StatementFollows

/-!
# Statements at a position

The rules for statements and declarations agree with those that run, where the bounds of these and the fuel are
larger than the number of tokens left.
-/

set_option autoImplicit false

namespace Lox.Cursor

open Renumberable (renumber bearers)

variable {input : Input} {f : Occurrence → Occurrence} {c₀ : Cursor} {n : Nat}

section Rules

/-- The loop over parameters agrees. -/
theorem parameters_agrees {m bound fuel : Nat} (hbound : m ≤ bound) (hfuel : m ≤ fuel) (count : Nat) :
    Agrees input f c₀ m 1 0 (Grammar.parameters bound count) (Reading.parameters fuel count) := by
  induction m generalizing bound fuel count with
  | zero => exact agrees_zero _ _
  | succ m ih =>
    obtain ⟨bound, rfl⟩ := Nat.exists_eq_add_of_le' (show 1 ≤ bound by omega)
    obtain ⟨fuel, rfl⟩ := Nat.exists_eq_add_of_le' (show 1 ≤ fuel by omega)
    refine Agrees.reportIf ((Agrees.expect _ _).bind fun parameter => .accepts (.pure rfl rfl) ?_)
    have hmore := (ih (show m ≤ bound by omega) (show m ≤ fuel by omega) (count + 1)).fewer
      (show m + 1 - 1 - 1 ≤ m by omega)
    exact hmore.bind fun others => .pure rfl rfl

variable {bound fuel : Nat}

section Expressions

variable (hbound : n ≤ bound + 1) (hfuel : n ≤ fuel)
include hbound hfuel

/-- An expression agrees where it may be missing. -/
theorem optionalExpression_agrees : Agrees input f c₀ n 1 0 (some <$> Grammar.expression bound)
    (some <$> Reading.expression fuel) :=
  (expression_agrees hbound hfuel).map (fun _ => rfl) fun _ => (zero_add _).symm

/-- The declaration of a variable agrees. -/
theorem variableDeclaration_agrees :
    Agrees input f c₀ n 1 0 (Grammar.variableDeclaration bound) (Reading.variableDeclaration fuel) := by
  refine (Agrees.expect _ _).bind fun name => .accepts ?_ ?_
  · exact (Agrees.expect _ _).bind fun _ => .pure rfl rfl
  · refine ((optionalExpression_agrees hbound hfuel).fewer (by omega)).bind fun initial => ?_
    exact (Agrees.expect _ _).bind fun _ => .pure rfl (by simp)

/-- An expression with its semicolon agrees. -/
theorem expressionStatement_agrees :
    Agrees input f c₀ n 1 0 (Grammar.expressionStatement bound) (Reading.expressionStatement fuel) :=
  (expression_agrees hbound hfuel).bind fun _ => (Agrees.expect _ _).bind fun _ =>
    .pure rfl (by simp)

/-- A print statement agrees. -/
theorem printStatement_agrees :
    Agrees input f c₀ n 1 0 (Grammar.printStatement bound) (Reading.printStatement fuel) :=
  (expression_agrees hbound hfuel).bind fun _ => (Agrees.expect _ _).bind fun _ =>
    .pure rfl (by simp)

/-- A return statement agrees from its keyword on. -/
theorem returnStatement_agrees (keyword : Token) :
    Agrees input f c₀ n 1 0 (Grammar.returnStatement bound keyword)
      (do
        let value ← if ← Reading.check (·.isSymbol .semicolon) then pure none else some <$> Reading.expression fuel
        let _ ← Reading.expect (·.isSymbol .semicolon) .noReturnEnd
        return Stmt.return keyword value) := by
  refine .sees fun isEmpty => ?_
  cases isEmpty with
  | true => exact (Agrees.expect _ _).bind fun _ => .pure rfl rfl
  | false =>
    exact (optionalExpression_agrees hbound hfuel).bind fun value => (Agrees.expect _ _).bind fun _ =>
      .pure rfl (by simp)

/-- The first clause of a `for` loop agrees. -/
theorem initialClause_agrees :
    Agrees input f c₀ n 1 0 (Grammar.initialClause bound) (Reading.initialClause fuel) := by
  have hsome {m k : Nat} {p : Parser Stmt} {q : Reading Stmt} (hp : Agrees input f c₀ m k 0 p q) :
      Agrees input f c₀ m k 0 (some <$> p) (some <$> q) :=
    hp.map (fun _ => rfl) fun _ => by simp
  refine .accepts (.accepts ?_ ?_) (.pure rfl rfl)
  · exact hsome (expressionStatement_agrees hbound hfuel)
  · exact (hsome ((variableDeclaration_agrees hbound hfuel).fewer (by omega))).weaken (Nat.zero_le 1)

end Expressions

section Branches

variable {nested : Parser Stmt} {nested' : Reading Stmt} (hnested : Agrees input f c₀ n 1 0 nested nested')
  (hbound : n ≤ bound + 1) (hfuel : n ≤ fuel)
include hnested hbound hfuel

/-- An `if` statement agrees if its branches do. -/
theorem ifStatement_agrees :
    Agrees input f c₀ n 1 0 (Grammar.ifStatement bound nested) (Reading.ifStatement fuel nested') := by
  refine (Agrees.expect _ _).bind fun _ => ?_
  refine ((expression_agrees hbound hfuel).fewer (by omega)).bind fun condition => ?_
  refine (Agrees.expect _ _).bind fun _ => ?_
  refine (hnested.fewer (by omega)).bind fun thenBranch => .accepts (.pure rfl ?_) ?_
  · simp
  · have hbranch : Agrees input f c₀ (n - 1 - 1 - 1 - 1 - 1) 1 0 (some <$> nested) (some <$> nested') :=
      (hnested.fewer (by omega)).map (fun _ => rfl) fun _ => by simp
    refine hbranch.bind fun elseBranch => .pure ?_ ?_
    · cases elseBranch <;> rfl
    · cases elseBranch <;> simp [renumber]

/-- A `while` statement agrees if its body does. -/
theorem whileStatement_agrees :
    Agrees input f c₀ n 1 0 (Grammar.whileStatement bound nested) (Reading.whileStatement fuel nested') := by
  refine (Agrees.expect _ _).bind fun _ => ?_
  refine ((expression_agrees hbound hfuel).fewer (by omega)).bind fun condition => ?_
  refine (Agrees.expect _ _).bind fun _ => ?_
  refine (hnested.fewer (by omega)).bind fun body => .pure rfl ?_
  simp

omit hnested hbound hfuel in
/-- The loop that a `for` stands for is built from its parts, and has no other uses than these. -/
theorem bearers_forLoop (initial : Option Stmt) (condition : Expr) (increment : Option Expr) (body : Stmt) :
    bearers (Grammar.forLoop initial condition increment body) =
      bearers initial + bearers condition + bearers increment + bearers body := by
  cases initial <;> cases increment <;>
    simp [Grammar.forLoop] <;> abel

/-- A `for` statement agrees if its body does. -/
theorem forStatement_agrees :
    Agrees input f c₀ n 1 0 (Grammar.forStatement bound nested) (Reading.forStatement fuel nested') := by
  refine (Agrees.expect _ _).bind fun _ => ?_
  refine ((initialClause_agrees hbound hfuel).fewer (by omega)).bind fun initial => ?_
  have hincrement {m k : Nat} (hm : m ≤ n) (condition : Expr) {p : Parser (Option Expr)}
      {q : Reading (Option Expr)} (hp : Agrees input f c₀ m k 0 p q) :
      Agrees input f c₀ m 0 (bearers (renumber f initial) + bearers (renumber f condition))
        (do
          let increment ← p
          let _ ← Parser.expect (·.isSymbol .rightParen) .noForClausesEnd
          let body ← nested
          return Grammar.forLoop initial condition increment body)
        (do
          let increment ← q
          let _ ← Reading.expect (·.isSymbol .rightParen) .noForClausesEnd
          let body ← nested'
          return Grammar.forLoop (renumber f initial) (renumber f condition) increment body) := by
    refine hp.bind fun increment => (Agrees.expect _ _).bind fun _ => ?_
    refine Agrees.weaken ((hnested.fewer (by omega)).bind (k := 0) fun body => .pure ?_ ?_) (by omega)
    · exact (Grammar.forLoop_relabel initial condition increment body).symm
    · rw [bearers_forLoop]
      simp
  have hcondition {m k : Nat} (hm : m ≤ n) {p : Parser Expr} {q : Reading Expr}
      (hp : Agrees input f c₀ m k 0 p q) :
      Agrees input f c₀ m 0 (bearers (renumber f initial))
        (do
          let condition ← p
          let _ ← Parser.expect (·.isSymbol .semicolon) .noForConditionEnd
          let increment ← if ← Parser.sees (·.isSymbol .rightParen) then pure none
            else some <$> Grammar.expression bound
          let _ ← Parser.expect (·.isSymbol .rightParen) .noForClausesEnd
          let body ← nested
          return Grammar.forLoop initial condition increment body)
        (do
          let condition ← q
          let _ ← Reading.expect (·.isSymbol .semicolon) .noForConditionEnd
          let increment ← if ← Reading.check (·.isSymbol .rightParen) then pure none
            else some <$> Reading.expression fuel
          let _ ← Reading.expect (·.isSymbol .rightParen) .noForClausesEnd
          let body ← nested'
          return Grammar.forLoop (renumber f initial) condition increment body) := by
    refine hp.bind fun condition => (Agrees.expect _ _).bind fun _ => .sees fun isEmpty => ?_
    refine Agrees.weaken (j := 0) ?_ (by omega)
    rw [show bearers (renumber f initial) + bearers (renumber f condition) + bearers (renumber f _) =
      bearers (renumber f initial) + bearers (renumber f condition) from add_zero _]
    cases isEmpty with
    | true => exact hincrement (by omega) condition (Agrees.pure rfl rfl)
    | false =>
      exact hincrement (by omega) condition (optionalExpression_agrees (by omega) (by omega))
  refine .sees fun isEmpty => Agrees.weaken (j := 0) ?_ (by omega)
  rw [show 0 + bearers (renumber f _) + bearers (renumber f initial) = bearers (renumber f initial) from
    zero_add _]
  cases isEmpty with
  | true => exact hcondition (by omega) (Agrees.pure rfl rfl)
  | false => exact hcondition (by omega) (expression_agrees (by omega) (by omega))

end Branches

section Bodies

variable {d : Parser (Option Stmt)} {d' : Reading (Option Stmt)} (hd : AgreesBefore input f c₀ n d d')
  {m : Nat} (hm : m ≤ n) (hbound : m ≤ bound + 1) (hfuel : m ≤ fuel)
include hd hm hbound hfuel

/-- A block agrees if its declarations do. -/
theorem block_agrees : Agrees input f c₀ m 1 0 (Grammar.block bound d) (Reading.block fuel d') := by
  refine Agrees.bind (j := 0) (declarationsUntil_agrees beforeBrace_eq hd hm hbound hfuel) fun body => ?_
  exact (Agrees.expect _ _).bind fun _ => .pure rfl (by simp)

/-- A function agrees if the declarations in its body do. -/
theorem function_agrees (role : FunctionRole) :
    Agrees input f c₀ m 1 0 (Grammar.function bound role d) (Reading.function fuel role d') := by
  refine (Agrees.expect _ _).bind fun name => (Agrees.expect _ _).bind fun _ => ?_
  have hbody {l k : Nat} (hl : l ≤ m) {p : Parser (List Token)} {q : Reading (List Token)}
      (hp : Agrees input f c₀ l k 0 p q) : Agrees input f c₀ l 0 0
        (do
          let params ← p
          let _ ← Parser.expect (·.isSymbol .rightParen) .noParametersEnd
          let _ ← Parser.expect (·.isSymbol .leftBrace) (.noFunctionBody role)
          let body ← Grammar.block bound d
          return FunctionDecl.mk name params body)
        (do
          let params ← q
          let _ ← Reading.expect (·.isSymbol .rightParen) .noParametersEnd
          let _ ← Reading.expect (·.isSymbol .leftBrace) (.noFunctionBody role)
          let body ← Reading.block fuel d'
          return FunctionDecl.mk name params body) := by
    refine hp.bind fun params => (Agrees.expect _ _).bind fun _ => (Agrees.expect _ _).bind fun _ => ?_
    refine Agrees.weaken ((block_agrees hd (show l - k - 1 - 1 ≤ n by omega) (by omega) (by omega)).bind (k := 0)
      fun body => .pure ?_ ?_) (by omega)
    · show FunctionDecl.mk _ _ _ = FunctionDecl.relabel (.renumbering f) ⟨name, params, body⟩
      rw [FunctionDecl.relabel, show params.map (Token.relabel (.renumbering f)) = params from List.map_id' _]
      rfl
    · simp
  refine .sees fun isEmpty => ?_
  cases isEmpty with
  | true => exact hbody (by omega) (Agrees.pure rfl rfl)
  | false => exact hbody (by omega) (parameters_agrees (by omega) (by omega) 0)

/-- A class agrees if the declarations in its methods do. -/
theorem classDeclaration_agrees :
    Agrees input f c₀ m 1 0 (Grammar.classDeclaration bound d) (Reading.classDeclaration fuel d') := by
  refine (Agrees.expect _ _).bind fun name => (Agrees.expect _ _).bind fun _ => ?_
  have hmethods := methods_agrees (function_agrees hd hm hbound hfuel .method)
    (show m - 1 - 1 ≤ m by omega) (show m - 1 - 1 ≤ bound + 1 by omega) (show m - 1 - 1 ≤ fuel by omega)
  exact hmethods.bind fun ms => (Agrees.expect _ _).bind fun _ => .pure rfl (by simp)

end Bodies

section Levels

variable {nested : Parser Stmt} {nested' : Reading Stmt} (hnested : Agrees input f c₀ n 1 0 nested nested')
  {d : Parser (Option Stmt)} {d' : Reading (Option Stmt)} (hd : AgreesBefore input f c₀ n d d')
  (hbound : n ≤ bound) (hfuel : n < fuel)
include hd hbound hfuel

include hnested in
/-- The first token decides which statement it is. -/
theorem statementWith_agrees : Agrees input f c₀ (n + 1) 1 0 (Grammar.statementWith bound nested d)
    (Reading.statementWith fuel nested' d') := by
  intro s c hshows hlength
  have hle : n ≤ bound + 1 := Nat.le_succ_of_le hbound
  have hle' : n ≤ fuel := Nat.le_of_lt hfuel
  have hother : AgreesAt input f c₀ 1 0 (Grammar.expressionStatement bound) (Reading.expressionStatement fuel) s c :=
    expressionStatement_agrees (n := n + 1) (by omega) (by omega) s c hshows hlength
  refine .peek ?_
  cases hs : s.rest with
  | nil =>
    rw [List.headD_nil, hshows.last_kind]
    exact hother.of_eq rfl (by simp [Reading.statementWith, hshows.accepts_bind, hs])
  | cons t rest =>
    rw [List.headD_cons]
    split
    next hkind =>
      refine .advance hshows hs hlength (forStatement_agrees hnested hle hle') ?_
      simp [Reading.statementWith, hshows.accepts_bind, hs, Token.isKeyword, hkind]
    next hkind =>
      refine .advance hshows hs hlength (ifStatement_agrees hnested hle hle') ?_
      simp [Reading.statementWith, hshows.accepts_bind, hs, Token.isKeyword, hkind]
    next hkind =>
      refine .advance hshows hs hlength (whileStatement_agrees hnested hle hle') ?_
      simp [Reading.statementWith, hshows.accepts_bind, hs, Token.isKeyword, hkind]
    next hkind =>
      refine .advance hshows hs hlength (returnStatement_agrees hle hle' t) ?_
      have hkeyword : Reading.statementWith fuel nested' d' c = Reading.returnStatement fuel c.step := by
        simp [Reading.statementWith, hshows.accepts_bind, hs, Token.isKeyword, hkind]
      exact hkeyword.trans (Reading.bind_ok (hshows.previous_eq hs))
    next hkind =>
      have hblock : Agrees input f c₀ n 1 0 (Stmt.block <$> Grammar.block bound d)
          (Stmt.block <$> Reading.block fuel d') :=
        (block_agrees hd (Nat.le_refl n) hle hle').map (fun _ => rfl) fun _ => (zero_add _).symm
      refine .advance hshows hs hlength hblock ?_
      simp [Reading.statementWith, hshows.accepts_bind, hs, Token.isKeyword, Token.isSymbol, hkind]
    next hkind =>
      refine .advance hshows hs hlength (printStatement_agrees hle hle') ?_
      simp [Reading.statementWith, hshows.accepts_bind, hs, Token.isKeyword, Token.isSymbol, hkind]
    next hfor hif hwhile hreturn hbrace hprint =>
      refine hother.of_eq rfl ?_
      simp [Reading.statementWith, hshows.accepts_bind, hs, Token.not_isKeyword hfor, Token.not_isKeyword hif,
        Token.not_isKeyword hwhile, Token.not_isKeyword hreturn, Token.not_isSymbol hbrace, Token.not_isKeyword hprint]

/-- The first token decides which declaration it is, or whether it is a statement. -/
theorem declarationWith_agrees {other : Parser Stmt} {other' : Reading Stmt}
    (hother : Agrees input f c₀ (n + 1) 1 0 other other') :
    Agrees input f c₀ (n + 1) 1 0 (Grammar.declarationWith bound other d) (Reading.declarationWith fuel other' d') := by
  intro s c hshows hlength
  have hle : n ≤ bound + 1 := Nat.le_succ_of_le hbound
  have hle' : n ≤ fuel := Nat.le_of_lt hfuel
  refine .peek ?_
  cases hs : s.rest with
  | nil =>
    rw [List.headD_nil, hshows.last_kind]
    exact (hother s c hshows hlength).of_eq rfl (by simp [Reading.declarationWith, hshows.accepts_bind, hs])
  | cons t rest =>
    rw [List.headD_cons]
    split
    next hkind =>
      refine .advance hshows hs hlength (classDeclaration_agrees hd (Nat.le_refl n) hle hle') ?_
      simp [Reading.declarationWith, hshows.accepts_bind, hs, Token.isKeyword, hkind]
    next hkind =>
      have hfunction : Agrees input f c₀ n 1 0 (Stmt.function <$> Grammar.function bound .function d)
          (Stmt.function <$> Reading.function fuel .function d') :=
        (function_agrees hd (Nat.le_refl n) hle hle' .function).map (fun _ => rfl) fun _ => (zero_add _).symm
      refine .advance hshows hs hlength hfunction ?_
      simp [Reading.declarationWith, hshows.accepts_bind, hs, Token.isKeyword, hkind]
    next hkind =>
      refine .advance hshows hs hlength (variableDeclaration_agrees hle hle') ?_
      simp [Reading.declarationWith, hshows.accepts_bind, hs, Token.isKeyword, hkind]
    next hclass hfun hvar =>
      refine (hother s c hshows hlength).of_eq rfl ?_
      simp [Reading.declarationWith, hshows.accepts_bind, hs, Token.not_isKeyword hclass, Token.not_isKeyword hfun,
        Token.not_isKeyword hvar]

end Levels

end Rules

/-- Statements and declarations agree where fewer than `n` tokens are left. -/
theorem statement_and_declaration_agree {bound fuel : Nat} (hbound : n ≤ bound + 1) (hfuel : n ≤ fuel) :
    Agrees input f c₀ n 1 0 (Grammar.statement bound) (Reading.statement fuel) ∧
      AgreesBefore input f c₀ n (Grammar.declaration bound) (Reading.declaration fuel) := by
  induction n generalizing bound fuel with
  | zero => exact ⟨agrees_zero _ _, fun _ _ _ _ hlength => absurd hlength (Nat.not_lt_zero _)⟩
  | succ n ih =>
    obtain ⟨fuel, rfl⟩ := Nat.exists_eq_add_of_le' (show 1 ≤ fuel by omega)
    obtain ⟨hnested, hd⟩ := ih (show n ≤ bound - 1 + 1 by omega) (show n ≤ fuel by omega)
    have hstatement : Agrees input f c₀ (n + 1) 1 0 (Grammar.statement (bound - 1 + 1))
        (Reading.statement (fuel + 1)) := statementWith_agrees hnested hd (by omega) (by omega)
    have hdeclaration : AgreesBefore input f c₀ (n + 1) (Grammar.declaration (bound - 1 + 1))
        (Reading.declaration (fuel + 1)) :=
      declaring_agrees (recovering_agrees (declarationWith_agrees hd (by omega) (by omega) hstatement) (by omega))
    -- without a bound no token is left: the statement fails either way, and there is no declaration
    refine ⟨fun s c hshows hlength => (hstatement s c hshows hlength).of_eq ?_ rfl,
      fun s c hshows hne hlength => (hdeclaration s c hshows hne hlength).of_eq ?_ rfl⟩
    · cases bound with
      | zero =>
        have hs : s.rest = [] := List.length_eq_zero_iff.mp (by omega)
        have hend : (s.rest.headD s.last).kind = .eof := by
          rw [hs]
          exact hshows.last_kind
        rw [Grammar.statement_failsOn (.inl rfl) 0 s hend, Grammar.statement_failsOn (.inl rfl) _ s hend]
      | succ bound => rfl
    · cases bound with
      | zero => exact absurd (List.length_eq_zero_iff.mp (by omega)) hne
      | succ bound => rfl

end Lox.Cursor
