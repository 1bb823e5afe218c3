import Lox.Proofs.Grammar.ExpressionFollows
import Lox.Proofs.Grammar.RecoveryFollows

/-!
# Statements that follow each other

A statement ends at a token of its own, a semicolon or a brace, so it is parsed alike also at the very
end of the first input. There is one exception: behind the branch of a conditional, the second run would
find an `else` that comes behind.
-/

set_option autoImplicit false

namespace Lox.Grammar

open Lox.Parser

variable {V : Respelling} {before : List SyntaxError} {ahead : List Token} {n : Nat}

section Rules

/-- The loop over parameters does the same. -/
theorem parameters_follow {m bound bound' : Nat} (hbound : m < bound)
    (hbound' : m + ahead.length < bound') (count : Nat) :
    Follows V before ahead true m 1 (List.map (Token.respell V)) (parameters bound count)
      (parameters bound' count) := by
  induction bound generalizing m bound' count with
  | zero => cases hbound
  | succ bound ih =>
    obtain ⟨bound', rfl⟩ := Nat.exists_eq_add_of_le' (show 1 ≤ bound' by omega)
    have hrest : Follows V before ahead true m 1 (List.map (Token.respell V))
        (do
          let parameter ← expect (·.isIdentifier) .noParameterName
          if ← accepts (·.isSymbol .comma) then
            return parameter :: (← parameters bound (count + 1))
          else return [parameter])
        (do
          let parameter ← expect (·.isIdentifier) .noParameterName
          if ← accepts (·.isSymbol .comma) then
            return parameter :: (← parameters bound' (count + 1))
          else return [parameter]) := by
      refine (expect_follows (fun _ => rfl) _).bind (Nat.le_refl _) fun t t' ht _ => ?_
      refine .accepts (fun _ => rfl) (.inl rfl) (.pure ?_) fun _ => ?_
      · simp only [List.map_cons, ht, List.map_nil]
      · refine (ih (by omega) (by omega) (count + 1)).bind (Nat.zero_le _) fun ts ts' hts _ => .pure ?_
        simp only [List.map_cons, ht, hts]
    unfold parameters
    by_cases hcount : maxArity ≤ count
    · simp only [if_pos hcount]
      refine peek_follows.bind_reads fun t t' ht _ => ?_
      exact (report_follows ht _).bind_reads fun _ _ _ _ => hrest
    · simp only [if_neg hcount]
      exact hrest

/-- What is read up to a token that closes a statement does the same if it does so alone. -/
theorem closed_follows {α β : Type} {view : α → β} {p p' : Parser α} {m k : Nat}
    (hp : Follows V before ahead true m k view p p') {P : Token → Bool} (hP : Unaffected V P)
    (cause : SyntaxCause) {g g' : α → Stmt}
    (hg : ∀ a a', view a' = view a → (g' a').respell V = (g a).respell V) :
    Follows V before ahead false m 1 (Stmt.respell V)
      (do
        let a ← p
        let _ ← expect P cause
        return g a)
      (do
        let a ← p'
        let _ ← expect P cause
        return g' a) := by
  refine hp.bind_reads fun a a' ha _ => ?_
  exact (expect_follows hP cause).bind (Nat.le_refl _) fun _ _ _ _ => .pure (hg a a' ha)

variable {bound bound' : Nat}

section Expressions

variable (hbound : n ≤ bound) (hbound' : n + ahead.length ≤ bound')
include hbound hbound'

/-- An expression does the same where it may be missing. -/
theorem optionalExpression_follows : Follows V before ahead true n 1 (Option.map (Expr.respell V))
    (some <$> expression bound) (some <$> expression bound') :=
  (expression_follows hbound hbound').map fun _ _ he => congrArg some he

/-- The declaration of a variable does the same. -/
theorem variableDeclaration_follows :
    Follows V before ahead false n 1 (Stmt.respell V) (variableDeclaration bound)
      (variableDeclaration bound') := by
  refine (expect_follows (fun _ => rfl) _).bind_reads fun name name' hname _ => ?_
  have hbuild (initial initial' : Option Expr)
      (hinitial : initial'.map (Expr.respell V) = initial.map (Expr.respell V)) :
      (Stmt.variable name' initial').respell V = (Stmt.variable name initial).respell V := by
    simp only [Stmt.respell, hname, hinitial]
  refine .accepts (fun _ => rfl) (.inr (.inl Nat.one_pos)) ?_ fun _ => ?_
  · exact closed_follows (.pure rfl) (fun _ => rfl) _ hbuild
  · exact (closed_follows (optionalExpression_follows (by omega) (by omega)) (fun _ => rfl) _
      hbuild).weaken (Nat.le_refl _) (by omega) id

/-- An expression with its semicolon does the same. -/
theorem expressionStatement_follows :
    Follows V before ahead false n 1 (Stmt.respell V) (expressionStatement bound)
      (expressionStatement bound') :=
  closed_follows (expression_follows hbound hbound') (fun _ => rfl) _ fun e e' he => by
    simp only [Stmt.respell, he]

/-- A print statement does the same. -/
theorem printStatement_follows :
    Follows V before ahead false n 1 (Stmt.respell V) (printStatement bound) (printStatement bound') :=
  closed_follows (expression_follows hbound hbound') (fun _ => rfl) _ fun e e' he => by
    simp only [Stmt.respell, he]

/-- A return statement does the same. -/
theorem returnStatement_follows {keyword keyword' : Token}
    (hkeyword : keyword'.respell V = keyword.respell V) :
    Follows V before ahead false n 1 (Stmt.respell V) (returnStatement bound keyword)
      (returnStatement bound' keyword') := by
  have hbuild (value value' : Option Expr)
      (hvalue : value'.map (Expr.respell V) = value.map (Expr.respell V)) :
      (Stmt.return keyword' value').respell V = (Stmt.return keyword value).respell V := by
    simp only [Stmt.respell, hkeyword, hvalue]
  refine (sees_follows fun _ => rfl).bind_reads fun isEmpty isEmpty' hempty _ => ?_
  obtain rfl : isEmpty' = isEmpty := hempty
  cases isEmpty' with
  | true => exact closed_follows (.pure rfl) (fun _ => rfl) _ hbuild
  | false =>
    exact closed_follows (optionalExpression_follows (by omega) (by omega)) (fun _ => rfl) _ hbuild

/-- The first clause of a `for` loop does the same. -/
theorem initialClause_follows :
    Follows V before ahead false n 1 (Option.map (Stmt.respell V)) (initialClause bound)
      (initialClause bound') := by
  have hsome {m : Nat} {p p' : Parser Stmt} (hp : Follows V before ahead false m 1 (Stmt.respell V) p p') :
      Follows V before ahead false m 1 (Option.map (Stmt.respell V)) (some <$> p) (some <$> p') :=
    hp.map fun _ _ hs => congrArg some hs
  refine .accepts (fun _ => rfl) (.inr (.inl Nat.one_pos)) ?_ fun _ => .pure rfl
  refine .accepts (fun _ => rfl) (.inr (.inl Nat.one_pos)) ?_ fun _ => ?_
  · exact hsome (expressionStatement_follows hbound hbound')
  · exact (hsome (variableDeclaration_follows (by omega) (by omega))).weaken (Nat.le_refl _)
      (by omega) id

end Expressions

section Branches

variable {nested nested' : Parser Stmt}
  (hnested : Follows V before ahead false n 1 (Stmt.respell V) nested nested')
  (hbound : n ≤ bound) (hbound' : n + ahead.length ≤ bound')
include hnested hbound hbound'

/-- Behind the branch of a conditional an `else` may come; none may come behind the first input. -/
theorem ifStatement_follows (helse : ahead.head?.any (·.isKeyword .else) = false) :
    Follows V before ahead false n 1 (Stmt.respell V) (ifStatement bound nested)
      (ifStatement bound' nested') := by
  refine (expect_follows (fun _ => rfl) _).bind_reads fun _ _ _ _ => ?_
  refine (expression_follows (by omega) (by omega)).bind_reads fun e e' he _ => ?_
  refine (expect_follows (fun _ => rfl) _).bind (Nat.le_refl _) fun _ _ _ _ => ?_
  refine (hnested.fewer (by omega)).bind (Nat.zero_le _) fun t t' ht _ => ?_
  refine .accepts (fun _ => rfl) (.inr (.inr helse)) (.pure ?_) fun _ => ?_
  · simp only [Stmt.respell, he, ht]
  · have hbranch : Follows V before ahead false (n - 1 - 1 - 1 - 1 - 1) 1 (Option.map (Stmt.respell V))
        (some <$> nested) (some <$> nested') :=
      (hnested.fewer (by omega)).map fun _ _ hs => congrArg some hs
    refine hbranch.bind (Nat.zero_le _) fun b b' hb _ => .pure ?_
    match b, b', hb with
    | some b, some b', hb => simp only [Stmt.respell, he, ht, Option.some.inj hb]
    | none, none, _ => simp only [Stmt.respell, he, ht]

/-- A `while` statement does the same if its body does. -/
theorem whileStatement_follows :
    Follows V before ahead false n 1 (Stmt.respell V) (whileStatement bound nested)
      (whileStatement bound' nested') := by
  refine (expect_follows (fun _ => rfl) _).bind_reads fun _ _ _ _ => ?_
  refine (expression_follows (by omega) (by omega)).bind_reads fun e e' he _ => ?_
  refine (expect_follows (fun _ => rfl) _).bind (Nat.le_refl _) fun _ _ _ _ => ?_
  refine (hnested.fewer (by omega)).bind (Nat.zero_le _) fun b b' hb _ => .pure ?_
  simp only [Stmt.respell, he, hb]

omit hnested hbound hbound' in
/-- The loop that a `for` stands for is built from its parts alone. -/
theorem forLoop_respell (initial : Option Stmt) (condition : Expr) (increment : Option Expr)
    (body : Stmt) :
    (forLoop initial condition increment body).respell V =
      forLoop (initial.map (·.respell V)) (condition.respell V) (increment.map (·.respell V))
        (body.respell V) := by
  cases initial <;> cases increment <;> rfl

omit hnested hbound hbound' in
/-- Relabeling what a `for` loop stands for relabels its parts. -/
theorem forLoop_relabel {R : Relabeling} (initial : Option Stmt) (condition : Expr) (increment : Option Expr)
    (body : Stmt) :
    (forLoop initial condition increment body).relabel R =
      forLoop (initial.map (·.relabel R)) (condition.relabel R) (increment.map (·.relabel R))
        (body.relabel R) := by
  simpa using forLoop_respell (V := R.respelling) initial condition increment body

/-- A `for` statement does the same if its body does. -/
theorem forStatement_follows :
    Follows V before ahead false n 1 (Stmt.respell V) (forStatement bound nested)
      (forStatement bound' nested') := by
  refine (expect_follows (fun _ => rfl) _).bind_reads fun _ _ _ _ => ?_
  have hinitial : Follows V before ahead true (n - 1) 1 (Option.map (Stmt.respell V)) (initialClause bound)
      (initialClause bound') :=
    (initialClause_follows hbound hbound').weaken (Nat.sub_le n 1) (Nat.le_refl 1) nofun
  refine hinitial.bind_reads fun i i' hi _ => ?_
  have hincrement {m k : Nat} (hm : m ≤ n) {e e' : Expr} (he : e'.respell V = e.respell V)
      {p p' : Parser (Option Expr)} (hp : Follows V before ahead true m k (Option.map (Expr.respell V)) p p') :
      Follows V before ahead false m 1 (Stmt.respell V)
        (do
          let increment ← p
          let _ ← expect (·.isSymbol .rightParen) .noForClausesEnd
          let body ← nested
          return forLoop i e increment body)
        (do
          let increment ← p'
          let _ ← expect (·.isSymbol .rightParen) .noForClausesEnd
          let body ← nested'
          return forLoop i' e' increment body) := by
    refine hp.bind_reads fun u u' hu _ => ?_
    refine (expect_follows (fun _ => rfl) _).bind (Nat.le_refl _) fun _ _ _ _ => ?_
    refine (hnested.fewer (by omega)).bind (Nat.zero_le _) fun b b' hb _ => .pure ?_
    rw [forLoop_respell, forLoop_respell, hi, he, hu, hb]
  have hcondition {m k : Nat} (hm : m ≤ n) {p p' : Parser Expr}
      (hp : Follows V before ahead true m k (Expr.respell V) p p') :
      Follows V before ahead false m 1 (Stmt.respell V)
        (do
          let condition ← p
          let _ ← expect (·.isSymbol .semicolon) .noForConditionEnd
          let increment ← if ← sees (·.isSymbol .rightParen) then pure none
            else some <$> expression bound
          let _ ← expect (·.isSymbol .rightParen) .noForClausesEnd
          let body ← nested
          return forLoop i condition increment body)
        (do
          let condition ← p'
          let _ ← expect (·.isSymbol .semicolon) .noForConditionEnd
          let increment ← if ← sees (·.isSymbol .rightParen) then pure none
            else some <$> expression bound'
          let _ ← expect (·.isSymbol .rightParen) .noForClausesEnd
          let body ← nested'
          return forLoop i' condition increment body) := by
    refine hp.bind_reads fun e e' he _ => ?_
    refine (expect_follows (fun _ => rfl) _).bind_reads fun _ _ _ _ => ?_
    refine (sees_follows fun _ => rfl).bind_reads fun isEmpty isEmpty' hempty _ => ?_
    obtain rfl : isEmpty' = isEmpty := hempty
    cases isEmpty' with
    | true => exact hincrement (by omega) he (.pure rfl)
    | false => exact hincrement (by omega) he (optionalExpression_follows (by omega) (by omega))
  refine (sees_follows fun _ => rfl).bind_reads fun isEmpty isEmpty' hempty _ => ?_
  obtain rfl : isEmpty' = isEmpty := hempty
  cases isEmpty' with
  | true => exact hcondition (by omega) (.pure rfl)
  | false => exact hcondition (by omega) (expression_follows (by omega) (by omega))

end Branches

section Bodies

variable {d d' : Parser (Option Stmt)}
  (hd : FollowsBefore V before ahead n (Option.map (Stmt.respell V)) d d')
  (hbound : n ≤ bound) (hbound' : n + ahead.length ≤ bound')
include hd hbound hbound'

/-- A block does the same if its declarations do. -/
theorem block_follows {m : Nat} (hm : m ≤ n) :
    Follows V before ahead false m 1 (Stmt.respellAll V) (block bound d) (block bound' d') := by
  refine (declarationsUntil_follows (fun _ => rfl) hd hm (by omega) (by omega)).bind_reads
    fun ss ss' hss _ => ?_
  exact (expect_follows (fun _ => rfl) _).bind (Nat.le_refl _) fun _ _ _ _ => .pure hss

/-- A function does the same if the declarations in its body do. -/
theorem function_follows (role : FunctionRole) {m : Nat} (hm : m ≤ n) :
    Follows V before ahead false m 1 (FunctionDecl.respell V) (function bound role d)
      (function bound' role d') := by
  refine (expect_follows (fun _ => rfl) _).bind_reads fun name name' hname _ => ?_
  refine (expect_follows (fun _ => rfl) _).bind_reads fun _ _ _ _ => ?_
  have hbody {l k : Nat} (hl : l ≤ n) {p p' : Parser (List Token)}
      (hp : Follows V before ahead true l k (List.map (Token.respell V)) p p') :
      Follows V before ahead false l 1 (FunctionDecl.respell V)
        (do
          let params ← p
          let _ ← expect (·.isSymbol .rightParen) .noParametersEnd
          let _ ← expect (·.isSymbol .leftBrace) (.noFunctionBody role)
          let body ← block bound d
          return FunctionDecl.mk name params body)
        (do
          let params ← p'
          let _ ← expect (·.isSymbol .rightParen) .noParametersEnd
          let _ ← expect (·.isSymbol .leftBrace) (.noFunctionBody role)
          let body ← block bound' d'
          return FunctionDecl.mk name' params body) := by
    refine hp.bind_reads fun ps ps' hps _ => ?_
    refine (expect_follows (fun _ => rfl) _).bind (Nat.le_refl _) fun _ _ _ _ => ?_
    refine (expect_follows (fun _ => rfl) _).bind (Nat.zero_le _) fun _ _ _ _ => ?_
    refine (block_follows hd hbound hbound' (by omega)).bind (Nat.zero_le _) fun ss ss' hss _ => .pure ?_
    simp only [FunctionDecl.respell, hname, hss]
    rw [hps]
  refine (sees_follows fun _ => rfl).bind_reads fun isEmpty isEmpty' hempty _ => ?_
  obtain rfl : isEmpty' = isEmpty := hempty
  cases isEmpty' with
  | true => exact hbody (by omega) (.pure rfl)
  | false => exact hbody (by omega) (parameters_follow (by omega) (by omega) 0)

/-- A class does the same if the declarations in its methods do. -/
theorem classDeclaration_follows :
    Follows V before ahead false n 1 (Stmt.respell V) (classDeclaration bound d)
      (classDeclaration bound' d') := by
  refine (expect_follows (fun _ => rfl) _).bind_reads fun name name' hname _ => ?_
  refine (expect_follows (fun _ => rfl) _).bind_reads fun _ _ _ _ => ?_
  have hmethods := methods_follow (function_follows hd hbound hbound' .method (Nat.le_refl n))
    (show n - 1 - 1 ≤ n by omega) (show n - 1 - 1 ≤ bound by omega)
    (show n - 1 - 1 + ahead.length ≤ bound' by omega)
  refine hmethods.bind_reads fun ms ms' hms _ => ?_
  refine (expect_follows (fun _ => rfl) _).bind (Nat.le_refl _) fun _ _ _ _ => .pure ?_
  simp only [Stmt.respell, hname, hms]

end Bodies

section Levels

variable {nested nested' : Parser Stmt} {d d' : Parser (Option Stmt)}
  (hbound : n < bound) (hbound' : n + ahead.length < bound')
include hbound hbound'

/-- All statements do the same if those nested in them do, and no `else` comes behind. -/
theorem statementWith_follows (helse : ahead.head?.any (·.isKeyword .else) = false)
    (hnested : Follows V before ahead false n 1 (Stmt.respell V) nested nested')
    (hd : FollowsBefore V before ahead n (Option.map (Stmt.respell V)) d d') :
    Follows V before ahead false (n + 1) 1 (Stmt.respell V) (statementWith bound nested d)
      (statementWith bound' nested' d') := by
  have hend (bound : Nat) : FailsOn .eof (expressionStatement bound) :=
    (expression_failsOn (.inl rfl) bound).bind _
  refine .choose (fun t ht => ?_) (fun t ht => ?_) fun s s' t t' rest hlinked hs hlength ht' => ?_
  · simp only [ht]
    exact hend bound
  · simp only [ht]
    exact hend bound'
  · have hle : n ≤ bound := Nat.le_of_lt hbound
    have hle' : n + ahead.length ≤ bound' := Nat.le_of_lt hbound'
    rw [kind_eq ht']
    split
    · exact .advance hlinked hs hlength (forStatement_follows hnested hle hle')
    · exact .advance hlinked hs hlength (ifStatement_follows hnested hle hle' helse)
    · exact .advance hlinked hs hlength (whileStatement_follows hnested hle hle')
    · exact .advance hlinked hs hlength (returnStatement_follows hle hle' ht')
    · have hblock : Follows V before ahead false n 1 (Stmt.respell V) (.block <$> block bound d)
          (.block <$> block bound' d') :=
        (block_follows hd hle hle' (Nat.le_refl n)).map fun ss ss' hss => by
          simp only [Stmt.respell, hss]
      exact .advance hlinked hs hlength hblock
    · exact .advance hlinked hs hlength (printStatement_follows hle hle')
    · exact expressionStatement_follows (n := n + 1) (by omega) (by omega) s s' hlinked hlength

/-- All declarations do the same if the statements and declarations nested in them do. -/
theorem declarationWith_follows {other other' : Parser Stmt}
    (hother : Follows V before ahead false (n + 1) 1 (Stmt.respell V) other other')
    (hend : FailsOn .eof other) (hend' : FailsOn .eof other')
    (hd : FollowsBefore V before ahead n (Option.map (Stmt.respell V)) d d') :
    Follows V before ahead false (n + 1) 1 (Stmt.respell V) (declarationWith bound other d)
      (declarationWith bound' other' d') := by
  refine .choose (fun t ht => ?_) (fun t ht => ?_) fun s s' t t' rest hlinked hs hlength ht' => ?_
  · simp only [ht]
    exact hend
  · simp only [ht]
    exact hend'
  · have hle : n ≤ bound := Nat.le_of_lt hbound
    have hle' : n + ahead.length ≤ bound' := Nat.le_of_lt hbound'
    rw [kind_eq ht']
    split
    · exact .advance hlinked hs hlength (classDeclaration_follows hd hle hle')
    · have hfunction : Follows V before ahead false n 1 (Stmt.respell V)
          (.function <$> function bound .function d) (.function <$> function bound' .function d') :=
        (function_follows hd hle hle' .function (Nat.le_refl n)).map fun f f' hf => by
          simp only [Stmt.respell, hf]
      exact .advance hlinked hs hlength hfunction
    · exact .advance hlinked hs hlength (variableDeclaration_follows hle hle')
    · exact hother s s' hlinked hlength

end Levels

end Rules

section Failures

variable {kind : Kind} (hkind : kind = .eof ∨ kind = .keyword .else)
include hkind

/-- No statement begins with the end of the input or with an `else`, whatever is nested. -/
theorem statementWith_failsOn (bound : Nat) (nested : Parser Stmt) (d : Parser (Option Stmt)) :
    FailsOn kind (statementWith bound nested d) := by
  have hother := (expression_failsOn hkind bound).bind fun expr => do
    let _ ← expect (·.isSymbol .semicolon) .noExpressionEnd
    return Stmt.expression expr
  refine .peek fun t ht => ?_
  rcases hkind with rfl | rfl
  · simp only [ht]
    exact hother
  · simp only [ht]
    exact hother

/-- No statement begins with the end of the input or with an `else`, to any depth that is allotted. -/
theorem statement_failsOn (bound : Nat) : FailsOn kind (statement bound) := by
  cases bound with
  | zero => exact .fail kind
  | succ bound => exact statementWith_failsOn hkind _ _ _

end Failures

/-- Statements and declarations are parsed alike. -/
theorem statement_and_declaration_follow (helse : ahead.head?.any (·.isKeyword .else) = false)
    {bound bound' : Nat} (hbound : n ≤ bound) (hbound' : n + ahead.length ≤ bound') :
    Follows V before ahead false n 1 (Stmt.respell V) (statement bound) (statement bound') ∧
      FollowsBefore V before ahead n (Option.map (Stmt.respell V)) (declaration bound)
        (declaration bound') := by
  induction n generalizing bound bound' with
  | zero =>
    refine ⟨(statement_failsOn (.inl rfl) bound).follows (statement_failsOn (.inl rfl) bound'), ?_⟩
    exact fun s _ _ hne hlength => absurd (List.length_eq_zero_iff.mp (Nat.le_zero.mp hlength)) hne
  | succ n ih =>
    obtain ⟨bound, rfl⟩ := Nat.exists_eq_add_of_le' (show 1 ≤ bound by omega)
    obtain ⟨bound', rfl⟩ := Nat.exists_eq_add_of_le' (show 1 ≤ bound' by omega)
    obtain ⟨hnested, hd⟩ := ih (show n ≤ bound by omega) (show n + ahead.length ≤ bound' by omega)
    have hstatement := statementWith_follows (show n < bound + 1 by omega)
      (show n + ahead.length < bound' + 1 by omega) helse hnested hd
    refine ⟨hstatement, recovering_follows ?_⟩
    exact declarationWith_follows (by omega) (by omega) hstatement
      (statementWith_failsOn (.inl rfl) _ _ _) (statementWith_failsOn (.inl rfl) _ _ _) hd

end Lox.Grammar
