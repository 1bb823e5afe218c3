import Lox.Grammar.Statement
import Lox.Proofs.Grammar.ExpressionYields

/-!
# What the rules for statements yield

A program that is parsed without errors is well-formed, and its uses carry exactly the numbers that were
handed out. The branches of conditionals and the bodies of loops are statements and no declarations; the
parts of a `for` are put together in another order than they are read in.
-/

set_option autoImplicit false

namespace Lox

/-- A statement carries the given numbers, and is well-formed. -/
structure Stmt.Numbered (ids : List Occurrence) (s : Stmt) : Prop where
  occurrences : s.occurrences.Perm ids
  wellFormed : s.WellFormed

/-- Statements carry the given numbers, and are well-formed. -/
structure Stmt.AllNumbered (ids : List Occurrence) (ss : List Stmt) : Prop where
  occurrences : (Stmt.occurrencesAll ss).Perm ids
  wellFormed : Stmt.AllWellFormed ss

/-- A statement that declares nothing carries the given numbers, and is well-formed. -/
structure Stmt.NumberedBranch (ids : List Occurrence) (s : Stmt) : Prop extends
    Stmt.Numbered ids s where
  declared : s.declared? = none

/-- A function carries the given numbers, and is well-formed. -/
structure FunctionDecl.Numbered (ids : List Occurrence) (d : FunctionDecl) : Prop where
  occurrences : d.occurrences.Perm ids
  wellFormed : d.WellFormed

/-- Functions carry the given numbers, and are well-formed. -/
structure FunctionDecl.AllNumbered (ids : List Occurrence) (ds : List FunctionDecl) : Prop where
  occurrences : (FunctionDecl.occurrencesAll ds).Perm ids
  wellFormed : FunctionDecl.AllWellFormed ds

/-- A statement in front of others carries its numbers in front of theirs. -/
theorem Stmt.Numbered.cons {ids ids' : List Occurrence} {s : Stmt} {ss : List Stmt}
    (h : s.Numbered ids) (hs : Stmt.AllNumbered ids' ss) : Stmt.AllNumbered (ids ++ ids') (s :: ss) :=
  ⟨h.occurrences.append hs.occurrences, h.wellFormed, hs.wellFormed⟩

/-- No statements carry no numbers. -/
theorem Stmt.AllNumbered.nil : Stmt.AllNumbered [] [] := ⟨.nil, trivial⟩

namespace Grammar

open Lox.Parser

/-- Skipping leaves the end of the tokens. -/
theorem skipFrom_suffix (previous : Token) (tokens : List Token) :
    skipFrom previous tokens <:+ tokens := by
  induction tokens generalizing previous with
  | nil => exact List.suffix_refl _
  | cons t rest ih =>
    unfold skipFrom
    split
    · exact List.suffix_refl _
    · exact (ih t).trans (List.suffix_cons t rest)

/-- Recovery leaves the end of the tokens. -/
theorem skip_suffix (tokens : List Token) : skip tokens <:+ tokens := by
  cases tokens with
  | nil => exact List.suffix_refl _
  | cons t rest => exact (skipFrom_suffix t rest).trans (List.suffix_cons t rest)

/-- A statement that is not given up is what its parser yields. -/
theorem recovering_yields {parser : Parser Stmt} {post : List Occurrence → Stmt → Prop}
    (h : Yields parser post) :
    Yields (recovering parser) fun ids s? => ∃ s, s? = some s ∧ post ids s := by
  intro s
  have hs := h s
  unfold recovering
  cases hp : parser s with
  | ok stmt s' =>
    rw [hp] at hs
    exact ⟨hs.1, fun hspelled hclean => ⟨stmt, rfl, hs.2 hspelled hclean⟩⟩
  | error e s' =>
    rw [hp] at hs
    refine ⟨⟨(skip_suffix _).trans hs.rest, hs.last, hs.nextId,
      hs.errors.trans (List.prefix_append _ _)⟩, fun _ hclean => ?_⟩
    have hlength := congrArg List.length hclean
    have hle := hs.errors.length_le
    simp only [List.length_append, List.length_cons, List.length_nil] at hlength
    omega

section Declarations

variable {nested : Parser (Option Stmt)}
  (hnested : Yields nested fun ids s? => ∃ s, s? = some s ∧ s.Numbered ids)
include hnested

/-- Declarations carry the numbers that are given out, those that are given up included. -/
theorem declarationsUntil_yields (stop : Token → Bool) (bound : Nat) :
    Yields (declarationsUntil stop nested bound) fun ids ss => Stmt.AllNumbered ids ss := by
  induction bound with
  | zero => exact .pure [] .nil
  | succ bound ih =>
    have hmore (first : Option Stmt) : Yields
        (do
          let others ← declarationsUntil stop nested bound
          return first.toList ++ others)
        fun ids ss => ∃ others, ss = first.toList ++ others ∧ Stmt.AllNumbered ids others :=
      ih.returning fun ids others hothers => ⟨others, rfl, hothers⟩
    have hall : Yields
        (do
          let first ← nested
          let others ← declarationsUntil stop nested bound
          return first.toList ++ others)
        fun ids ss => Stmt.AllNumbered ids ss := by
      refine hnested.bind hmore ?_
      rintro _ before after _ ⟨s, rfl, hs⟩ ⟨others, rfl, hothers⟩
      exact hs.cons hothers
    refine atEnd_yields.after fun ends => .assuming ?_ _
    refine (sees_yields _).after fun stops => .assuming ?_ _
    split
    · exact .pure [] .nil
    · exact hall

/-- A block carries the numbers that are given out. -/
theorem block_yields (bound : Nat) :
    Yields (block bound nested) fun ids ss => Stmt.AllNumbered ids ss := by
  have hclose (body : List Stmt) : Yields
      (do
        let _ ← expect (·.isSymbol .rightBrace) .noBlockEnd
        return body)
      fun ids ss => ids = [] ∧ ss = body :=
    (expect_yields _ _).after fun _ => .pure _ fun _ => ⟨rfl, rfl⟩
  refine (declarationsUntil_yields hnested _ bound).bind hclose ?_
  rintro body before after _ hbody ⟨rfl, rfl⟩
  rwa [List.append_nil]

omit hnested in
/-- Parameters take up no numbers. -/
theorem parameters_yields (bound count : Nat) :
    Yields (parameters bound count) fun ids _ => ids = [] ∧ True := by
  induction bound generalizing count with
  | zero => exact .fail _
  | succ bound ih =>
    have hrest : Yields
        (do
          let parameter ← expect (·.isIdentifier) .noParameterName
          if ← accepts (·.isSymbol .comma) then
            return parameter :: (← parameters bound (count + 1))
          else return [parameter])
        fun ids _ => ids = [] ∧ True := by
      refine (expect_yields _ _).after fun parameter => .assuming ?_ _
      refine (accepts_yields _).after fun more => .assuming ?_ _
      cases more with
      | true => exact (ih (count + 1)).returning fun _ _ h => h
      | false => exact .pure _ ⟨rfl, trivial⟩
    unfold parameters
    split
    · exact peek_yields.after fun t => .assuming
        ((report_yields t _).after fun _ => .assuming hrest _) _
    · exact hrest

/-- A function carries the numbers that are given out. -/
theorem function_yields (bound : Nat) (role : FunctionRole) :
    Yields (function bound role nested) fun ids d => d.Numbered ids := by
  have hbody (name : Token) (params : List Token) : Yields
      (do
        let _ ← expect (·.isSymbol .rightParen) .noParametersEnd
        let _ ← expect (·.isSymbol .leftBrace) (.noFunctionBody role)
        let body ← block bound nested
        return FunctionDecl.mk name params body)
      fun ids d => d.Numbered ids :=
    (expect_yields _ _).after fun _ => .assuming
      ((expect_yields _ _).after fun _ => .assuming
        ((block_yields hnested bound).returning fun _ _ h => ⟨h.occurrences, h.wellFormed⟩) _) _
  refine (expect_yields _ _).after fun name => .assuming ?_ _
  refine (expect_yields _ _).after fun _ => .assuming ?_ _
  refine (sees_yields _).after fun isEmpty => .assuming ?_ _
  cases isEmpty with
  | true => exact hbody name []
  | false =>
    exact (parameters_yields bound 0).after fun params => .assuming (hbody name params) _

omit hnested in
/-- Methods carry the numbers that are given out. -/
theorem methods_yields {method : Parser FunctionDecl}
    (hmethod : Yields method fun ids d => d.Numbered ids) (bound : Nat) :
    Yields (methods method bound) fun ids ds => FunctionDecl.AllNumbered ids ds := by
  induction bound with
  | zero => exact .pure [] ⟨.nil, trivial⟩
  | succ bound ih =>
    have hmore (first : FunctionDecl) : Yields
        (do return first :: (← methods method bound))
        fun ids ds => ∃ others, ds = first :: others ∧ FunctionDecl.AllNumbered ids others :=
      ih.returning fun ids others hothers => ⟨others, rfl, hothers⟩
    refine atEnd_yields.after fun ends => .assuming ?_ _
    refine (sees_yields _).after fun stops => .assuming ?_ _
    split
    · exact .pure [] ⟨.nil, trivial⟩
    · refine hmethod.bind hmore ?_
      rintro first before after _ hfirst ⟨others, rfl, hothers⟩
      exact ⟨hfirst.occurrences.append hothers.occurrences, hfirst.wellFormed, hothers.wellFormed⟩

/-- A class carries the numbers that are given out. -/
theorem classDeclaration_yields (bound : Nat) :
    Yields (classDeclaration bound nested) fun ids s => s.Numbered ids := by
  have hclose (name : Token) (ms : List FunctionDecl) : Yields
      (do
        let _ ← expect (·.isSymbol .rightBrace) .noClassEnd
        return Stmt.class name ms)
      fun ids s => ids = [] ∧ s = .class name ms :=
    (expect_yields _ _).after fun _ => .pure _ fun _ => ⟨rfl, rfl⟩
  refine (expect_yields _ _).after fun name => .assuming ?_ _
  refine (expect_yields _ _).after fun _ => .assuming ?_ _
  refine (methods_yields (function_yields hnested bound .method) bound).bind (hclose name) ?_
  rintro ms before after _ hms ⟨rfl, rfl⟩
  rw [List.append_nil]
  exact ⟨hms.occurrences, hms.wellFormed⟩

end Declarations

section Simple

variable (bound : Nat)

/-- An expression that a statement may leave out carries the numbers that are given out. -/
theorem optionalExpression_yields : Yields (some <$> expression bound)
    fun ids e? => (Expr.occurrencesOption e?).Perm ids ∧ ∀ e ∈ e?, e.WellFormed :=
  (expression_yields bound).map fun _ e he => ⟨he.occurrences, fun e' he' => by
    obtain rfl := Option.some.inj he'
    exact he.wellFormed⟩

/-- An expression up to a token that ends its statement carries the numbers that are given out. -/
theorem closed_yields {α : Type} {p : Parser α} {post : List Occurrence → α → Prop}
    {all : List Occurrence → Stmt → Prop} (h : Yields p post) (close : Token → Bool)
    (cause : SyntaxCause) (build : α → Stmt) (hbuild : ∀ ids a, post ids a → all ids (build a)) :
    Yields
      (do
        let a ← p
        let _ ← expect close cause
        return build a) all := by
  have hclose (a : α) : Yields
      (do
        let _ ← expect close cause
        return build a)
      fun ids s => ids = [] ∧ s = build a :=
    (expect_yields _ _).after fun _ => .pure _ fun _ => ⟨rfl, rfl⟩
  refine h.bind hclose ?_
  rintro a before after _ ha ⟨rfl, rfl⟩
  rw [List.append_nil]
  exact hbuild before a ha

/-- The declaration of a variable carries the numbers that are given out. -/
theorem variableDeclaration_yields :
    Yields (variableDeclaration bound) fun ids s => s.Numbered ids := by
  refine (expect_yields _ _).after fun name => ?_
  refine (accepts_yields _).after fun hasInitial => .assuming ?_ _
  have hbuild (ids : List Occurrence) (initial : Option Expr)
      (hinitial : (Expr.occurrencesOption initial).Perm ids ∧ ∀ e ∈ initial, e.WellFormed)
      (hname : name.isIdentifier = true ∧ name.Spelled) :
      Stmt.Numbered ids (.variable name initial) :=
    ⟨hinitial.1, hname.2.identifier hname.1, hinitial.2⟩
  cases hasInitial with
  | true => exact closed_yields (optionalExpression_yields bound) _ _ _ hbuild
  | false => exact closed_yields (.pure none ⟨.nil, by simp⟩) _ _ _ hbuild

/-- An expression with its semicolon carries the numbers that are given out. -/
theorem expressionStatement_yields :
    Yields (expressionStatement bound) fun ids s => s.NumberedBranch ids :=
  closed_yields (expression_yields bound) _ _ _ fun _ _ h => ⟨⟨h.occurrences, h.wellFormed⟩, rfl⟩

/-- A print statement carries the numbers that are given out. -/
theorem printStatement_yields :
    Yields (printStatement bound) fun ids s => s.NumberedBranch ids :=
  closed_yields (expression_yields bound) _ _ _ fun _ _ h => ⟨⟨h.occurrences, h.wellFormed⟩, rfl⟩

/-- A return statement carries the numbers that are given out. -/
theorem returnStatement_yields (keyword : Token) :
    Yields (returnStatement bound keyword) fun ids s => s.NumberedBranch ids := by
  have hbuild (ids : List Occurrence) (value : Option Expr)
      (hvalue : (Expr.occurrencesOption value).Perm ids ∧ ∀ e ∈ value, e.WellFormed) :
      Stmt.NumberedBranch ids (.return keyword value) := ⟨⟨hvalue.1, hvalue.2⟩, rfl⟩
  refine (sees_yields _).after fun isEmpty => .assuming ?_ _
  cases isEmpty with
  | true => exact closed_yields (.pure none ⟨.nil, by simp⟩) _ _ _ hbuild
  | false => exact closed_yields (optionalExpression_yields bound) _ _ _ hbuild

/-- The first clause of a `for` loop carries the numbers that are given out, and none are if it is missing. -/
theorem initialClause_yields : Yields (initialClause bound) fun ids s? =>
    (∀ s, s? = some s → s.Numbered ids) ∧ (s? = none → ids = []) := by
  have hsome {p : Parser Stmt} (hp : Yields p fun ids s => s.Numbered ids) :
      Yields (some <$> p) fun ids s? =>
        (∀ s, s? = some s → s.Numbered ids) ∧ (s? = none → ids = []) :=
    hp.map fun ids s hs => ⟨fun s' hs' => Option.some.inj hs' ▸ hs, fun hnone => by cases hnone⟩
  refine (accepts_yields _).after fun isEmpty => .assuming ?_ _
  cases isEmpty with
  | true => exact .pure none ⟨by simp, fun _ => rfl⟩
  | false =>
    refine (accepts_yields _).after fun isVariable => .assuming ?_ _
    cases isVariable with
    | true => exact hsome (variableDeclaration_yields bound)
    | false => exact hsome ((expressionStatement_yields bound).imp fun _ _ hs => hs.toNumbered)

end Simple

section Branches

variable (bound : Nat) {nested : Parser Stmt}
  (hnested : Yields nested fun ids s => s.NumberedBranch ids)
include hnested

/-- An `if` statement carries the numbers that are given out. -/
theorem ifStatement_yields :
    Yields (ifStatement bound nested) fun ids s => s.NumberedBranch ids := by
  have helse (condition : Expr) (thenBranch : Stmt) : Yields
      (do
        let elseBranch ← if ← accepts (·.isKeyword .else) then some <$> nested else pure none
        return Stmt.conditional condition thenBranch elseBranch)
      fun ids s => ∀ before middle, condition.Numbered before → thenBranch.NumberedBranch middle →
        s.NumberedBranch (before ++ (middle ++ ids)) := by
    refine (accepts_yields _).after fun hasElse => .assuming ?_ _
    cases hasElse with
    | true =>
      refine (hnested.map fun ids s hs => ⟨s, rfl, hs⟩ : Yields (some <$> nested)
        fun ids s? => ∃ s, s? = some s ∧ s.NumberedBranch ids).returning ?_
      rintro ids _ ⟨elseBranch, rfl, h⟩ before middle hcondition hthen
      rw [← List.append_assoc]
      exact ⟨⟨(hcondition.occurrences.append hthen.occurrences).append h.occurrences,
        hcondition.wellFormed, ⟨hthen.declared, hthen.wellFormed⟩, h.declared, h.wellFormed⟩, rfl⟩
    | false =>
      refine .pure _ fun before middle hcondition hthen => ?_
      rw [List.append_nil]
      exact ⟨⟨hcondition.occurrences.append hthen.occurrences, hcondition.wellFormed, hthen.declared,
        hthen.wellFormed⟩, rfl⟩
  have hthen (condition : Expr) : Yields
      (do
        let _ ← expect (·.isSymbol .rightParen) .noIfConditionEnd
        let thenBranch ← nested
        let elseBranch ← if ← accepts (·.isKeyword .else) then some <$> nested else pure none
        return Stmt.conditional condition thenBranch elseBranch)
      fun ids s => ∀ before, condition.Numbered before → s.NumberedBranch (before ++ ids) :=
    (expect_yields _ _).after fun _ => .assuming
      (hnested.bind (helse condition) fun _ middle _ _ hthen hs before hcondition =>
        hs before middle hcondition hthen) _
  refine (expect_yields _ _).after fun _ => .assuming ?_ _
  exact (expression_yields bound).bind hthen fun _ before _ _ hcondition hs => hs before hcondition

/-- A `while` statement carries the numbers that are given out. -/
theorem whileStatement_yields :
    Yields (whileStatement bound nested) fun ids s => s.NumberedBranch ids := by
  have hbody (condition : Expr) : Yields
      (do
        let _ ← expect (·.isSymbol .rightParen) .noWhileConditionEnd
        let body ← nested
        return Stmt.loop condition body)
      fun ids s => ∃ body, s = .loop condition body ∧ body.NumberedBranch ids :=
    (expect_yields _ _).after fun _ => .assuming
      (hnested.returning fun ids body hbody => ⟨body, rfl, hbody⟩) _
  refine (expect_yields _ _).after fun _ => .assuming ?_ _
  refine (expression_yields bound).bind hbody ?_
  rintro condition before after _ hcondition ⟨body, rfl, hbody⟩
  exact ⟨⟨hcondition.occurrences.append hbody.occurrences, hcondition.wellFormed, hbody.declared,
    hbody.wellFormed⟩, rfl⟩

omit hnested in
/-- The loop of a `for` carries the numbers of its parts in the order in which they are read. -/
theorem forLoop_numbered {ids ids₁ ids₂ ids₃ : List Occurrence} {initial : Option Stmt}
    {condition : Expr} {increment : Option Expr} {body : Stmt}
    (hinitial : ∀ s, initial = some s → s.Numbered ids) (hnone : initial = none → ids = [])
    (hcondition : condition.Numbered ids₁)
    (hincrement : (Expr.occurrencesOption increment).Perm ids₂ ∧ ∀ e ∈ increment, e.WellFormed)
    (hbody : body.NumberedBranch ids₃) :
    (forLoop initial condition increment body).NumberedBranch (ids ++ (ids₁ ++ (ids₂ ++ ids₃))) := by
  have hloop : (forLoop none condition increment body).NumberedBranch (ids₁ ++ (ids₂ ++ ids₃)) := by
    cases increment with
    | none =>
      obtain rfl := List.nil_perm.mp hincrement.1
      exact ⟨⟨hcondition.occurrences.append hbody.occurrences, hcondition.wellFormed,
        hbody.declared, hbody.wellFormed⟩, rfl⟩
    | some increment =>
      refine ⟨⟨hcondition.occurrences.append ?_, hcondition.wellFormed, rfl, hbody.wellFormed,
        hincrement.2 _ rfl, trivial⟩, rfl⟩
      have hboth := (hbody.occurrences.append hincrement.1).trans List.perm_append_comm
      simpa [Stmt.occurrences, Stmt.occurrencesAll, Expr.occurrencesOption] using hboth
  cases initial with
  | none =>
    rw [hnone rfl, List.nil_append]
    exact hloop
  | some initial =>
    have hall := (hinitial initial rfl).cons (hloop.toNumbered.cons .nil)
    rw [List.append_nil] at hall
    exact ⟨⟨hall.occurrences, hall.wellFormed⟩, rfl⟩

/-- A `for` statement carries the numbers that are given out, in the loop that it stands for. -/
theorem forStatement_yields :
    Yields (forStatement bound nested) fun ids s => s.NumberedBranch ids := by
  have hbody (initial : Option Stmt) (condition : Expr) (increment : Option Expr) : Yields
      (do
        let _ ← expect (·.isSymbol .rightParen) .noForClausesEnd
        let body ← nested
        return forLoop initial condition increment body)
      fun ids s => ∃ body, s = forLoop initial condition increment body ∧ body.NumberedBranch ids :=
    (expect_yields _ _).after fun _ => .assuming
      (hnested.returning fun ids body hbody => ⟨body, rfl, hbody⟩) _
  -- what is known of the loop when its initial clause and its condition have been read
  have hincrement {increment? : Parser (Option Expr)} (initial : Option Stmt) (condition : Expr)
      (hread : Yields increment? fun ids e? =>
        (Expr.occurrencesOption e?).Perm ids ∧ ∀ e ∈ e?, e.WellFormed) : Yields
      (do
        let increment ← increment?
        let _ ← expect (·.isSymbol .rightParen) .noForClausesEnd
        let body ← nested
        return forLoop initial condition increment body)
      fun ids s => ∀ before middle, (∀ i, initial = some i → i.Numbered before) →
        (initial = none → before = []) → condition.Numbered middle →
        s.NumberedBranch (before ++ (middle ++ ids)) := by
    refine hread.bind (hbody initial condition) ?_
    rintro increment ids₂ ids₃ _ hread ⟨body, rfl, hbody⟩ before middle hinitial hnone hcondition
    exact forLoop_numbered hinitial hnone hcondition hread hbody
  have hcondition {condition? : Parser Expr} (initial : Option Stmt)
      (hread : Yields condition? fun ids e => e.Numbered ids) : Yields
      (do
        let condition ← condition?
        let _ ← expect (·.isSymbol .semicolon) .noForConditionEnd
        let increment ← if ← sees (·.isSymbol .rightParen) then pure none
          else some <$> expression bound
        let _ ← expect (·.isSymbol .rightParen) .noForClausesEnd
        let body ← nested
        return forLoop initial condition increment body)
      fun ids s => ∀ before, (∀ i, initial = some i → i.Numbered before) →
        (initial = none → before = []) → s.NumberedBranch (before ++ ids) := by
    have hrest (condition : Expr) : Yields
        (do
          let _ ← expect (·.isSymbol .semicolon) .noForConditionEnd
          let increment ← if ← sees (·.isSymbol .rightParen) then pure none
            else some <$> expression bound
          let _ ← expect (·.isSymbol .rightParen) .noForClausesEnd
          let body ← nested
          return forLoop initial condition increment body)
        fun ids s => ∀ before middle, (∀ i, initial = some i → i.Numbered before) →
          (initial = none → before = []) → condition.Numbered middle →
          s.NumberedBranch (before ++ (middle ++ ids)) := by
      refine (expect_yields _ _).after fun _ => .assuming ?_ _
      refine (sees_yields _).after fun isEmpty => .assuming ?_ _
      cases isEmpty with
      | true => exact hincrement initial condition (.pure none ⟨.nil, by simp⟩)
      | false => exact hincrement initial condition (optionalExpression_yields bound)
    exact hread.bind hrest fun condition middle _ s hread hs before hinitial hnone =>
      hs before middle hinitial hnone hread
  have hclauses (initial : Option Stmt) : Yields
      (do
        let condition ← if ← sees (·.isSymbol .semicolon) then pure (.literal .true)
          else expression bound
        let _ ← expect (·.isSymbol .semicolon) .noForConditionEnd
        let increment ← if ← sees (·.isSymbol .rightParen) then pure none
          else some <$> expression bound
        let _ ← expect (·.isSymbol .rightParen) .noForClausesEnd
        let body ← nested
        return forLoop initial condition increment body)
      fun ids s => ∀ before, (∀ i, initial = some i → i.Numbered before) →
        (initial = none → before = []) → s.NumberedBranch (before ++ ids) := by
    refine (sees_yields _).after fun isEmpty => .assuming ?_ _
    cases isEmpty with
    | true => exact hcondition initial (.pure _ ⟨.nil, trivial⟩)
    | false => exact hcondition initial (expression_yields bound)
  refine (expect_yields _ _).after fun _ => .assuming ?_ _
  exact (initialClause_yields bound).bind hclauses
    fun initial before _ s hinitial hs => hs before hinitial.1 hinitial.2

end Branches

section Levels

variable {bound : Nat} {nested : Parser Stmt} {declared : Parser (Option Stmt)}
  (hnested : Yields nested fun ids s => s.NumberedBranch ids)
  (hdeclared : Yields declared fun ids s? => ∃ s, s? = some s ∧ s.Numbered ids)
include hnested hdeclared

/-- A statement carries the numbers that are given out, and declares nothing. -/
theorem statementWith_yields :
    Yields (statementWith bound nested declared) fun ids s => s.NumberedBranch ids := by
  refine peek_yields.after fun t => .assuming ?_ _
  split
  · exact advance_yields.after fun _ => .assuming (forStatement_yields bound hnested) _
  · exact advance_yields.after fun _ => .assuming (ifStatement_yields bound hnested) _
  · exact advance_yields.after fun _ => .assuming (whileStatement_yields bound hnested) _
  · exact advance_yields.after fun _ => .assuming (returnStatement_yields bound t) _
  · exact advance_yields.after fun _ => .assuming ((block_yields hdeclared bound).map
      fun ids body h => ⟨⟨h.occurrences, h.wellFormed⟩, rfl⟩) _
  · exact advance_yields.after fun _ => .assuming (printStatement_yields bound) _
  · exact expressionStatement_yields bound

omit hnested in
/-- A declaration carries the numbers that are given out. -/
theorem declarationWith_yields {other : Parser Stmt}
    (hother : Yields other fun ids s => s.NumberedBranch ids) :
    Yields (declarationWith bound other declared) fun ids s => s.Numbered ids := by
  refine peek_yields.after fun t => .assuming ?_ _
  split
  · exact advance_yields.after fun _ => .assuming (classDeclaration_yields hdeclared bound) _
  · exact advance_yields.after fun _ => .assuming ((function_yields hdeclared bound .function).map
      fun ids d h => ⟨h.occurrences, h.wellFormed⟩) _
  · exact advance_yields.after fun _ => .assuming (variableDeclaration_yields bound) _
  · exact hother.imp fun _ _ hs => hs.toNumbered

end Levels

/-- Statements and declarations carry the numbers that are handed out while they are parsed. -/
theorem statement_and_declaration_yield (bound : Nat) :
    (Yields (statement bound) fun ids s => s.NumberedBranch ids) ∧
      Yields (declaration bound) fun ids s? => ∃ s, s? = some s ∧ s.Numbered ids := by
  induction bound with
  | zero => exact ⟨.fail _, recovering_yields (.fail _)⟩
  | succ bound ih =>
    have hstatement : Yields (statement (bound + 1)) fun ids s => s.NumberedBranch ids :=
      statementWith_yields ih.1 ih.2
    exact ⟨hstatement, recovering_yields (declarationWith_yields ih.2 hstatement)⟩

/-- A program carries the numbers that are handed out while it is parsed. -/
theorem program_yields (bound : Nat) :
    Yields (program bound) fun ids ss => Stmt.AllNumbered ids ss :=
  declarationsUntil_yields (statement_and_declaration_yield bound).2 _ bound

end Grammar

end Lox
