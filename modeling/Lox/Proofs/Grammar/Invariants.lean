import Lox.Proofs.Grammar.RecoveryFollows

/-!
# Invariants of a parse

A parser does few things to its state: it reads tokens, it hands out numbers, it records errors that do not
disturb it, and at any other error it gives up the declaration that it is in, skipping tokens. What outlives
each of these steps outlives the parse, at every nesting of the rules.
-/

set_option autoImplicit false

namespace Lox

/-- Whether an error of this cause gives up the declaration in which it occurs. The others are only recorded. -/
def SyntaxCause.unwinds : SyntaxCause → Bool
  | .badAssignmentTarget => false
  | .tooManyParameters => false
  | .tooManyArguments => false
  | _ => true

namespace Grammar

open Lox.Parser

/-- A property of states outlives every step of a parser. The tokens that are seen have the property `P`, and only
those are blamed. An error that unwinds blames the next token, wherever it is recorded in the end. -/
structure Stable (P : Token → Prop) (I : ParserState → Prop) : Prop where
  seen {s : ParserState} : I s → ∀ t ∈ s.last :: s.rest, P t
  read {s : ParserState} {rest : List Token} : I s → rest <:+ s.rest → I { s with rest }
  numbered {s : ParserState} : I s → I { s with nextId := s.nextId + 1 }
  reported {s : ParserState} {t : Token} {cause : SyntaxCause} :
    I s → P t → cause.unwinds = false → I (s.recorded ⟨t, cause⟩)
  recovered {s : ParserState} {cause : SyntaxCause} : I s → cause.unwinds = true →
    I { s.recorded ⟨s.rest.headD s.last, cause⟩ with rest := skip s.rest }

/-- A parser keeps a property of states, and stops only at errors that unwind. -/
def Keeps {α : Type} (I : ParserState → Prop) (p : Parser α) : Prop :=
  ∀ s, I s → match p s with
    | .ok _ t => I t
    | .error e t => I t ∧ e.token = t.rest.headD t.last ∧ e.cause.unwinds = true

namespace Keeps

variable {α β : Type} {I : ParserState → Prop} {p : Parser α}

/-- A value at hand keeps any property of states. -/
theorem pure (a : α) : Keeps I (Pure.pure a : Parser α) := fun _ hs => hs

/-- Two parsers in a row keep the property if each does. -/
theorem bind {f : α → Parser β} (h : Keeps I p) (hf : ∀ a, Keeps I (f a)) : Keeps I (p >>= f) := by
  intro s hs
  have hp := h s hs
  show match EStateM.bind p f s with
    | .ok _ t => I t
    | .error e t => I t ∧ e.token = t.rest.headD t.last ∧ e.cause.unwinds = true
  unfold EStateM.bind
  cases hrun : p s with
  | error e t =>
    rw [hrun] at hp
    exact hp
  | ok a t =>
    rw [hrun] at hp
    exact hf a t hp

/-- A property is kept if the result is changed by a function. -/
theorem map {g : α → β} (h : Keeps I p) : Keeps I (g <$> p) := by
  rw [map_eq_pure_bind]
  exact h.bind fun a => .pure (g a)

/-- An error that unwinds keeps every property of states, since the state is left as it is. -/
theorem fail {cause : SyntaxCause} (hcause : cause.unwinds = true) : Keeps I (Parser.fail cause : Parser α) :=
  fun _ hs => ⟨hs, rfl, hcause⟩

/-- Asking about the next token changes nothing. -/
theorem sees (p : Token → Bool) : Keeps I (Parser.sees p) := fun _ hs => hs

/-- Asking for the end changes nothing. -/
theorem atEnd : Keeps I Parser.atEnd := fun _ hs => hs

end Keeps

namespace Stable

variable {α : Type} {P : Token → Prop} {I : ParserState → Prop} (h : Stable P I)
include h

section Steps

/-- The token that comes next is one that is seen. -/
theorem next {s : ParserState} (hs : I s) : P (s.rest.headD s.last) := by
  refine h.seen hs _ ?_
  cases s.rest with
  | nil => exact List.mem_cons_self ..
  | cons t rest => exact List.mem_cons_of_mem _ (List.mem_cons_self ..)

/-- A stable property is kept when a number is given out. -/
theorem fresh : Keeps I Parser.fresh := fun _ hs => h.numbered hs

/-- A stable property is kept when a token is read. -/
theorem advance : Keeps I Parser.advance := fun _ hs => h.read hs (List.tail_suffix _)

/-- Looking at the next token keeps a property if what follows does so for every token that may be seen. -/
theorem peek {f : Token → Parser α} (hf : ∀ t, P t → Keeps I (f t)) : Keeps I (Parser.peek >>= f) :=
  fun s hs => hf _ (h.next hs) s hs

/-- A stable property is kept when an error is recorded that does not unwind. -/
theorem report {t : Token} {cause : SyntaxCause} (ht : P t) (hcause : cause.unwinds = false) :
    Keeps I (Parser.report t cause) := fun _ hs => h.reported hs ht hcause

/-- An optional token keeps a property if what follows does so, with the token and without. -/
theorem accept? (p : Token → Bool) {f : Option Token → Parser α} (hnone : Keeps I (f none))
    (hsome : ∀ t, P t → Keeps I (f (some t))) : Keeps I (Parser.accept? p >>= f) := by
  intro s hs
  rw [accept?_bind_apply]
  cases hrest : s.rest with
  | nil => exact hnone s hs
  | cons t rest =>
    dsimp only
    cases p t with
    | true => exact hsome t (h.seen hs t (by simp [hrest])) _ (h.read hs (hrest ▸ List.suffix_cons t rest))
    | false => exact hnone s hs

/-- A token that may be there is read or left, which keeps the property. -/
theorem accepts (p : Token → Bool) : Keeps I (Parser.accepts p) :=
  h.accept? p (.pure _) fun _ _ => .pure _

/-- A token that is expected is read, or blamed by an error that unwinds. -/
theorem expect (p : Token → Bool) {cause : SyntaxCause} (hcause : cause.unwinds = true) :
    Keeps I (Parser.expect p cause) :=
  h.accept? p (.fail hcause) fun t _ => .pure t

/-- The next token may be reported before a parser goes on. -/
theorem reportIf {test : Prop} [Decidable test] {cause : SyntaxCause} (hcause : cause.unwinds = false)
    {p : Parser α} (hp : Keeps I p) :
    Keeps I
      (do
        if test then Parser.report (← Parser.peek) cause
        p) := by
  split
  · exact h.peek fun t ht => (h.report ht hcause).bind fun _ => hp
  · exact hp

/-- Where a declaration is given up, its error is recorded at the token from which it unwinds. -/
theorem recovering {p : Parser Stmt} (hp : Keeps I p) : Keeps I (Grammar.recovering p) := by
  intro s hs
  have hrun := hp s hs
  unfold Grammar.recovering
  cases hps : p s with
  | ok stmt t =>
    rw [hps] at hrun
    exact hrun
  | error e t =>
    rw [hps] at hrun
    obtain ⟨ht, htoken, hcause⟩ := hrun
    have hrecovered := h.recovered ht hcause
    rwa [← htoken] at hrecovered

end Steps

section Expressions

/-- A level of infix operators keeps the property if its operands do. -/
theorem chain (isOperator : Token → Bool) (build : Expr → Token → Expr → Expr) {operand : Parser Expr}
    (hoperand : Keeps I operand) (bound : Nat) : Keeps I (Grammar.chain bound isOperator build operand) := by
  refine hoperand.bind fun left => ?_
  induction bound generalizing left with
  | zero => exact .pure left
  | succ bound ih =>
    exact h.accept? _ (.pure left) fun operator _ => hoperand.bind fun right => ih (build left operator right)

/-- Prefix operators keep the property if their operand does. -/
theorem unary {operand : Parser Expr} (hoperand : Keeps I operand) (bound : Nat) :
    Keeps I (Grammar.unary operand bound) := by
  induction bound with
  | zero => exact hoperand
  | succ bound ih => exact h.accept? _ hoperand fun operator _ => ih.bind fun _ => .pure _

variable {nested : Parser Expr} (hnested : Keeps I nested)
include hnested

/-- Arguments keep the property if expressions do. -/
theorem arguments (bound count : Nat) : Keeps I (Grammar.arguments nested bound count) := by
  induction bound generalizing count with
  | zero => exact .fail rfl
  | succ bound ih =>
    refine h.reportIf rfl (hnested.bind fun argument => (h.accepts _).bind fun more => ?_)
    cases more with
    | true => exact (ih (count + 1)).bind fun _ => .pure _
    | false => exact .pure _

/-- Primary expressions keep the property. -/
theorem primary : Keeps I (Grammar.primary nested) := by
  refine h.peek fun t _ => ?_
  split
  · exact h.advance.bind fun _ => .pure _
  · exact h.advance.bind fun _ => .pure _
  · exact h.advance.bind fun _ => .pure _
  · exact h.advance.bind fun _ => .pure _
  · exact h.advance.bind fun _ => .pure _
  · exact h.advance.bind fun _ => h.fresh.bind fun _ => .pure _
  · exact h.advance.bind fun _ => h.fresh.bind fun _ => .pure _
  · exact h.advance.bind fun _ => hnested.bind fun inner => (h.expect _ rfl).bind fun _ => .pure _
  · exact .fail rfl

/-- Calls and properties behind a callee keep the property. -/
theorem call (bound : Nat) : Keeps I (Grammar.call bound nested) := by
  refine (h.primary hnested).bind fun callee => ?_
  induction bound generalizing callee with
  | zero => exact .pure callee
  | succ bound ih =>
    have hclose (args : List Expr) : Keeps I
        (do
          let paren ← Parser.expect (·.isSymbol .rightParen) .noArgumentsEnd
          callFrom nested bound (.call callee paren args)) :=
      (h.expect _ rfl).bind fun paren => ih _
    refine (h.accepts _).bind fun isCall => ?_
    cases isCall with
    | true =>
      refine (Keeps.sees _).bind fun isEmpty => ?_
      cases isEmpty with
      | true => exact hclose []
      | false => exact (h.arguments hnested (bound + 1) 0).bind hclose
    | false =>
      refine (h.accepts _).bind fun isProperty => ?_
      cases isProperty with
      | true => exact (h.expect _ rfl).bind fun name => ih _
      | false => exact .pure callee

/-- All levels of infix operators keep the property. -/
theorem disjunction (bound : Nat) : Keeps I (Grammar.disjunction bound nested) := by
  have hfactor : Keeps I (factor bound nested) := h.chain _ _ (h.unary (h.call hnested bound) bound) bound
  have hcomparison : Keeps I (comparison bound nested) := h.chain _ _ (h.chain _ _ hfactor bound) bound
  have hconjunction : Keeps I (conjunction bound nested) := h.chain _ _ (h.chain _ _ hcomparison bound) bound
  exact h.chain _ _ hconjunction bound

/-- A target that takes no value is reported at an equals sign that has been read. -/
theorem assignment (bound : Nat) : Keeps I (Grammar.assignment bound nested) := by
  refine (h.disjunction hnested bound).bind fun target => h.accept? _ (.pure target) fun equals hequals => ?_
  refine hnested.bind fun value => ?_
  split
  · exact .pure _
  · exact (h.report hequals rfl).bind fun _ => .pure target

omit hnested in
/-- Expressions keep the property, to any depth that is allotted. -/
theorem expression (bound : Nat) : Keeps I (Grammar.expression bound) := by
  induction bound with
  | zero => exact .fail rfl
  | succ bound ih => exact h.assignment ih (bound + 1)

end Expressions

section Declarations

variable {declaration : Parser (Option Stmt)} (hdeclaration : Keeps I declaration)
include hdeclaration

omit h in
/-- Declarations up to a stop keep the property. -/
theorem declarationsUntil (stop : Token → Bool) (bound : Nat) :
    Keeps I (Grammar.declarationsUntil stop declaration bound) := by
  induction bound with
  | zero => exact .pure []
  | succ bound ih =>
    refine Keeps.atEnd.bind fun ended => (Keeps.sees stop).bind fun stopped => ?_
    split
    · exact .pure []
    · exact hdeclaration.bind fun first => ih.bind fun others => .pure _

/-- A block keeps the property. -/
theorem block (bound : Nat) : Keeps I (Grammar.block bound declaration) :=
  (declarationsUntil hdeclaration _ bound).bind fun body => (h.expect _ rfl).bind fun _ => .pure body

omit hdeclaration in
/-- Parameters keep the property, also beyond the eighth. -/
theorem parameters (bound count : Nat) : Keeps I (Grammar.parameters bound count) := by
  induction bound generalizing count with
  | zero => exact .fail rfl
  | succ bound ih =>
    refine h.reportIf rfl ((h.expect _ rfl).bind fun parameter => (h.accepts _).bind fun more => ?_)
    cases more with
    | true => exact (ih (count + 1)).bind fun _ => .pure _
    | false => exact .pure _

/-- A function keeps the property. -/
theorem function (bound : Nat) (role : FunctionRole) : Keeps I (Grammar.function bound role declaration) := by
  have hbody (name : Token) (params : List Token) : Keeps I
      (do
        let _ ← Parser.expect (·.isSymbol .rightParen) .noParametersEnd
        let _ ← Parser.expect (·.isSymbol .leftBrace) (.noFunctionBody role)
        let body ← Grammar.block bound declaration
        return FunctionDecl.mk name params body) :=
    (h.expect _ rfl).bind fun _ => (h.expect _ rfl).bind fun _ => (h.block hdeclaration bound).bind fun _ => .pure _
  refine (h.expect _ rfl).bind fun name => (h.expect _ rfl).bind fun _ => (Keeps.sees _).bind fun isEmpty => ?_
  cases isEmpty with
  | true => exact hbody name []
  | false => exact (h.parameters bound 0).bind (hbody name)

/-- A class keeps the property. -/
theorem classDeclaration (bound : Nat) : Keeps I (Grammar.classDeclaration bound declaration) := by
  have hmethods (count : Nat) : Keeps I (methods (Grammar.function bound .method declaration) count) := by
    induction count with
    | zero => exact .pure []
    | succ count ih =>
      refine Keeps.atEnd.bind fun ended => (Keeps.sees _).bind fun stopped => ?_
      split
      · exact .pure []
      · exact (h.function hdeclaration bound .method).bind fun first => ih.bind fun others => .pure _
  exact (h.expect _ rfl).bind fun name => (h.expect _ rfl).bind fun _ => (hmethods bound).bind fun ms =>
    (h.expect _ rfl).bind fun _ => .pure _

end Declarations

section Statements

variable (bound : Nat)

/-- What is read up to a token that ends its statement keeps the property if it does so alone. -/
theorem closed {p : Parser α} (hp : Keeps I p) (close : Token → Bool) {cause : SyntaxCause}
    (hcause : cause.unwinds = true) (build : α → Stmt) : Keeps I
      (do
        let a ← p
        let _ ← Parser.expect close cause
        return build a) :=
  hp.bind fun _ => (h.expect close hcause).bind fun _ => .pure _

/-- The declaration of a variable keeps the property. -/
theorem variableDeclaration : Keeps I (Grammar.variableDeclaration bound) := by
  refine (h.expect _ rfl).bind fun name => (h.accepts _).bind fun hasInitial => ?_
  cases hasInitial with
  | true => exact h.closed (h.expression bound).map _ rfl (.variable name)
  | false => exact h.closed (.pure none) _ rfl (.variable name)

/-- An expression with its semicolon keeps the property. -/
theorem expressionStatement : Keeps I (Grammar.expressionStatement bound) :=
  h.closed (h.expression bound) _ rfl .expression

/-- A return statement keeps the property. -/
theorem returnStatement (keyword : Token) : Keeps I (Grammar.returnStatement bound keyword) := by
  refine (Keeps.sees _).bind fun isEmpty => ?_
  cases isEmpty with
  | true => exact h.closed (.pure none) _ rfl (.return keyword)
  | false => exact h.closed (h.expression bound).map _ rfl (.return keyword)

/-- The first clause of a `for` loop keeps the property. -/
theorem initialClause : Keeps I (Grammar.initialClause bound) := by
  refine (h.accepts _).bind fun isEmpty => ?_
  cases isEmpty with
  | true => exact .pure none
  | false =>
    refine (h.accepts _).bind fun isVariable => ?_
    cases isVariable with
    | true => exact (h.variableDeclaration bound).map
    | false => exact (h.expressionStatement bound).map

variable {nested : Parser Stmt} (hnested : Keeps I nested)
include hnested

/-- An `if` statement keeps the property. -/
theorem ifStatement : Keeps I (Grammar.ifStatement bound nested) := by
  refine (h.expect _ rfl).bind fun _ => (h.expression bound).bind fun condition => (h.expect _ rfl).bind fun _ =>
    hnested.bind fun thenBranch => (h.accepts _).bind fun hasElse => ?_
  cases hasElse with
  | true => exact hnested.map.bind fun _ => .pure _
  | false => exact .pure _

/-- A `while` statement keeps the property. -/
theorem whileStatement : Keeps I (Grammar.whileStatement bound nested) :=
  (h.expect _ rfl).bind fun _ => (h.expression bound).bind fun _ => (h.expect _ rfl).bind fun _ =>
    hnested.bind fun _ => .pure _

/-- A `for` statement keeps the property. -/
theorem forStatement : Keeps I (Grammar.forStatement bound nested) := by
  have hbody (initial : Option Stmt) (condition : Expr) (increment : Option Expr) : Keeps I
      (do
        let _ ← Parser.expect (·.isSymbol .rightParen) .noForClausesEnd
        let body ← nested
        return forLoop initial condition increment body) :=
    (h.expect _ rfl).bind fun _ => hnested.bind fun body => .pure _
  have hincrement (initial : Option Stmt) (condition : Expr) : Keeps I
      (do
        let _ ← Parser.expect (·.isSymbol .semicolon) .noForConditionEnd
        let increment ← if ← Parser.sees (·.isSymbol .rightParen) then pure none
          else some <$> Grammar.expression bound
        let _ ← Parser.expect (·.isSymbol .rightParen) .noForClausesEnd
        let body ← nested
        return forLoop initial condition increment body) := by
    refine (h.expect _ rfl).bind fun _ => (Keeps.sees _).bind fun isEmpty => ?_
    cases isEmpty with
    | true => exact hbody initial condition none
    | false => exact (h.expression bound).map.bind (hbody initial condition)
  refine (h.expect _ rfl).bind fun _ => (h.initialClause bound).bind fun initial => (Keeps.sees _).bind
    fun isEmpty => ?_
  cases isEmpty with
  | true => exact hincrement initial (.literal .true)
  | false => exact (h.expression bound).bind (hincrement initial)

variable {declaration : Parser (Option Stmt)} (hdeclaration : Keeps I declaration)
include hdeclaration

/-- Every statement keeps the property if those nested in it do. -/
theorem statementWith : Keeps I (Grammar.statementWith bound nested declaration) := by
  refine h.peek fun t _ => ?_
  split
  · exact h.advance.bind fun _ => h.forStatement bound hnested
  · exact h.advance.bind fun _ => h.ifStatement bound hnested
  · exact h.advance.bind fun _ => h.whileStatement bound hnested
  · exact h.advance.bind fun _ => h.returnStatement bound t
  · exact h.advance.bind fun _ => (h.block hdeclaration bound).map
  · exact h.advance.bind fun _ => h.closed (h.expression bound) _ rfl .print
  · exact h.expressionStatement bound

/-- Every declaration keeps the property if those nested in it do. -/
theorem declarationWith : Keeps I (Grammar.declarationWith bound nested declaration) := by
  refine h.peek fun t _ => ?_
  split
  · exact h.advance.bind fun _ => h.classDeclaration hdeclaration bound
  · exact h.advance.bind fun _ => (h.function hdeclaration bound .function).map
  · exact h.advance.bind fun _ => h.variableDeclaration bound
  · exact hnested

end Statements

/-- Statements and declarations keep what is stable, wherever they stand. -/
theorem statement_and_declaration (bound : Nat) :
    Keeps I (statement bound) ∧ Keeps I (Grammar.declaration bound) := by
  induction bound with
  | zero => exact ⟨.fail rfl, h.recovering (.fail rfl)⟩
  | succ bound ih =>
    have hstatement : Keeps I (statement (bound + 1)) := h.statementWith (bound + 1) ih.1 ih.2
    exact ⟨hstatement, h.recovering (h.declarationWith (bound + 1) hstatement ih.2)⟩

/-- What is stable holds where a program ends, if it holds where the program begins. -/
theorem program (bound : Nat) : Keeps I (Grammar.program bound) :=
  declarationsUntil (h.statement_and_declaration bound).2 _ bound

end Stable

end Grammar

end Lox
