import Lox.Proofs.Grammar.Rules
import Lox.Proofs.Tree.Written

/-!
# Loops written with `while`

A loop that begins with `for` has the tree of a loop that begins with `while`, in a block with its initial
clause and around a block with its increment. So there are other tokens for the same tree. They stand
wherever the loop does: they end in an `if` without `else` only if the loop does.
-/

set_option autoImplicit false

namespace Lox.Grammar

/-- Tokens stand for a statement, whatever comes behind them. They may end in an `if` without `else` only if they are
allowed to. -/
def StandsFor (dangling : Bool) (tokens : List Token) (s : Stmt) : Prop :=
  ∃ ends, (ends = true → dangling = true) ∧ ∀ rest, Statement ends (tokens ++ rest) s rest

/-- The tokens of a block. -/
def braced (tokens : List Token) : List Token :=
  Symbol.leftBrace.token :: tokens ++ [Symbol.rightBrace.token]

/-- The tokens of a loop written with `while`, from those of its parts: the initial clause with its
semicolon, the condition, the increment and the body. Braces stand only around clauses that there are. -/
def whileTokens (initial : Option (List Token)) (condition : List Token) (increment : Option (List Token))
    (body : List Token) : List Token :=
  let body := increment.elim body fun increment => braced (body ++ (increment ++ [Symbol.semicolon.token]))
  let loop := Keyword.while.token :: Symbol.leftParen.token :: condition ++ Symbol.rightParen.token :: body
  initial.elim loop fun initial => braced (initial ++ loop)

/-- The tree of a loop is written with `while`. -/
theorem forLoop_tokens (initial : Option Stmt) (condition : Expr) (increment : Option Expr) (body : Stmt) :
    (forLoop initial condition increment body).tokens =
      whileTokens (initial.map Stmt.tokens) condition.tokens (increment.map Expr.tokens) body.tokens := by
  cases initial <;> cases increment <;> simp [forLoop, whileTokens, braced, Stmt.tokens, Stmt.tokensAll]

/-- What is known of the tokens of the parts, and of all symbols and reserved words, is known of the tokens
of the loop. -/
theorem whileTokens_forall {P : Token → Prop} (hsymbol : ∀ k : Symbol, P k.token)
    (hkeyword : ∀ k : Keyword, P k.token) {initial : Option (List Token)} {condition : List Token}
    {increment : Option (List Token)} {body : List Token} (hinitial : ∀ a ∈ initial, ∀ t ∈ a, P t)
    (hcondition : ∀ t ∈ condition, P t) (hincrement : ∀ a ∈ increment, ∀ t ∈ a, P t)
    (hbody : ∀ t ∈ body, P t) : ∀ t ∈ whileTokens initial condition increment body, P t := by
  cases initial <;> cases increment <;>
    simp_all [whileTokens, braced, or_imp]

namespace StandsFor

variable {d : Bool} {s t : Stmt} {a b : List Token}

/-- Two statements in braces are a block. -/
theorem pair (ht : StandsFor d b t) (hs : ∀ rest, Declaration (a ++ rest) s rest) :
    StandsFor d (braced (a ++ b)) (.block [s, t]) := by
  obtain ⟨_, -, ht⟩ := ht
  refine ⟨false, by simp, fun rest => ?_⟩
  have hboth : Declarations (a ++ (b ++ Symbol.rightBrace.token :: rest)) [s, t]
      (Symbol.rightBrace.token :: rest) := .more (hs _) (.more (.statement (ht _)) .none)
  simpa [braced] using Statement.block rfl hboth rfl

/-- A statement and an expression in braces are a block. -/
theorem followed {e : Expr} (hs : StandsFor d a s) (he : ∀ rest, Phrase .expression (b ++ rest) e rest) :
    StandsFor d (braced (a ++ (b ++ [Symbol.semicolon.token]))) (.block [s, .expression e]) := by
  obtain ⟨_, -, hs⟩ := hs
  have hlast : StandsFor d (b ++ [Symbol.semicolon.token]) (.expression e) :=
    ⟨false, by simp, fun rest => by simpa using .expression (he (Symbol.semicolon.token :: rest)) rfl⟩
  exact hlast.pair fun rest => .statement (hs rest)

section Conditions

variable {keyword opening closing : Token} {condition : List Token} {e : Expr}
  (hopening : opening.isSymbol .leftParen = true)
  (hcondition : ∀ rest, Phrase .expression (condition ++ rest) e rest)
  (hclosing : closing.isSymbol .rightParen = true)
include hopening hcondition hclosing

/-- A statement behind a condition is a loop. -/
theorem loop (hkeyword : keyword.isKeyword .while = true) (hs : StandsFor d b s) :
    StandsFor d (keyword :: opening :: (condition ++ closing :: b)) (.loop e s) := by
  obtain ⟨ends, hends, hs⟩ := hs
  refine ⟨ends, hends, fun rest => ?_⟩
  simpa using Statement.while hkeyword hopening (hcondition (closing :: (b ++ rest))) hclosing (hs rest)

/-- An `else` behind a conditional without one would belong to it. -/
theorem conditional (hkeyword : keyword.isKeyword .if = true) (hs : StandsFor d b s) :
    StandsFor true (keyword :: opening :: (condition ++ closing :: b)) (.conditional e s none) := by
  obtain ⟨_, -, hs⟩ := hs
  refine ⟨true, id, fun rest => ?_⟩
  simpa using Statement.if hkeyword hopening (hcondition (closing :: (b ++ rest))) hclosing (hs rest)

/-- Before its `else`, a conditional has a statement to which this cannot belong. -/
theorem conditionalElse {t : Token} {c : List Token} {s' : Stmt} (hkeyword : keyword.isKeyword .if = true)
    (hs : StandsFor false b s) (ht : t.isKeyword .else = true) (hs' : StandsFor d c s') :
    StandsFor d (keyword :: opening :: (condition ++ closing :: (b ++ t :: c)))
      (.conditional e s (some s')) := by
  obtain ⟨ends, hends, hs⟩ := hs
  obtain ⟨ends', hends', hs'⟩ := hs'
  obtain rfl : ends = false := by simpa using hends
  refine ⟨ends', hends', fun rest => ?_⟩
  simpa using Statement.ifElse hkeyword hopening (hcondition (closing :: (b ++ t :: (c ++ rest)))) hclosing
    (hs _) ht (hs' rest)

end Conditions

/-- Written with `while`, the parts of a loop are a loop. -/
theorem whileTokens {initial : Option (List Token)} {s? : Option Stmt} {condition : List Token} {e : Expr}
    {increment : Option (List Token)} {e? : Option Expr} {body : List Token}
    (hinitial : Option.Rel (fun a s => ∀ rest, Declaration (a ++ rest) s rest) initial s?)
    (hcondition : ∀ rest, Phrase .expression (condition ++ rest) e rest)
    (hincrement : Option.Rel (fun a e => ∀ rest, Phrase .expression (a ++ rest) e rest) increment e?)
    (hbody : StandsFor d body s) :
    StandsFor d (whileTokens initial condition increment body) (forLoop s? e e? s) := by
  have hloop {tokens : List Token} {s : Stmt} (hs : StandsFor d tokens s) :
      StandsFor d (Keyword.while.token :: Symbol.leftParen.token ::
        (condition ++ Symbol.rightParen.token :: tokens)) (.loop e s) :=
    loop rfl hcondition rfl rfl hs
  cases hincrement with
  | none =>
    cases hinitial with
    | none => exact hloop hbody
    | some hfirst => exact (hloop hbody).pair hfirst
  | some hlast =>
    cases hinitial with
    | none => exact hloop (hbody.followed hlast)
    | some hfirst => exact (hloop (hbody.followed hlast)).pair hfirst

end StandsFor

end Lox.Grammar
