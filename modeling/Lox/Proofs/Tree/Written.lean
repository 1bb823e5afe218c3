import Lox.Number.Text
import Lox.Proofs.Tree.Relabel

/-!
# Trees written back

Every node of a tree is written in its own source form, with the tokens that it keeps and with new ones
for the rest. There are no parentheses but those of groupings, calls, parameters and the heads of
conditionals and loops, and no braces but those of blocks, functions and classes. All loops are written
with `while`.
-/

set_option autoImplicit false

namespace Lox

/-- What a token says, apart from how a constant is spelled and where the token stands. -/
def Token.face (t : Token) : Kind × String := (t.kind, if t.isIdentifier then t.lexeme else "")

/-- A token for a symbol. -/
def Symbol.token (s : Symbol) : Token := ⟨.symbol s, s.spelling, 1⟩

/-- A token for a reserved word. -/
def Keyword.token (k : Keyword) : Token := ⟨.keyword k, k.spelling, 1⟩

/-- A token for a constant. -/
def Literal.token : Literal → Token
  | .number value => ⟨.number value, Number.tokenText value, 1⟩
  | .string text => ⟨.string text, "\"" ++ text ++ "\"", 1⟩
  | .true => Keyword.true.token
  | .false => Keyword.false.token
  | .nil => Keyword.nil.token

mutual

/-- The tokens of an expression. -/
def Expr.tokens : Expr → List Token
  | .literal value => [value.token]
  | .grouping inner => Symbol.leftParen.token :: inner.tokens ++ [Symbol.rightParen.token]
  | .unary operator right => operator :: right.tokens
  | .binary left operator right => left.tokens ++ operator :: right.tokens
  | .logical left operator right => left.tokens ++ operator :: right.tokens
  | .variable _ name => [name]
  | .assign _ name value => name :: Symbol.equal.token :: value.tokens
  | .call callee paren arguments =>
    callee.tokens ++ Symbol.leftParen.token :: Expr.argumentTokens arguments ++ [paren]
  | .get object name => object.tokens ++ [Symbol.dot.token, name]
  | .set object name value =>
    object.tokens ++ Symbol.dot.token :: name :: Symbol.equal.token :: value.tokens
  | .this _ keyword => [keyword]

/-- The tokens of arguments, with commas between them. -/
def Expr.argumentTokens : List Expr → List Token
  | [] => []
  | [e] => e.tokens
  | e :: rest => e.tokens ++ Symbol.comma.token :: Expr.argumentTokens rest

end

/-- The tokens of an expression that may be missing. -/
def Expr.optionTokens : Option Expr → List Token
  | none => []
  | some e => e.tokens

mutual

/-- The tokens of a statement. -/
def Stmt.tokens : Stmt → List Token
  | .expression expr => expr.tokens ++ [Symbol.semicolon.token]
  | .print expr => Keyword.print.token :: expr.tokens ++ [Symbol.semicolon.token]
  | .variable name none => [Keyword.var.token, name, Symbol.semicolon.token]
  | .variable name (some initial) =>
    Keyword.var.token :: name :: Symbol.equal.token :: initial.tokens ++ [Symbol.semicolon.token]
  | .block body => Symbol.leftBrace.token :: Stmt.tokensAll body ++ [Symbol.rightBrace.token]
  | .conditional condition thenBranch none =>
    Keyword.if.token :: Symbol.leftParen.token :: condition.tokens ++
      Symbol.rightParen.token :: thenBranch.tokens
  | .conditional condition thenBranch (some elseBranch) =>
    Keyword.if.token :: Symbol.leftParen.token :: condition.tokens ++
      Symbol.rightParen.token :: thenBranch.tokens ++ Keyword.else.token :: elseBranch.tokens
  | .loop condition body =>
    Keyword.while.token :: Symbol.leftParen.token :: condition.tokens ++
      Symbol.rightParen.token :: body.tokens
  | .function declaration => Keyword.fun.token :: declaration.tokens
  | .return keyword value => keyword :: Expr.optionTokens value ++ [Symbol.semicolon.token]
  | .class name methods =>
    Keyword.class.token :: name :: Symbol.leftBrace.token :: FunctionDecl.tokensAll methods ++
      [Symbol.rightBrace.token]

/-- The tokens of statements. -/
def Stmt.tokensAll : List Stmt → List Token
  | [] => []
  | s :: rest => s.tokens ++ Stmt.tokensAll rest

/-- The tokens of a function, from its name on. -/
def FunctionDecl.tokens : FunctionDecl → List Token
  | ⟨name, params, body⟩ =>
    name :: Symbol.leftParen.token :: params.intersperse Symbol.comma.token ++
      Symbol.rightParen.token :: Symbol.leftBrace.token :: Stmt.tokensAll body ++
      [Symbol.rightBrace.token]

/-- The tokens of functions. -/
def FunctionDecl.tokensAll : List FunctionDecl → List Token
  | [] => []
  | d :: rest => d.tokens ++ FunctionDecl.tokensAll rest

end

mutual

/-- Numbers are not written. -/
theorem Expr.tokens_anonymous : (e : Expr) → (e.relabel .anonymous).tokens = e.tokens
  | .literal _ => rfl
  | .grouping inner => by simp only [Expr.relabel, Expr.tokens, inner.tokens_anonymous]
  | .unary operator right => congrArg (operator :: ·) right.tokens_anonymous
  | .binary left operator right => by
    simp only [Expr.relabel, Expr.tokens, left.tokens_anonymous, right.tokens_anonymous]
    rfl
  | .logical left operator right => by
    simp only [Expr.relabel, Expr.tokens, left.tokens_anonymous, right.tokens_anonymous]
    rfl
  | .variable _ _ => rfl
  | .assign _ name value => congrArg (name :: Symbol.equal.token :: ·) value.tokens_anonymous
  | .call callee _ arguments => by
    simp only [Expr.relabel, Expr.tokens, callee.tokens_anonymous,
      Expr.argumentTokens_anonymous arguments]
    rfl
  | .get object _ => by
    simp only [Expr.relabel, Expr.tokens, object.tokens_anonymous]
    rfl
  | .set object _ value => by
    simp only [Expr.relabel, Expr.tokens, object.tokens_anonymous, value.tokens_anonymous]
    rfl
  | .this _ _ => rfl

/-- The tokens of arguments do not depend on numbers. -/
theorem Expr.argumentTokens_anonymous : (es : List Expr) →
    Expr.argumentTokens (Expr.relabelAll .anonymous es) = Expr.argumentTokens es
  | [] => rfl
  | [e] => e.tokens_anonymous
  | e :: e' :: rest => by
    have hrest := Expr.argumentTokens_anonymous (e' :: rest)
    simp only [Expr.relabelAll, Expr.argumentTokens] at hrest ⊢
    rw [e.tokens_anonymous, hrest]

end

/-- The tokens of an optional expression do not depend on numbers. -/
theorem Expr.optionTokens_anonymous (e : Option Expr) :
    Expr.optionTokens (e.map (·.relabel .anonymous)) = Expr.optionTokens e := by
  cases e with
  | none => rfl
  | some e => exact e.tokens_anonymous

mutual

/-- The tokens of a statement do not depend on numbers. -/
theorem Stmt.tokens_anonymous : (s : Stmt) → (s.relabel .anonymous).tokens = s.tokens
  | .expression expr => by simp only [Stmt.relabel, Stmt.tokens, expr.tokens_anonymous]
  | .print expr => by simp only [Stmt.relabel, Stmt.tokens, expr.tokens_anonymous]
  | .variable _ none => rfl
  | .variable _ (some initial) => by
    simp only [Stmt.relabel, Stmt.tokens, Option.map_some, initial.tokens_anonymous]
    rfl
  | .block body => by simp only [Stmt.relabel, Stmt.tokens, Stmt.tokensAll_anonymous body]
  | .conditional condition thenBranch none => by
    simp only [Stmt.relabel, Stmt.tokens, condition.tokens_anonymous, thenBranch.tokens_anonymous]
  | .conditional condition thenBranch (some elseBranch) => by
    simp only [Stmt.relabel, Stmt.tokens, condition.tokens_anonymous, thenBranch.tokens_anonymous,
      elseBranch.tokens_anonymous]
  | .loop condition body => by
    simp only [Stmt.relabel, Stmt.tokens, condition.tokens_anonymous, body.tokens_anonymous]
  | .function declaration => congrArg (Keyword.fun.token :: ·) declaration.tokens_anonymous
  | .return _ value => by
    simp only [Stmt.relabel, Stmt.tokens, Expr.optionTokens_anonymous value]
    rfl
  | .class _ methods => by
    simp only [Stmt.relabel, Stmt.tokens, FunctionDecl.tokensAll_anonymous methods]
    rfl

/-- The tokens of statements do not depend on numbers. -/
theorem Stmt.tokensAll_anonymous : (ss : List Stmt) →
    Stmt.tokensAll (Stmt.relabelAll .anonymous ss) = Stmt.tokensAll ss
  | [] => rfl
  | s :: rest => by
    simp only [Stmt.relabelAll, Stmt.tokensAll, s.tokens_anonymous, Stmt.tokensAll_anonymous rest]

/-- The tokens of a function do not depend on numbers. -/
theorem FunctionDecl.tokens_anonymous : (d : FunctionDecl) → (d.relabel .anonymous).tokens = d.tokens
  | ⟨_, params, body⟩ => by
    have hparams : params.map (·.relabel .anonymous) = params := List.map_id' params
    rw [FunctionDecl.relabel, FunctionDecl.tokens, FunctionDecl.tokens, hparams,
      Stmt.tokensAll_anonymous body]
    rfl

/-- The tokens of functions do not depend on numbers. -/
theorem FunctionDecl.tokensAll_anonymous : (ds : List FunctionDecl) →
    FunctionDecl.tokensAll (FunctionDecl.relabelAll .anonymous ds) = FunctionDecl.tokensAll ds
  | [] => rfl
  | d :: rest => by
    simp only [FunctionDecl.relabelAll, FunctionDecl.tokensAll, d.tokens_anonymous,
      FunctionDecl.tokensAll_anonymous rest]

end

end Lox
