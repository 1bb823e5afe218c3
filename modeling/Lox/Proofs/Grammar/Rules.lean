import Lox.Grammar.Statement

/-!
# The rules of the grammar

The grammar on its own, as relations between tokens and trees: tokens begin with a phrase of some rule,
the phrase has a tree, and other tokens follow it. Nothing here looks ahead, counts steps or recovers
from errors. Infix operators, calls and properties are given by rules that hold themselves on the left,
so that their trees grow to the left.

Occurrences are not numbered here: each has the number 0. And a statement says whether it ends in an `if`
to which an `else` behind it would belong; what stands before `else` does not, so that an `else` belongs
to the nearest `if`.
-/

set_option autoImplicit false

namespace Lox.Grammar

/-- The levels of infix operators, from the weakest to the strongest. -/
inductive Level where
  | disjunction
  | conjunction
  | equality
  | comparison
  | term
  | factor

/-- The rules for expressions. -/
inductive Rule where
  | expression
  | level (l : Level)
  | unary
  | call
  | primary

namespace Level

/-- Whether a token is an infix operator of the level. -/
def isOperator : Level → Token → Bool
  | disjunction => (·.isKeyword .or)
  | conjunction => (·.isKeyword .and)
  | equality => isEqualityOperator
  | comparison => isComparisonOperator
  | term => isTermOperator
  | factor => isFactorOperator

/-- The tree of an operation. -/
def build : Level → Expr → Token → Expr → Expr
  | disjunction => .logical
  | conjunction => .logical
  | equality => .binary
  | comparison => .binary
  | term => .binary
  | factor => .binary

/-- The rule for the operands of a level. -/
def operand : Level → Rule
  | disjunction => .level .conjunction
  | conjunction => .level .equality
  | equality => .level .comparison
  | comparison => .level .term
  | term => .level .factor
  | factor => .unary

end Level

/-- The constant that a token stands for. -/
def constant? (t : Token) : Option Literal :=
  match t.kind with
  | .keyword .false => some .false
  | .keyword .true => some .true
  | .keyword .nil => some .nil
  | .number value => some (.number value)
  | .string text => some (.string text)
  | _ => none

mutual

/-- Tokens begin with a phrase of a rule, with this tree and with `rest` behind it. -/
inductive Phrase : Rule → List Token → Expr → List Token → Prop where
  | disjunction {tokens e rest} :
      Phrase (.level .disjunction) tokens e rest → Phrase .expression tokens e rest
  | assign {name equals tokens e rest} :
      name.isIdentifier = true → equals.isSymbol .equal = true → Phrase .expression tokens e rest →
      Phrase .expression (name :: equals :: tokens) (.assign 0 name e) rest
  | set {tokens object dot name equals others e rest} :
      Phrase .call tokens object (dot :: name :: equals :: others) → dot.isSymbol .dot = true →
      name.isIdentifier = true → equals.isSymbol .equal = true → Phrase .expression others e rest →
      Phrase .expression tokens (.set object name e) rest
  | operand {l tokens e rest} : Phrase l.operand tokens e rest → Phrase (.level l) tokens e rest
  | operation {l tokens left operator others right rest} :
      Phrase (.level l) tokens left (operator :: others) → l.isOperator operator = true →
      Phrase l.operand others right rest → Phrase (.level l) tokens (l.build left operator right) rest
  | unary {operator tokens right rest} :
      isUnaryOperator operator = true → Phrase .unary tokens right rest →
      Phrase .unary (operator :: tokens) (.unary operator right) rest
  | called {tokens e rest} : Phrase .call tokens e rest → Phrase .unary tokens e rest
  | callEmpty {tokens callee opening closing rest} :
      Phrase .call tokens callee (opening :: closing :: rest) → opening.isSymbol .leftParen = true →
      closing.isSymbol .rightParen = true → Phrase .call tokens (.call callee closing []) rest
  | call {tokens callee opening others arguments closing rest} :
      Phrase .call tokens callee (opening :: others) → opening.isSymbol .leftParen = true →
      Arguments others arguments (closing :: rest) → arguments.length ≤ 8 →
      closing.isSymbol .rightParen = true → Phrase .call tokens (.call callee closing arguments) rest
  | property {tokens object dot name rest} :
      Phrase .call tokens object (dot :: name :: rest) → dot.isSymbol .dot = true →
      name.isIdentifier = true → Phrase .call tokens (.get object name) rest
  | primary {tokens e rest} : Phrase .primary tokens e rest → Phrase .call tokens e rest
  | constant {t value rest} :
      constant? t = some value → Phrase .primary (t :: rest) (.literal value) rest
  | this {t rest} : t.isKeyword .this = true → Phrase .primary (t :: rest) (.this 0 t) rest
  | name {t rest} : t.isIdentifier = true → Phrase .primary (t :: rest) (.variable 0 t) rest
  | grouping {opening tokens e closing rest} :
      opening.isSymbol .leftParen = true → Phrase .expression tokens e (closing :: rest) →
      closing.isSymbol .rightParen = true → Phrase .primary (opening :: tokens) (.grouping e) rest

/-- Tokens begin with arguments, at least one. -/
inductive Arguments : List Token → List Expr → List Token → Prop where
  | last {tokens e rest} : Phrase .expression tokens e rest → Arguments tokens [e] rest
  | more {tokens e comma others arguments rest} :
      Phrase .expression tokens e (comma :: others) → comma.isSymbol .comma = true →
      Arguments others arguments rest → Arguments tokens (e :: arguments) rest

end

/-- Tokens begin with an expression, or there is none. -/
inductive OptionalExpression : List Token → Option Expr → List Token → Prop where
  | none {rest} : OptionalExpression rest none rest
  | some {tokens e rest} : Phrase .expression tokens e rest → OptionalExpression tokens (some e) rest

/-- Tokens begin with parameters, at least one. -/
inductive Parameters : List Token → List Token → List Token → Prop where
  | last {name rest} : name.isIdentifier = true → Parameters (name :: rest) [name] rest
  | more {name comma tokens params rest} :
      name.isIdentifier = true → comma.isSymbol .comma = true → Parameters tokens params rest →
      Parameters (name :: comma :: tokens) (name :: params) rest

/-- Tokens begin with at most eight parameters, or there are none. -/
inductive OptionalParameters : List Token → List Token → List Token → Prop where
  | none {rest} : OptionalParameters rest [] rest
  | some {tokens params rest} :
      Parameters tokens params rest → params.length ≤ 8 → OptionalParameters tokens params rest

/-- Tokens begin with the name, the initializer and the semicolon of a variable. -/
inductive Variable : List Token → Stmt → List Token → Prop where
  | plain {name semicolon rest} :
      name.isIdentifier = true → semicolon.isSymbol .semicolon = true →
      Variable (name :: semicolon :: rest) (.variable name none) rest
  | initialized {name equals tokens e semicolon rest} :
      name.isIdentifier = true → equals.isSymbol .equal = true →
      Phrase .expression tokens e (semicolon :: rest) → semicolon.isSymbol .semicolon = true →
      Variable (name :: equals :: tokens) (.variable name (some e)) rest

/-- Tokens begin with the first clause of a for loop, with its semicolon. -/
inductive InitialClause : List Token → Option Stmt → List Token → Prop where
  | none {semicolon rest} :
      semicolon.isSymbol .semicolon = true → InitialClause (semicolon :: rest) none rest
  | variable {keyword tokens s rest} :
      keyword.isKeyword .var = true → Variable tokens s rest →
      InitialClause (keyword :: tokens) (some s) rest
  | expression {tokens e semicolon rest} :
      Phrase .expression tokens e (semicolon :: rest) → semicolon.isSymbol .semicolon = true →
      InitialClause tokens (some (.expression e)) rest

mutual

/-- Tokens begin with a statement, which ends in an `if` without `else` if it is `dangling`. -/
inductive Statement : (dangling : Bool) → List Token → Stmt → List Token → Prop where
  | expression {tokens e semicolon rest} :
      Phrase .expression tokens e (semicolon :: rest) → semicolon.isSymbol .semicolon = true →
      Statement false tokens (.expression e) rest
  | print {keyword tokens e semicolon rest} :
      keyword.isKeyword .print = true → Phrase .expression tokens e (semicolon :: rest) →
      semicolon.isSymbol .semicolon = true → Statement false (keyword :: tokens) (.print e) rest
  | return {keyword tokens value semicolon rest} :
      keyword.isKeyword .return = true → OptionalExpression tokens value (semicolon :: rest) →
      semicolon.isSymbol .semicolon = true →
      Statement false (keyword :: tokens) (.return keyword value) rest
  | block {opening tokens ss closing rest} :
      opening.isSymbol .leftBrace = true → Declarations tokens ss (closing :: rest) →
      closing.isSymbol .rightBrace = true → Statement false (opening :: tokens) (.block ss) rest
  | if {keyword opening tokens e closing others dangling thenBranch rest} :
      keyword.isKeyword .if = true → opening.isSymbol .leftParen = true →
      Phrase .expression tokens e (closing :: others) → closing.isSymbol .rightParen = true →
      Statement dangling others thenBranch rest →
      Statement true (keyword :: opening :: tokens) (.conditional e thenBranch none) rest
  | ifElse {keyword opening tokens e closing others thenBranch t more dangling elseBranch rest} :
      keyword.isKeyword .if = true → opening.isSymbol .leftParen = true →
      Phrase .expression tokens e (closing :: others) → closing.isSymbol .rightParen = true →
      Statement false others thenBranch (t :: more) → t.isKeyword .else = true →
      Statement dangling more elseBranch rest →
      Statement dangling (keyword :: opening :: tokens)
        (.conditional e thenBranch (some elseBranch)) rest
  | while {keyword opening tokens e closing others dangling body rest} :
      keyword.isKeyword .while = true → opening.isSymbol .leftParen = true →
      Phrase .expression tokens e (closing :: others) → closing.isSymbol .rightParen = true →
      Statement dangling others body rest →
      Statement dangling (keyword :: opening :: tokens) (.loop e body) rest
  | for {keyword opening tokens initial others condition semicolon more increment closing last dangling
        body rest} :
      keyword.isKeyword .for = true → opening.isSymbol .leftParen = true →
      InitialClause tokens initial others → OptionalExpression others condition (semicolon :: more) →
      semicolon.isSymbol .semicolon = true → OptionalExpression more increment (closing :: last) →
      closing.isSymbol .rightParen = true → Statement dangling last body rest →
      Statement dangling (keyword :: opening :: tokens)
        (forLoop initial (condition.getD (.literal .true)) increment body) rest

/-- Tokens begin with a declaration or statement. -/
inductive Declaration : List Token → Stmt → List Token → Prop where
  | class {keyword name opening tokens ds closing rest} :
      keyword.isKeyword .class = true → name.isIdentifier = true → opening.isSymbol .leftBrace = true →
      Methods tokens ds (closing :: rest) → closing.isSymbol .rightBrace = true →
      Declaration (keyword :: name :: opening :: tokens) (.class name ds) rest
  | function {keyword tokens d rest} :
      keyword.isKeyword .fun = true → NamedFunction tokens d rest →
      Declaration (keyword :: tokens) (.function d) rest
  | variable {keyword tokens s rest} :
      keyword.isKeyword .var = true → Variable tokens s rest → Declaration (keyword :: tokens) s rest
  | statement {dangling tokens s rest} : Statement dangling tokens s rest → Declaration tokens s rest

/-- Tokens begin with these declarations. -/
inductive Declarations : List Token → List Stmt → List Token → Prop where
  | none {rest} : Declarations rest [] rest
  | more {tokens s others ss rest} :
      Declaration tokens s others → Declarations others ss rest → Declarations tokens (s :: ss) rest

/-- Tokens begin with a function, from its name on. -/
inductive NamedFunction : List Token → FunctionDecl → List Token → Prop where
  | mk {name opening tokens params closing brace others ss t rest} :
      name.isIdentifier = true → opening.isSymbol .leftParen = true →
      OptionalParameters tokens params (closing :: brace :: others) →
      closing.isSymbol .rightParen = true → brace.isSymbol .leftBrace = true →
      Declarations others ss (t :: rest) → t.isSymbol .rightBrace = true →
      NamedFunction (name :: opening :: tokens) ⟨name, params, ss⟩ rest

/-- Tokens begin with these methods. -/
inductive Methods : List Token → List FunctionDecl → List Token → Prop where
  | none {rest} : Methods rest [] rest
  | more {tokens d others ds rest} :
      NamedFunction tokens d others → Methods others ds rest → Methods tokens (d :: ds) rest

end

/-- Tokens are a program, without the token that ends the input. -/
def Program (tokens : List Token) (program : List Stmt) : Prop := Declarations tokens program []

end Lox.Grammar
