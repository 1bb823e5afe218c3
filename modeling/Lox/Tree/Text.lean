import Lox.Tree
import Lox.Number.Text

/-!
# Trees in prefix form

Every compound form is written between parentheses, its head first: `(+ 1.0 (group 2.0))`.
-/

set_option autoImplicit false

namespace Lox

/-- A constant; a string stands for itself, without quotes. -/
def Literal.text : Literal → String
  | .number value => Number.treeText value
  | .string text => text
  | .true => "true"
  | .false => "false"
  | .nil => "nil"

/-- A head and parts between parentheses, with blanks between them. -/
def form (head : String) (parts : List String) : String :=
  "(" ++ " ".intercalate (head :: parts) ++ ")"

mutual

/-- An expression in prefix form. -/
def Expr.text : Expr → String
  | .literal value => value.text
  | .grouping inner => form "group" [inner.text]
  | .unary operator right => form operator.lexeme [right.text]
  | .binary left operator right => form operator.lexeme [left.text, right.text]
  | .logical left operator right => form operator.lexeme [left.text, right.text]
  | .variable _ name => name.lexeme
  | .assign _ name value => form "=" [name.lexeme, value.text]
  | .call callee _ arguments => form "call" (callee.text :: Expr.texts arguments)
  | .get object name => form "." [object.text, name.lexeme]
  | .set object name value => form "=" [form "." [object.text, name.lexeme], value.text]
  | .this _ _ => "this"

/-- Expressions in prefix form, one by one. -/
def Expr.texts : List Expr → List String
  | [] => []
  | e :: rest => e.text :: Expr.texts rest

end

mutual

/-- A statement in prefix form. -/
def Stmt.text : Stmt → String
  | .expression expr => form ";" [expr.text]
  | .print expr => form "print" [expr.text]
  | .variable name none => form "var" [name.lexeme]
  | .variable name (some initial) => form "var" [name.lexeme, initial.text]
  | .block body => form "block" (Stmt.texts body)
  | .conditional condition thenBranch none => form "if" [condition.text, thenBranch.text]
  | .conditional condition thenBranch (some elseBranch) =>
    form "if" [condition.text, thenBranch.text, elseBranch.text]
  | .loop condition body => form "while" [condition.text, body.text]
  | .function declaration => declaration.text
  | .return _ none => form "return" []
  | .return _ (some value) => form "return" [value.text]
  | .class name methods => form "class" (name.lexeme :: FunctionDecl.texts methods)

/-- A function in prefix form: its name, its parameters between parentheses, its body. -/
def FunctionDecl.text : FunctionDecl → String
  | ⟨name, params, body⟩ =>
    form "fun"
      (name.lexeme :: ("(" ++ " ".intercalate (params.map (·.lexeme)) ++ ")") :: Stmt.texts body)

/-- Statements in prefix form, one by one. -/
def Stmt.texts : List Stmt → List String
  | [] => []
  | s :: rest => s.text :: Stmt.texts rest

/-- Functions in prefix form, one by one. -/
def FunctionDecl.texts : List FunctionDecl → List String
  | [] => []
  | d :: rest => d.text :: FunctionDecl.texts rest

end

end Lox
