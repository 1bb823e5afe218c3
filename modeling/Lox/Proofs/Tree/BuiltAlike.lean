import Mathlib.Data.List.Forall2
import Lox.Tree.Text

/-!
# Trees that are built alike

Two trees are built alike if they have the same nodes, with the same operators, names, parameters and constants.
What says where they come from is not compared, and numbers are compared as they are written. Trees that are built
alike have the same text.
-/

set_option autoImplicit false

namespace Lox

/-- Two tokens say the same, on whatever lines. -/
def Token.Agrees (t t' : Token) : Prop := t.kind = t'.kind ∧ t.lexeme = t'.lexeme

/-- Two constants are the same, or two numbers that are written the same. -/
inductive Literal.Agrees : Literal → Literal → Prop where
  | same (value : Literal) : Literal.Agrees value value
  | number {x y : Float} : Number.treeText x = Number.treeText y → Literal.Agrees (.number x) (.number y)

mutual

/-- Two expressions are built alike. -/
inductive Expr.BuiltAlike : Expr → Expr → Prop where
  | literal {value value'} : value.Agrees value' → Expr.BuiltAlike (.literal value) (.literal value')
  | grouping {e e'} : Expr.BuiltAlike e e' → Expr.BuiltAlike (.grouping e) (.grouping e')
  | unary {operator operator' e e'} : operator.Agrees operator' → Expr.BuiltAlike e e' →
    Expr.BuiltAlike (.unary operator e) (.unary operator' e')
  | binary {left left' operator operator' right right'} : Expr.BuiltAlike left left' →
    operator.Agrees operator' → Expr.BuiltAlike right right' →
    Expr.BuiltAlike (.binary left operator right) (.binary left' operator' right')
  | logical {left left' operator operator' right right'} : Expr.BuiltAlike left left' →
    operator.Agrees operator' → Expr.BuiltAlike right right' →
    Expr.BuiltAlike (.logical left operator right) (.logical left' operator' right')
  | variable {id id' name name'} : name.Agrees name' →
    Expr.BuiltAlike (.variable id name) (.variable id' name')
  | assign {id id' name name' value value'} : name.Agrees name' → Expr.BuiltAlike value value' →
    Expr.BuiltAlike (.assign id name value) (.assign id' name' value')
  | call {callee callee' paren paren' arguments arguments'} : Expr.BuiltAlike callee callee' →
    Expr.AllBuiltAlike arguments arguments' →
    Expr.BuiltAlike (.call callee paren arguments) (.call callee' paren' arguments')
  | get {object object' name name'} : Expr.BuiltAlike object object' → name.Agrees name' →
    Expr.BuiltAlike (.get object name) (.get object' name')
  | set {object object' name name' value value'} : Expr.BuiltAlike object object' → name.Agrees name' →
    Expr.BuiltAlike value value' → Expr.BuiltAlike (.set object name value) (.set object' name' value')
  | this {id id' keyword keyword'} : Expr.BuiltAlike (.this id keyword) (.this id' keyword')

/-- The expressions of two lists are built alike, one by one. -/
inductive Expr.AllBuiltAlike : List Expr → List Expr → Prop where
  | nil : Expr.AllBuiltAlike [] []
  | cons {e e' es es'} : Expr.BuiltAlike e e' → Expr.AllBuiltAlike es es' →
    Expr.AllBuiltAlike (e :: es) (e' :: es')

end

mutual

/-- Two statements are built alike. -/
inductive Stmt.BuiltAlike : Stmt → Stmt → Prop where
  | expression {e e'} : e.BuiltAlike e' → Stmt.BuiltAlike (.expression e) (.expression e')
  | print {e e'} : e.BuiltAlike e' → Stmt.BuiltAlike (.print e) (.print e')
  | declared {name name'} : name.Agrees name' →
    Stmt.BuiltAlike (.variable name none) (.variable name' none)
  | initialized {name name' e e'} : name.Agrees name' → e.BuiltAlike e' →
    Stmt.BuiltAlike (.variable name (some e)) (.variable name' (some e'))
  | block {body body'} : Stmt.AllBuiltAlike body body' → Stmt.BuiltAlike (.block body) (.block body')
  | if {e e' thenBranch thenBranch'} : e.BuiltAlike e' → Stmt.BuiltAlike thenBranch thenBranch' →
    Stmt.BuiltAlike (.conditional e thenBranch none) (.conditional e' thenBranch' none)
  | ifElse {e e' thenBranch thenBranch' elseBranch elseBranch'} : e.BuiltAlike e' →
    Stmt.BuiltAlike thenBranch thenBranch' → Stmt.BuiltAlike elseBranch elseBranch' →
    Stmt.BuiltAlike (.conditional e thenBranch (some elseBranch))
      (.conditional e' thenBranch' (some elseBranch'))
  | loop {e e' body body'} : e.BuiltAlike e' → Stmt.BuiltAlike body body' →
    Stmt.BuiltAlike (.loop e body) (.loop e' body')
  | function {d d'} : FunctionDecl.BuiltAlike d d' → Stmt.BuiltAlike (.function d) (.function d')
  | returned {keyword keyword'} : Stmt.BuiltAlike (.return keyword none) (.return keyword' none)
  | returnedValue {keyword keyword' e e'} : e.BuiltAlike e' →
    Stmt.BuiltAlike (.return keyword (some e)) (.return keyword' (some e'))
  | class {name name' methods methods'} : name.Agrees name' →
    FunctionDecl.AllBuiltAlike methods methods' →
    Stmt.BuiltAlike (.class name methods) (.class name' methods')

/-- The statements of two lists are built alike, one by one. -/
inductive Stmt.AllBuiltAlike : List Stmt → List Stmt → Prop where
  | nil : Stmt.AllBuiltAlike [] []
  | cons {s s' ss ss'} : Stmt.BuiltAlike s s' → Stmt.AllBuiltAlike ss ss' →
    Stmt.AllBuiltAlike (s :: ss) (s' :: ss')

/-- Two functions are built alike. -/
inductive FunctionDecl.BuiltAlike : FunctionDecl → FunctionDecl → Prop where
  | mk {name name' params params' body body'} : name.Agrees name' →
    List.Forall₂ Token.Agrees params params' → Stmt.AllBuiltAlike body body' →
    FunctionDecl.BuiltAlike ⟨name, params, body⟩ ⟨name', params', body'⟩

/-- The functions of two lists are built alike, one by one. -/
inductive FunctionDecl.AllBuiltAlike : List FunctionDecl → List FunctionDecl → Prop where
  | nil : FunctionDecl.AllBuiltAlike [] []
  | cons {d d' ds ds'} : FunctionDecl.BuiltAlike d d' → FunctionDecl.AllBuiltAlike ds ds' →
    FunctionDecl.AllBuiltAlike (d :: ds) (d' :: ds')

end

/-- Constants that agree are written the same. -/
theorem Literal.Agrees.text_eq {value value' : Literal} (h : value.Agrees value') : value.text = value'.text := by
  cases h with
  | same => rfl
  | number h => exact h

mutual

/-- Expressions that are built alike have the same text. -/
theorem Expr.BuiltAlike.text_eq {e e' : Expr} : e.BuiltAlike e' → e.text = e'.text
  | .literal h => h.text_eq
  | .grouping h => by rw [Expr.text, Expr.text, h.text_eq]
  | .unary hoperator h => by rw [Expr.text, Expr.text, hoperator.2, h.text_eq]
  | .binary hleft hoperator hright => by
    rw [Expr.text, Expr.text, hleft.text_eq, hoperator.2, hright.text_eq]
  | .logical hleft hoperator hright => by
    rw [Expr.text, Expr.text, hleft.text_eq, hoperator.2, hright.text_eq]
  | .variable hname => hname.2
  | .assign hname h => by rw [Expr.text, Expr.text, hname.2, h.text_eq]
  | .call h harguments => by rw [Expr.text, Expr.text, h.text_eq, harguments.texts_eq]
  | .get h hname => by rw [Expr.text, Expr.text, h.text_eq, hname.2]
  | .set h hname hvalue => by rw [Expr.text, Expr.text, h.text_eq, hname.2, hvalue.text_eq]
  | .this => rfl

/-- Expressions that are built alike have the same texts, one by one. -/
theorem Expr.AllBuiltAlike.texts_eq {es es' : List Expr} :
    Expr.AllBuiltAlike es es' → Expr.texts es = Expr.texts es'
  | .nil => rfl
  | .cons h hs => by rw [Expr.texts, Expr.texts, h.text_eq, hs.texts_eq]

end

/-- Tokens that agree are spelled the same. -/
theorem Token.Agrees.map_lexeme_eq {params params' : List Token} (h : List.Forall₂ Token.Agrees params params') :
    params.map (·.lexeme) = params'.map (·.lexeme) := by
  induction h with
  | nil => rfl
  | cons h _ ih => rw [List.map_cons, List.map_cons, h.2, ih]

mutual

/-- Statements that are built alike have the same text. -/
theorem Stmt.BuiltAlike.text_eq {s s' : Stmt} : s.BuiltAlike s' → s.text = s'.text
  | .expression h => by rw [Stmt.text, Stmt.text, h.text_eq]
  | .print h => by rw [Stmt.text, Stmt.text, h.text_eq]
  | .declared hname => by rw [Stmt.text, Stmt.text, hname.2]
  | .initialized hname h => by rw [Stmt.text, Stmt.text, hname.2, h.text_eq]
  | .block h => by rw [Stmt.text, Stmt.text, h.texts_eq]
  | .if h hthen => by rw [Stmt.text, Stmt.text, h.text_eq, hthen.text_eq]
  | .ifElse h hthen helse => by rw [Stmt.text, Stmt.text, h.text_eq, hthen.text_eq, helse.text_eq]
  | .loop h hbody => by rw [Stmt.text, Stmt.text, h.text_eq, hbody.text_eq]
  | .function h => h.text_eq
  | .returned => rfl
  | .returnedValue h => by rw [Stmt.text, Stmt.text, h.text_eq]
  | .class hname h => by rw [Stmt.text, Stmt.text, hname.2, h.texts_eq]

/-- Statements that are built alike have the same texts, one by one. -/
theorem Stmt.AllBuiltAlike.texts_eq {ss ss' : List Stmt} :
    Stmt.AllBuiltAlike ss ss' → Stmt.texts ss = Stmt.texts ss'
  | .nil => rfl
  | .cons h hs => by rw [Stmt.texts, Stmt.texts, h.text_eq, hs.texts_eq]

/-- Functions that are built alike have the same text. -/
theorem FunctionDecl.BuiltAlike.text_eq {d d' : FunctionDecl} : d.BuiltAlike d' → d.text = d'.text
  | .mk hname hparams h => by
    rw [FunctionDecl.text, FunctionDecl.text, hname.2, Token.Agrees.map_lexeme_eq hparams, h.texts_eq]

/-- Functions that are built alike have the same texts, one by one. -/
theorem FunctionDecl.AllBuiltAlike.texts_eq {ds ds' : List FunctionDecl} :
    FunctionDecl.AllBuiltAlike ds ds' → FunctionDecl.texts ds = FunctionDecl.texts ds'
  | .nil => rfl
  | .cons h hs => by rw [FunctionDecl.texts, FunctionDecl.texts, h.text_eq, hs.texts_eq]

end

end Lox
