import Lox.Tree

/-!
# Trees with other numbers and lines

Occurrence numbers and lines say where a part of a tree comes from; neither decides what the tree
means. A relabeling changes both throughout a tree. It is the bridge between trees of the same text
that were parsed at different times or at different places: such trees agree once the labels are
taken away.
-/

set_option autoImplicit false

namespace Lox

/-- A change of occurrence numbers and of lines. -/
structure Relabeling where
  occurrence : Occurrence → Occurrence
  line : Nat → Nat

namespace Relabeling

/-- No change. -/
def id : Relabeling := ⟨fun i => i, fun n => n⟩

/-- Takes away the occurrence numbers. -/
def anonymous : Relabeling := ⟨fun _ => 0, fun n => n⟩

/-- Takes away the occurrence numbers and the lines. -/
def bare : Relabeling := ⟨fun _ => 0, fun _ => 0⟩

/-- One change after the other. -/
def andThen (R S : Relabeling) : Relabeling :=
  ⟨fun i => S.occurrence (R.occurrence i), fun n => S.line (R.line n)⟩

end Relabeling

/-- The token on its new line. -/
def Token.relabel (R : Relabeling) (t : Token) : Token := { t with line := R.line t.line }

/-- Relabeling keeps the kind of a token. -/
@[simp] theorem Token.relabel_kind (R : Relabeling) (t : Token) : (t.relabel R).kind = t.kind := rfl

/-- Relabeling keeps the spelling of a token. -/
@[simp] theorem Token.relabel_lexeme (R : Relabeling) (t : Token) :
    (t.relabel R).lexeme = t.lexeme := rfl

/-- Relabeling moves a token to its new line. -/
@[simp] theorem Token.relabel_line (R : Relabeling) (t : Token) :
    (t.relabel R).line = R.line t.line := rfl

/-- The identity keeps every number. -/
@[simp] theorem Relabeling.id_occurrence (i : Occurrence) : Relabeling.id.occurrence i = i := rfl

/-- The identity keeps every token. -/
@[simp] theorem Token.relabel_id (t : Token) : t.relabel .id = t := rfl

mutual

/-- The expression with its new labels. -/
def Expr.relabel (R : Relabeling) : Expr → Expr
  | .literal value => .literal value
  | .grouping inner => .grouping (inner.relabel R)
  | .unary operator right => .unary (operator.relabel R) (right.relabel R)
  | .binary left operator right => .binary (left.relabel R) (operator.relabel R) (right.relabel R)
  | .logical left operator right => .logical (left.relabel R) (operator.relabel R) (right.relabel R)
  | .variable id name => .variable (R.occurrence id) (name.relabel R)
  | .assign id name value => .assign (R.occurrence id) (name.relabel R) (value.relabel R)
  | .call callee paren arguments =>
    .call (callee.relabel R) (paren.relabel R) (Expr.relabelAll R arguments)
  | .get object name => .get (object.relabel R) (name.relabel R)
  | .set object name value => .set (object.relabel R) (name.relabel R) (value.relabel R)
  | .this id keyword => .this (R.occurrence id) (keyword.relabel R)

/-- The expressions with their new labels. -/
def Expr.relabelAll (R : Relabeling) : List Expr → List Expr
  | [] => []
  | e :: rest => e.relabel R :: Expr.relabelAll R rest

end

mutual

/-- The statement with its new labels. -/
def Stmt.relabel (R : Relabeling) : Stmt → Stmt
  | .expression expr => .expression (expr.relabel R)
  | .print expr => .print (expr.relabel R)
  | .variable name initial => .variable (name.relabel R) (initial.map (·.relabel R))
  | .block body => .block (Stmt.relabelAll R body)
  | .conditional condition thenBranch none =>
    .conditional (condition.relabel R) (thenBranch.relabel R) none
  | .conditional condition thenBranch (some elseBranch) =>
    .conditional (condition.relabel R) (thenBranch.relabel R) (some (elseBranch.relabel R))
  | .loop condition body => .loop (condition.relabel R) (body.relabel R)
  | .function declaration => .function (declaration.relabel R)
  | .return keyword value => .return (keyword.relabel R) (value.map (·.relabel R))
  | .class name methods => .class (name.relabel R) (FunctionDecl.relabelAll R methods)

/-- The statements with their new labels. -/
def Stmt.relabelAll (R : Relabeling) : List Stmt → List Stmt
  | [] => []
  | s :: rest => s.relabel R :: Stmt.relabelAll R rest

/-- The function with its new labels. -/
def FunctionDecl.relabel (R : Relabeling) : FunctionDecl → FunctionDecl
  | ⟨name, params, body⟩ =>
    ⟨name.relabel R, params.map (·.relabel R), Stmt.relabelAll R body⟩

/-- The functions with their new labels. -/
def FunctionDecl.relabelAll (R : Relabeling) : List FunctionDecl → List FunctionDecl
  | [] => []
  | d :: rest => d.relabel R :: FunctionDecl.relabelAll R rest

end

section Lists

variable (R : Relabeling)

/-- Relabeled expressions are as many as before. -/
theorem Expr.relabelAll_length (es : List Expr) : (Expr.relabelAll R es).length = es.length := by
  induction es with
  | nil => rfl
  | cons e rest ih => simp [Expr.relabelAll, ih]

/-- Statements are relabeled one by one. -/
theorem Stmt.relabelAll_eq_map (ss : List Stmt) :
    Stmt.relabelAll R ss = ss.map (·.relabel R) := by
  induction ss with
  | nil => rfl
  | cons s rest ih => simp [Stmt.relabelAll, ih]

/-- Statements in a row are relabeled one list after the other. -/
theorem Stmt.relabelAll_append (ss ts : List Stmt) :
    Stmt.relabelAll R (ss ++ ts) = Stmt.relabelAll R ss ++ Stmt.relabelAll R ts := by
  simp [Stmt.relabelAll_eq_map]

end Lists

section Declarations

variable (R : Relabeling) (d : FunctionDecl)

/-- The name of a relabeled function is its name, relabeled. -/
@[simp] theorem FunctionDecl.relabel_name : (d.relabel R).name = d.name.relabel R := by cases d; rfl

/-- The parameters of a relabeled function are its parameters, relabeled. -/
@[simp] theorem FunctionDecl.relabel_params :
    (d.relabel R).params = d.params.map (·.relabel R) := by cases d; rfl

/-- The body of a relabeled function is its body, relabeled. -/
@[simp] theorem FunctionDecl.relabel_body :
    (d.relabel R).body = Stmt.relabelAll R d.body := by cases d; rfl

/-- A relabeled function is an initializer as before. -/
@[simp] theorem FunctionDecl.relabel_isInitializer :
    (d.relabel R).isInitializer = d.isInitializer := by
  simp [FunctionDecl.isInitializer]

/-- Relabeling keeps the name that a statement declares. -/
theorem Stmt.relabel_declared? (s : Stmt) :
    (s.relabel R).declared? = s.declared?.map (·.relabel R) := by
  cases s with
  | conditional condition thenBranch elseBranch => cases elseBranch <;> rfl
  | function d => simp [Stmt.relabel, Stmt.declared?]
  | _ => rfl

end Declarations

mutual

/-- The identity keeps every expression. -/
@[simp] theorem Expr.relabel_id : (e : Expr) → e.relabel .id = e
  | .literal _ => rfl
  | .grouping inner => by simp [Expr.relabel, Expr.relabel_id inner]
  | .unary _ right => by simp [Expr.relabel, Expr.relabel_id right]
  | .binary left _ right => by simp [Expr.relabel, Expr.relabel_id left, Expr.relabel_id right]
  | .logical left _ right => by simp [Expr.relabel, Expr.relabel_id left, Expr.relabel_id right]
  | .variable _ _ => rfl
  | .assign _ _ value => by simp [Expr.relabel, Expr.relabel_id value]
  | .call callee _ arguments => by
    simp [Expr.relabel, Expr.relabel_id callee, Expr.relabelAll_id arguments]
  | .get object _ => by simp [Expr.relabel, Expr.relabel_id object]
  | .set object _ value => by simp [Expr.relabel, Expr.relabel_id object, Expr.relabel_id value]
  | .this _ _ => rfl

/-- The identity keeps all expressions. -/
theorem Expr.relabelAll_id : (es : List Expr) → Expr.relabelAll .id es = es
  | [] => rfl
  | e :: rest => by simp [Expr.relabelAll, Expr.relabel_id e, Expr.relabelAll_id rest]

end

mutual

/-- The identity keeps every statement. -/
@[simp] theorem Stmt.relabel_id : (s : Stmt) → s.relabel .id = s
  | .expression _ => by simp [Stmt.relabel]
  | .print _ => by simp [Stmt.relabel]
  | .variable _ initial => by simp [Stmt.relabel]
  | .block body => by simp [Stmt.relabel, Stmt.relabelAll_id body]
  | .conditional _ thenBranch none => by simp [Stmt.relabel, Stmt.relabel_id thenBranch]
  | .conditional _ thenBranch (some elseBranch) => by
    simp [Stmt.relabel, Stmt.relabel_id thenBranch, Stmt.relabel_id elseBranch]
  | .loop _ body => by simp [Stmt.relabel, Stmt.relabel_id body]
  | .function declaration => by simp [Stmt.relabel, FunctionDecl.relabel_id declaration]
  | .return _ value => by simp [Stmt.relabel]
  | .class _ methods => by simp [Stmt.relabel, FunctionDecl.relabelAll_id methods]

/-- The identity keeps all statements. -/
theorem Stmt.relabelAll_id : (ss : List Stmt) → Stmt.relabelAll .id ss = ss
  | [] => rfl
  | s :: rest => by simp [Stmt.relabelAll, Stmt.relabel_id s, Stmt.relabelAll_id rest]

/-- The identity keeps every function. -/
theorem FunctionDecl.relabel_id : (d : FunctionDecl) → d.relabel .id = d
  | ⟨_, _, body⟩ => by simp [FunctionDecl.relabel, Stmt.relabelAll_id body]

/-- The identity keeps all functions. -/
theorem FunctionDecl.relabelAll_id : (ds : List FunctionDecl) → FunctionDecl.relabelAll .id ds = ds
  | [] => rfl
  | d :: rest => by
    simp [FunctionDecl.relabelAll, FunctionDecl.relabel_id d, FunctionDecl.relabelAll_id rest]

end

section Twice

variable (R S : Relabeling)

/-- A token that is relabeled twice is relabeled by both together. -/
theorem Token.relabel_relabel (t : Token) : (t.relabel R).relabel S = t.relabel (R.andThen S) := rfl

mutual

/-- An expression that is relabeled twice is relabeled by both together. -/
theorem Expr.relabel_relabel : (e : Expr) → (e.relabel R).relabel S = e.relabel (R.andThen S)
  | .literal _ => rfl
  | .grouping inner => by simp only [Expr.relabel, inner.relabel_relabel]
  | .unary _ right => by simp only [Expr.relabel, right.relabel_relabel, Token.relabel_relabel]
  | .binary left _ right => by
    simp only [Expr.relabel, left.relabel_relabel, right.relabel_relabel, Token.relabel_relabel]
  | .logical left _ right => by
    simp only [Expr.relabel, left.relabel_relabel, right.relabel_relabel, Token.relabel_relabel]
  | .variable _ _ => rfl
  | .assign _ _ value => by
    simp only [Expr.relabel, value.relabel_relabel, Token.relabel_relabel]
    rfl
  | .call callee _ arguments => by
    simp only [Expr.relabel, callee.relabel_relabel, Expr.relabelAll_relabelAll arguments,
      Token.relabel_relabel]
  | .get object _ => by simp only [Expr.relabel, object.relabel_relabel, Token.relabel_relabel]
  | .set object _ value => by
    simp only [Expr.relabel, object.relabel_relabel, value.relabel_relabel, Token.relabel_relabel]
  | .this _ _ => rfl

/-- Expressions that are relabeled twice are relabeled by both together. -/
theorem Expr.relabelAll_relabelAll : (es : List Expr) →
    Expr.relabelAll S (Expr.relabelAll R es) = Expr.relabelAll (R.andThen S) es
  | [] => rfl
  | e :: rest => by simp only [Expr.relabelAll, e.relabel_relabel, Expr.relabelAll_relabelAll rest]

end

/-- An optional expression that is relabeled twice is relabeled by both together. -/
theorem Expr.relabel_relabel_option (e : Option Expr) :
    (e.map (·.relabel R)).map (·.relabel S) = e.map (·.relabel (R.andThen S)) := by
  cases e with
  | none => rfl
  | some e => exact congrArg some (e.relabel_relabel R S)

mutual

/-- A statement that is relabeled twice is relabeled by both together. -/
theorem Stmt.relabel_relabel : (s : Stmt) → (s.relabel R).relabel S = s.relabel (R.andThen S)
  | .expression expr => by simp only [Stmt.relabel, expr.relabel_relabel]
  | .print expr => by simp only [Stmt.relabel, expr.relabel_relabel]
  | .variable _ initial => by
    simp only [Stmt.relabel, Expr.relabel_relabel_option, Token.relabel_relabel]
  | .block body => by simp only [Stmt.relabel, Stmt.relabelAll_relabelAll body]
  | .conditional condition thenBranch none => by
    simp only [Stmt.relabel, condition.relabel_relabel, thenBranch.relabel_relabel]
  | .conditional condition thenBranch (some elseBranch) => by
    simp only [Stmt.relabel, condition.relabel_relabel, thenBranch.relabel_relabel,
      elseBranch.relabel_relabel]
  | .loop condition body => by
    simp only [Stmt.relabel, condition.relabel_relabel, body.relabel_relabel]
  | .function declaration => by simp only [Stmt.relabel, declaration.relabel_relabel]
  | .return _ value => by simp only [Stmt.relabel, Expr.relabel_relabel_option, Token.relabel_relabel]
  | .class _ methods => by
    simp only [Stmt.relabel, FunctionDecl.relabelAll_relabelAll methods, Token.relabel_relabel]

/-- Statements that are relabeled twice are relabeled by both together. -/
theorem Stmt.relabelAll_relabelAll : (ss : List Stmt) →
    Stmt.relabelAll S (Stmt.relabelAll R ss) = Stmt.relabelAll (R.andThen S) ss
  | [] => rfl
  | s :: rest => by simp only [Stmt.relabelAll, s.relabel_relabel, Stmt.relabelAll_relabelAll rest]

/-- A function that is relabeled twice is relabeled by both together. -/
theorem FunctionDecl.relabel_relabel : (d : FunctionDecl) →
    (d.relabel R).relabel S = d.relabel (R.andThen S)
  | ⟨_, params, body⟩ => by
    have hparams : (params.map (·.relabel R)).map (·.relabel S) = params.map (·.relabel (R.andThen S)) :=
      List.map_map
    simp only [FunctionDecl.relabel, hparams, Stmt.relabelAll_relabelAll body, Token.relabel_relabel]

/-- Functions that are relabeled twice are relabeled by both together. -/
theorem FunctionDecl.relabelAll_relabelAll : (ds : List FunctionDecl) →
    FunctionDecl.relabelAll S (FunctionDecl.relabelAll R ds) = FunctionDecl.relabelAll (R.andThen S) ds
  | [] => rfl
  | d :: rest => by
    simp only [FunctionDecl.relabelAll, d.relabel_relabel, FunctionDecl.relabelAll_relabelAll rest]

end

end Twice

end Lox
