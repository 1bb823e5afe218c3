import Mathlib
import Lox.Proofs.Tree.Relabel

/-!
# What bears a number

The uses of names and of `this` in a tree are what bears its occurrence numbers. They are collected with
their tokens, each as often as it stands in the tree. What parsers yield besides trees bears none.
-/

set_option autoImplicit false

namespace Lox

mutual

/-- The numbered uses in an expression, with their tokens. -/
def Expr.bearers : Expr → Multiset (Occurrence × Token)
  | .literal _ => 0
  | .grouping inner => inner.bearers
  | .unary _ right => right.bearers
  | .binary left _ right => left.bearers + right.bearers
  | .logical left _ right => left.bearers + right.bearers
  | .variable id name => {(id, name)}
  | .assign id name value => {(id, name)} + value.bearers
  | .call callee _ arguments => callee.bearers + Expr.bearersAll arguments
  | .get object _ => object.bearers
  | .set object _ value => object.bearers + value.bearers
  | .this id keyword => {(id, keyword)}

/-- The numbered uses in expressions. -/
def Expr.bearersAll : List Expr → Multiset (Occurrence × Token)
  | [] => 0
  | e :: rest => e.bearers + Expr.bearersAll rest

end

/-- The numbered uses in an expression that may be missing. -/
def Expr.bearersOption : Option Expr → Multiset (Occurrence × Token)
  | none => 0
  | some e => e.bearers

mutual

/-- The numbered uses in a statement, with their tokens. -/
def Stmt.bearers : Stmt → Multiset (Occurrence × Token)
  | .expression expr => expr.bearers
  | .print expr => expr.bearers
  | .variable _ initial => Expr.bearersOption initial
  | .block body => Stmt.bearersAll body
  | .conditional condition thenBranch none => condition.bearers + thenBranch.bearers
  | .conditional condition thenBranch (some elseBranch) =>
    condition.bearers + thenBranch.bearers + elseBranch.bearers
  | .loop condition body => condition.bearers + body.bearers
  | .function declaration => declaration.bearers
  | .return _ value => Expr.bearersOption value
  | .class _ methods => FunctionDecl.bearersAll methods

/-- The numbered uses in statements. -/
def Stmt.bearersAll : List Stmt → Multiset (Occurrence × Token)
  | [] => 0
  | s :: rest => s.bearers + Stmt.bearersAll rest

/-- The numbered uses in a function. -/
def FunctionDecl.bearers : FunctionDecl → Multiset (Occurrence × Token)
  | ⟨_, _, body⟩ => Stmt.bearersAll body

/-- The numbered uses in functions. -/
def FunctionDecl.bearersAll : List FunctionDecl → Multiset (Occurrence × Token)
  | [] => 0
  | d :: rest => d.bearers + FunctionDecl.bearersAll rest

end

/-- The occurrences that statements in a row bear are those of both lists. -/
theorem Stmt.bearersAll_append (ss ts : List Stmt) :
    Stmt.bearersAll (ss ++ ts) = Stmt.bearersAll ss + Stmt.bearersAll ts := by
  induction ss with
  | nil => exact (zero_add _).symm
  | cons s rest ih => rw [List.cons_append, Stmt.bearersAll, Stmt.bearersAll, ih, add_assoc]

/-- Other numbers, and the same lines. -/
def Relabeling.renumbering (f : Occurrence → Occurrence) : Relabeling := ⟨f, fun n => n⟩

/-- What parsers yield: it can be given other numbers, and it has uses that bear them. -/
class Renumberable (α : Type) where
  /-- The same with other numbers. -/
  renumber : (Occurrence → Occurrence) → α → α
  /-- The numbered uses, with their tokens. -/
  bearers : α → Multiset (Occurrence × Token)

namespace Renumberable

instance : Renumberable Expr := ⟨fun f => Expr.relabel (.renumbering f), Expr.bearers⟩

instance : Renumberable (List Expr) := ⟨fun f => Expr.relabelAll (.renumbering f), Expr.bearersAll⟩

instance : Renumberable (Option Expr) := ⟨fun f => Option.map (Expr.relabel (.renumbering f)), Expr.bearersOption⟩

instance : Renumberable Stmt := ⟨fun f => Stmt.relabel (.renumbering f), Stmt.bearers⟩

instance : Renumberable (List Stmt) := ⟨fun f => Stmt.relabelAll (.renumbering f), Stmt.bearersAll⟩

instance : Renumberable (Option Stmt) :=
  ⟨fun f => Option.map (Stmt.relabel (.renumbering f)), fun s => Stmt.bearersAll s.toList⟩

instance : Renumberable FunctionDecl := ⟨fun f => FunctionDecl.relabel (.renumbering f), FunctionDecl.bearers⟩

instance : Renumberable (List FunctionDecl) :=
  ⟨fun f => FunctionDecl.relabelAll (.renumbering f), FunctionDecl.bearersAll⟩

instance : Renumberable Token := ⟨fun _ t => t, fun _ => 0⟩

instance : Renumberable (List Token) := ⟨fun _ ts => ts, fun _ => 0⟩

/-- A token bears no number. -/
@[simp] theorem bearers_token (t : Token) : bearers t = 0 := rfl

/-- Nor do tokens. -/
@[simp] theorem bearers_tokens (ts : List Token) : bearers ts = 0 := rfl

section Parts

variable (name : Token) (e : Expr) (s : Stmt) (body : List Stmt) (d : FunctionDecl)

/-- An expression that is there bears what it bears alone. -/
@[simp] theorem bearers_some_expr : bearers (some e) = bearers e := rfl

/-- An expression that is missing bears nothing. -/
@[simp] theorem bearers_none_expr : bearers (none : Option Expr) = 0 := rfl

/-- A statement that is there bears what it bears alone. -/
@[simp] theorem bearers_some_stmt : bearers (some s) = bearers s := add_zero _

/-- A statement that is missing bears nothing. -/
@[simp] theorem bearers_none_stmt : bearers (none : Option Stmt) = 0 := rfl

/-- Parentheses bear what is in them. -/
@[simp] theorem bearers_grouping : bearers (Expr.grouping e) = bearers e := rfl

/-- An expression statement bears what the expression bears. -/
@[simp] theorem bearers_expression : bearers (Stmt.expression e) = bearers e := rfl

/-- A print statement bears what the expression bears. -/
@[simp] theorem bearers_print : bearers (Stmt.print e) = bearers e := rfl

/-- The declaration of a variable bears what the initial value bears. -/
@[simp] theorem bearers_variable (initial : Option Expr) : bearers (Stmt.variable name initial) = bearers initial :=
  rfl

/-- A return statement bears what the value bears. -/
@[simp] theorem bearers_return (value : Option Expr) : bearers (Stmt.return name value) = bearers value := rfl

/-- No statements bear nothing. -/
@[simp] theorem bearers_nil : bearers ([] : List Stmt) = 0 := rfl

/-- Statements in a row bear what each of them bears. -/
@[simp] theorem bearers_cons : bearers (s :: body) = bearers s + bearers body := rfl

/-- A block bears what its statements bear. -/
@[simp] theorem bearers_block : bearers (Stmt.block body) = bearers body := rfl

/-- A loop bears what the condition and the body bear. -/
@[simp] theorem bearers_loop : bearers (Stmt.loop e s) = bearers e + bearers s := rfl

/-- A conditional bears what the condition and the branches bear. -/
@[simp] theorem bearers_conditional (elseBranch : Option Stmt) :
    bearers (Stmt.conditional e s elseBranch) = bearers e + bearers s + bearers elseBranch := by
  cases elseBranch with
  | none => exact (add_zero _).symm
  | some elseBranch =>
    rw [bearers_some_stmt]
    rfl

/-- The declaration of a function bears what the function bears. -/
@[simp] theorem bearers_function : bearers (Stmt.function d) = bearers d := rfl

/-- A function bears what its body bears. -/
@[simp] theorem bearers_mk (params : List Token) : bearers (FunctionDecl.mk name params body) = bearers body := rfl

/-- A class bears what its methods bear. -/
@[simp] theorem bearers_class (methods : List FunctionDecl) : bearers (Stmt.class name methods) = bearers methods :=
  rfl

end Parts

end Renumberable

end Lox
