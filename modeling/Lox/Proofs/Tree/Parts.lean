import Lox.Proofs.Tree.Relabel

/-!
# The parts of a tree

All expressions and functions in a tree, at any depth. A running program comes to no others: a function that
stands in the tree is a part of it, and so is everything in the body of that function.
-/

set_option autoImplicit false

namespace Lox

/-- An expression or a function in a tree. -/
inductive Part where
  | expression (e : Expr)
  | function (d : FunctionDecl)

/-- The part with other numbers and lines. -/
def Part.relabel (R : Relabeling) : Part → Part
  | .expression e => .expression (e.relabel R)
  | .function d => .function (d.relabel R)

mutual

/-- The expression and all expressions in it. -/
def Expr.parts : Expr → List Part
  | .literal value => [.expression (.literal value)]
  | .grouping inner => .expression (.grouping inner) :: inner.parts
  | .unary operator right => .expression (.unary operator right) :: right.parts
  | .binary left operator right => .expression (.binary left operator right) :: (left.parts ++ right.parts)
  | .logical left operator right => .expression (.logical left operator right) :: (left.parts ++ right.parts)
  | .variable id name => [.expression (.variable id name)]
  | .assign id name value => .expression (.assign id name value) :: value.parts
  | .call callee paren arguments =>
    .expression (.call callee paren arguments) :: (callee.parts ++ Expr.partsAll arguments)
  | .get object name => .expression (.get object name) :: object.parts
  | .set object name value => .expression (.set object name value) :: (object.parts ++ value.parts)
  | .this id keyword => [.expression (.this id keyword)]

/-- The expressions and all expressions in them. -/
def Expr.partsAll : List Expr → List Part
  | [] => []
  | e :: rest => e.parts ++ Expr.partsAll rest

end

/-- The parts of an expression that may be missing. -/
def Expr.partsOption : Option Expr → List Part
  | none => []
  | some e => e.parts

mutual

/-- The parts of a statement. -/
def Stmt.parts : Stmt → List Part
  | .expression expr => expr.parts
  | .print expr => expr.parts
  | .variable _ initial => Expr.partsOption initial
  | .block body => Stmt.partsAll body
  | .conditional condition thenBranch none => condition.parts ++ thenBranch.parts
  | .conditional condition thenBranch (some elseBranch) =>
    condition.parts ++ thenBranch.parts ++ elseBranch.parts
  | .loop condition body => condition.parts ++ body.parts
  | .function declaration => declaration.parts
  | .return _ value => Expr.partsOption value
  | .class _ methods => FunctionDecl.partsAll methods

/-- The parts of statements. -/
def Stmt.partsAll : List Stmt → List Part
  | [] => []
  | s :: rest => s.parts ++ Stmt.partsAll rest

/-- The function and the parts of its body. -/
def FunctionDecl.parts : FunctionDecl → List Part
  | ⟨name, params, body⟩ => .function ⟨name, params, body⟩ :: Stmt.partsAll body

/-- The functions and the parts of their bodies. -/
def FunctionDecl.partsAll : List FunctionDecl → List Part
  | [] => []
  | d :: rest => d.parts ++ FunctionDecl.partsAll rest

end

/-- An expression is one of its own parts. -/
theorem Expr.mem_parts (e : Expr) : .expression e ∈ e.parts := by
  cases e <;> exact List.mem_cons_self ..

/-- The parts of a function are itself and those of its body. -/
theorem FunctionDecl.parts_eq (d : FunctionDecl) : d.parts = .function d :: Stmt.partsAll d.body := by
  cases d
  rfl

section Members

/-- The parts of one of several expressions are among the parts of them all. -/
theorem Expr.parts_subset {es : List Expr} {e : Expr} (he : e ∈ es) : e.parts ⊆ Expr.partsAll es := by
  induction es with
  | nil => cases he
  | cons e' rest ih =>
    rcases List.mem_cons.mp he with rfl | he
    · exact List.subset_append_left _ _
    · exact List.subset_append_of_subset_right _ (ih he)

/-- The parts of one of several statements are among the parts of them all. -/
theorem Stmt.parts_subset {ss : List Stmt} {s : Stmt} (hs : s ∈ ss) : s.parts ⊆ Stmt.partsAll ss := by
  induction ss with
  | nil => cases hs
  | cons s' rest ih =>
    rcases List.mem_cons.mp hs with rfl | hs
    · exact List.subset_append_left _ _
    · exact List.subset_append_of_subset_right _ (ih hs)

/-- Each of several functions is among their parts. -/
theorem FunctionDecl.mem_partsAll {ds : List FunctionDecl} {d : FunctionDecl} (hd : d ∈ ds) :
    .function d ∈ FunctionDecl.partsAll ds := by
  induction ds with
  | nil => cases hd
  | cons d' rest ih =>
    rcases List.mem_cons.mp hd with rfl | hd
    · exact List.mem_append_left _ (d.parts_eq ▸ List.mem_cons_self ..)
    · exact List.mem_append_right _ (ih hd)

end Members

section Relabeled

variable (R : Relabeling)

mutual

/-- The parts of a relabeled expression are its parts, relabeled. -/
theorem Expr.parts_relabel : (e : Expr) → (e.relabel R).parts = e.parts.map (·.relabel R)
  | .literal _ => rfl
  | .grouping inner => congrArg (_ :: ·) inner.parts_relabel
  | .unary _ right => congrArg (_ :: ·) right.parts_relabel
  | .binary left _ right => by
    simp only [Expr.relabel, Expr.parts, left.parts_relabel, right.parts_relabel, List.map_cons,
      List.map_append, Part.relabel]
  | .logical left _ right => by
    simp only [Expr.relabel, Expr.parts, left.parts_relabel, right.parts_relabel, List.map_cons,
      List.map_append, Part.relabel]
  | .variable _ _ => rfl
  | .assign _ _ value => congrArg (_ :: ·) value.parts_relabel
  | .call callee _ arguments => by
    simp only [Expr.relabel, Expr.parts, callee.parts_relabel, Expr.partsAll_relabel arguments,
      List.map_cons, List.map_append, Part.relabel]
  | .get object _ => congrArg (_ :: ·) object.parts_relabel
  | .set object _ value => by
    simp only [Expr.relabel, Expr.parts, object.parts_relabel, value.parts_relabel, List.map_cons,
      List.map_append, Part.relabel]
  | .this _ _ => rfl

/-- The parts of relabeled expressions are their parts, relabeled. -/
theorem Expr.partsAll_relabel : (es : List Expr) →
    Expr.partsAll (Expr.relabelAll R es) = (Expr.partsAll es).map (·.relabel R)
  | [] => rfl
  | e :: rest => by
    simp only [Expr.relabelAll, Expr.partsAll, e.parts_relabel, Expr.partsAll_relabel rest, List.map_append]

end

/-- The parts of a relabeled optional expression are its parts, relabeled. -/
theorem Expr.partsOption_relabel (e : Option Expr) :
    Expr.partsOption (e.map (·.relabel R)) = (Expr.partsOption e).map (·.relabel R) := by
  cases e with
  | none => rfl
  | some e => exact e.parts_relabel R

mutual

/-- The parts of a relabeled statement are its parts, relabeled. -/
theorem Stmt.parts_relabel : (s : Stmt) → (s.relabel R).parts = s.parts.map (·.relabel R)
  | .expression expr => expr.parts_relabel R
  | .print expr => expr.parts_relabel R
  | .variable _ initial => Expr.partsOption_relabel R initial
  | .block body => Stmt.partsAll_relabel body
  | .conditional condition thenBranch none => by
    simp only [Stmt.relabel, Stmt.parts, condition.parts_relabel R, thenBranch.parts_relabel, List.map_append]
  | .conditional condition thenBranch (some elseBranch) => by
    simp only [Stmt.relabel, Stmt.parts, condition.parts_relabel R, thenBranch.parts_relabel,
      elseBranch.parts_relabel, List.map_append]
  | .loop condition body => by
    simp only [Stmt.relabel, Stmt.parts, condition.parts_relabel R, body.parts_relabel, List.map_append]
  | .function declaration => declaration.parts_relabel
  | .return _ value => Expr.partsOption_relabel R value
  | .class _ methods => FunctionDecl.partsAll_relabel methods

/-- The parts of relabeled statements are their parts, relabeled. -/
theorem Stmt.partsAll_relabel : (ss : List Stmt) →
    Stmt.partsAll (Stmt.relabelAll R ss) = (Stmt.partsAll ss).map (·.relabel R)
  | [] => rfl
  | s :: rest => by
    simp only [Stmt.relabelAll, Stmt.partsAll, s.parts_relabel, Stmt.partsAll_relabel rest, List.map_append]

/-- The parts of a relabeled function are its parts, relabeled. -/
theorem FunctionDecl.parts_relabel : (d : FunctionDecl) → (d.relabel R).parts = d.parts.map (·.relabel R)
  | ⟨_, _, body⟩ => congrArg (_ :: ·) (Stmt.partsAll_relabel body)

/-- The parts of relabeled functions are their parts, relabeled. -/
theorem FunctionDecl.partsAll_relabel : (ds : List FunctionDecl) →
    FunctionDecl.partsAll (FunctionDecl.relabelAll R ds) = (FunctionDecl.partsAll ds).map (·.relabel R)
  | [] => rfl
  | d :: rest => by
    simp only [FunctionDecl.relabelAll, FunctionDecl.partsAll, d.parts_relabel,
      FunctionDecl.partsAll_relabel rest, List.map_append]

end

end Relabeled

/-- The bodies of all functions among parts have their parts there too. -/
def Part.Closed (parts : List Part) : Prop :=
  ∀ d, .function d ∈ parts → Stmt.partsAll d.body ⊆ parts

namespace Part.Closed

variable {parts parts' : List Part}

/-- Among no parts there is no function. -/
theorem nil : Closed [] := fun _ h => nomatch h

/-- The parts of two trees are closed together. -/
theorem append (h : Closed parts) (h' : Closed parts') : Closed (parts ++ parts') := by
  intro d hd
  rcases List.mem_append.mp hd with hd | hd
  · exact List.Subset.trans (h d hd) (List.subset_append_left _ _)
  · exact List.Subset.trans (h' d hd) (List.subset_append_right _ _)

/-- An expression brings no functions. -/
theorem expression (h : Closed parts) (e : Expr) : Closed (.expression e :: parts) := by
  intro d hd
  rcases List.mem_cons.mp hd with heq | hd
  · cases heq
  · exact List.subset_cons_of_subset _ (h d hd)

/-- A function comes with its body. -/
theorem function {d : FunctionDecl} (h : Closed (Stmt.partsAll d.body)) : Closed d.parts := by
  rw [d.parts_eq]
  intro d' hd'
  rcases List.mem_cons.mp hd' with heq | hd'
  · cases heq
    exact List.subset_cons_self _ _
  · exact List.subset_cons_of_subset _ (h d' hd')

end Part.Closed

mutual

/-- The parts of an expression hold no functions. -/
theorem Expr.parts_closed : (e : Expr) → Part.Closed e.parts
  | .literal _ => .expression .nil _
  | .grouping inner => .expression inner.parts_closed _
  | .unary _ right => .expression right.parts_closed _
  | .binary left _ right => .expression (left.parts_closed.append right.parts_closed) _
  | .logical left _ right => .expression (left.parts_closed.append right.parts_closed) _
  | .variable _ _ => .expression .nil _
  | .assign _ _ value => .expression value.parts_closed _
  | .call callee _ arguments => .expression (callee.parts_closed.append (Expr.partsAll_closed arguments)) _
  | .get object _ => .expression object.parts_closed _
  | .set object _ value => .expression (object.parts_closed.append value.parts_closed) _
  | .this _ _ => .expression .nil _

/-- The parts of expressions hold no functions. -/
theorem Expr.partsAll_closed : (es : List Expr) → Part.Closed (Expr.partsAll es)
  | [] => .nil
  | e :: rest => e.parts_closed.append (Expr.partsAll_closed rest)

end

/-- The parts of an optional expression hold no functions. -/
theorem Expr.partsOption_closed (e : Option Expr) : Part.Closed (Expr.partsOption e) := by
  cases e with
  | none => exact .nil
  | some e => exact e.parts_closed

mutual

/-- The parts of a statement hold those of the bodies of its functions. -/
theorem Stmt.parts_closed : (s : Stmt) → Part.Closed s.parts
  | .expression expr => expr.parts_closed
  | .print expr => expr.parts_closed
  | .variable _ initial => Expr.partsOption_closed initial
  | .block body => Stmt.partsAll_closed body
  | .conditional condition thenBranch none => condition.parts_closed.append thenBranch.parts_closed
  | .conditional condition thenBranch (some elseBranch) =>
    (condition.parts_closed.append thenBranch.parts_closed).append elseBranch.parts_closed
  | .loop condition body => condition.parts_closed.append body.parts_closed
  | .function declaration => declaration.parts_closed
  | .return _ value => Expr.partsOption_closed value
  | .class _ methods => FunctionDecl.partsAll_closed methods

/-- The parts of statements hold those of the bodies of their functions. -/
theorem Stmt.partsAll_closed : (ss : List Stmt) → Part.Closed (Stmt.partsAll ss)
  | [] => .nil
  | s :: rest => s.parts_closed.append (Stmt.partsAll_closed rest)

/-- The parts of a function hold those of its body, and of the bodies of the functions in there. -/
theorem FunctionDecl.parts_closed : (d : FunctionDecl) → Part.Closed d.parts
  | ⟨_, _, body⟩ => .function (Stmt.partsAll_closed body)

/-- The parts of functions hold those of their bodies. -/
theorem FunctionDecl.partsAll_closed : (ds : List FunctionDecl) → Part.Closed (FunctionDecl.partsAll ds)
  | [] => .nil
  | d :: rest => d.parts_closed.append (FunctionDecl.partsAll_closed rest)

end

end Lox
