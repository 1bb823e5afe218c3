import Lox.Tree

/-!
# What stands where in a tree

The parts of a tree that the rules about names, `return` and `this` speak of, each read off the tree
alone: which names a scope declares, which initializers belong to local variables, which returns
belong to a body, which functions are methods, and which uses of `this` are outside all classes. A
statement that no scope of its own encloses declares its name where it stands, also as a branch of a
conditional or as the body of a loop.
-/

set_option autoImplicit false

namespace Lox

mutual

/-- The variables that an expression reads. -/
def Expr.reads : Expr → List Token
  | .literal _ => []
  | .grouping inner => inner.reads
  | .unary _ right => right.reads
  | .binary left _ right => left.reads ++ right.reads
  | .logical left _ right => left.reads ++ right.reads
  | .variable _ name => [name]
  | .assign _ _ value => value.reads
  | .call callee _ arguments => callee.reads ++ Expr.readsAll arguments
  | .get object _ => object.reads
  | .set object _ value => object.reads ++ value.reads
  | .this _ _ => []

/-- The variables that expressions read. -/
def Expr.readsAll : List Expr → List Token
  | [] => []
  | e :: rest => e.reads ++ Expr.readsAll rest

end

/-- The variables that an expression reads that may be missing. -/
def Expr.readsOption : Option Expr → List Token
  | none => []
  | some e => e.reads

mutual

/-- The uses of `this` in an expression. -/
def Expr.thisUses : Expr → List Occurrence
  | .literal _ => []
  | .grouping inner => inner.thisUses
  | .unary _ right => right.thisUses
  | .binary left _ right => left.thisUses ++ right.thisUses
  | .logical left _ right => left.thisUses ++ right.thisUses
  | .variable _ _ => []
  | .assign _ _ value => value.thisUses
  | .call callee _ arguments => callee.thisUses ++ Expr.thisUsesAll arguments
  | .get object _ => object.thisUses
  | .set object _ value => object.thisUses ++ value.thisUses
  | .this id _ => [id]

/-- The uses of `this` in expressions. -/
def Expr.thisUsesAll : List Expr → List Occurrence
  | [] => []
  | e :: rest => e.thisUses ++ Expr.thisUsesAll rest

end

/-- The uses of `this` in an expression that may be missing. -/
def Expr.thisUsesOption : Option Expr → List Occurrence
  | none => []
  | some e => e.thisUses

mutual

/-- The uses of `this` in a statement that stand in no class within it. -/
def Stmt.thisUses : Stmt → List Occurrence
  | .expression expr => expr.thisUses
  | .print expr => expr.thisUses
  | .variable _ initial => Expr.thisUsesOption initial
  | .block body => Stmt.thisUsesAll body
  | .conditional condition thenBranch none => condition.thisUses ++ thenBranch.thisUses
  | .conditional condition thenBranch (some elseBranch) =>
    condition.thisUses ++ thenBranch.thisUses ++ elseBranch.thisUses
  | .loop condition body => condition.thisUses ++ body.thisUses
  | .function declaration => declaration.thisUses
  | .return _ value => Expr.thisUsesOption value
  | .class _ _ => []

/-- The uses of `this` in statements that stand in no class within them. -/
def Stmt.thisUsesAll : List Stmt → List Occurrence
  | [] => []
  | s :: rest => s.thisUses ++ Stmt.thisUsesAll rest

/-- The uses of `this` in a function that stand in no class within it. -/
def FunctionDecl.thisUses : FunctionDecl → List Occurrence
  | ⟨_, _, body⟩ => Stmt.thisUsesAll body

end

mutual

/-- The names that a statement declares in the scope in which it stands. -/
def Stmt.declarations : Stmt → List Token
  | .expression _ => []
  | .print _ => []
  | .variable name _ => [name]
  | .block _ => []
  | .conditional _ thenBranch none => thenBranch.declarations
  | .conditional _ thenBranch (some elseBranch) =>
    thenBranch.declarations ++ elseBranch.declarations
  | .loop _ body => body.declarations
  | .function declaration => [declaration.name]
  | .return _ _ => []
  | .class name _ => [name]

/-- The names that statements declare in the scope in which they stand. -/
def Stmt.declarationsAll : List Stmt → List Token
  | [] => []
  | s :: rest => s.declarations ++ Stmt.declarationsAll rest

end

mutual

/-- The scopes within a statement, each as the names that are declared in it. A function's parameters
and its body are one scope. -/
def Stmt.localScopes : Stmt → List (List Token)
  | .expression _ => []
  | .print _ => []
  | .variable _ _ => []
  | .block body => Stmt.declarationsAll body :: Stmt.localScopesAll body
  | .conditional _ thenBranch none => thenBranch.localScopes
  | .conditional _ thenBranch (some elseBranch) => thenBranch.localScopes ++ elseBranch.localScopes
  | .loop _ body => body.localScopes
  | .function declaration => declaration.localScopes
  | .return _ _ => []
  | .class _ methods => FunctionDecl.localScopesAll methods

/-- The scopes within statements. -/
def Stmt.localScopesAll : List Stmt → List (List Token)
  | [] => []
  | s :: rest => s.localScopes ++ Stmt.localScopesAll rest

/-- The scope of a function and those within it. -/
def FunctionDecl.localScopes : FunctionDecl → List (List Token)
  | ⟨_, params, body⟩ => (params ++ Stmt.declarationsAll body) :: Stmt.localScopesAll body

/-- The scopes of functions. -/
def FunctionDecl.localScopesAll : List FunctionDecl → List (List Token)
  | [] => []
  | d :: rest => d.localScopes ++ FunctionDecl.localScopesAll rest

end

mutual

/-- The local variables in a statement with their initializers; `isLocal` says whether the statement
itself stands in a local scope. -/
def Stmt.localInitializers (isLocal : Bool) : Stmt → List (Token × Expr)
  | .expression _ => []
  | .print _ => []
  | .variable _ none => []
  | .variable name (some initial) => if isLocal then [(name, initial)] else []
  | .block body => Stmt.localInitializersAll true body
  | .conditional _ thenBranch none => thenBranch.localInitializers isLocal
  | .conditional _ thenBranch (some elseBranch) =>
    thenBranch.localInitializers isLocal ++ elseBranch.localInitializers isLocal
  | .loop _ body => body.localInitializers isLocal
  | .function declaration => declaration.localInitializers
  | .return _ _ => []
  | .class _ methods => FunctionDecl.localInitializersAll methods

/-- The local variables in statements with their initializers. -/
def Stmt.localInitializersAll (isLocal : Bool) : List Stmt → List (Token × Expr)
  | [] => []
  | s :: rest => s.localInitializers isLocal ++ Stmt.localInitializersAll isLocal rest

/-- The local variables in a function with their initializers. -/
def FunctionDecl.localInitializers : FunctionDecl → List (Token × Expr)
  | ⟨_, _, body⟩ => Stmt.localInitializersAll true body

/-- The local variables in functions with their initializers. -/
def FunctionDecl.localInitializersAll : List FunctionDecl → List (Token × Expr)
  | [] => []
  | d :: rest => d.localInitializers ++ FunctionDecl.localInitializersAll rest

end

mutual

/-- The returns in a statement that stand in no function within it, each as what it gives. -/
def Stmt.returns : Stmt → List (Option Expr)
  | .expression _ => []
  | .print _ => []
  | .variable _ _ => []
  | .block body => Stmt.returnsAll body
  | .conditional _ thenBranch none => thenBranch.returns
  | .conditional _ thenBranch (some elseBranch) => thenBranch.returns ++ elseBranch.returns
  | .loop _ body => body.returns
  | .function _ => []
  | .return _ value => [value]
  | .class _ _ => []

/-- The returns in statements that stand in no function within them. -/
def Stmt.returnsAll : List Stmt → List (Option Expr)
  | [] => []
  | s :: rest => s.returns ++ Stmt.returnsAll rest

end

/-- The returns in one of some statements are among those of all. -/
theorem Stmt.returns_subset {s : Stmt} {ss : List Stmt} (h : s ∈ ss) : s.returns ⊆ Stmt.returnsAll ss := by
  induction h with
  | head rest => exact List.subset_append_left _ _
  | tail first _ ih => exact List.Subset.trans ih (List.subset_append_right _ _)

mutual

/-- The methods of all classes in a statement. -/
def Stmt.methods : Stmt → List FunctionDecl
  | .expression _ => []
  | .print _ => []
  | .variable _ _ => []
  | .block body => Stmt.methodsAll body
  | .conditional _ thenBranch none => thenBranch.methods
  | .conditional _ thenBranch (some elseBranch) => thenBranch.methods ++ elseBranch.methods
  | .loop _ body => body.methods
  | .function declaration => declaration.innerMethods
  | .return _ _ => []
  | .class _ methods => methods ++ FunctionDecl.innerMethodsAll methods

/-- The methods of all classes in statements. -/
def Stmt.methodsAll : List Stmt → List FunctionDecl
  | [] => []
  | s :: rest => s.methods ++ Stmt.methodsAll rest

/-- The methods of all classes in a function. -/
def FunctionDecl.innerMethods : FunctionDecl → List FunctionDecl
  | ⟨_, _, body⟩ => Stmt.methodsAll body

/-- The methods of all classes in functions. -/
def FunctionDecl.innerMethodsAll : List FunctionDecl → List FunctionDecl
  | [] => []
  | d :: rest => d.innerMethods ++ FunctionDecl.innerMethodsAll rest

end

end Lox
