import Lox.Resolution
import Lox.Proofs.Tree.Relabel

/-!
# Resolution and labels

Which scopes are open and which errors are found does not depend on occurrence numbers, and lines only
show in the tokens that the errors blame.
-/

set_option autoImplicit false

namespace Lox

/-- The error with its token on the new line. -/
def BindingError.relabel (R : Relabeling) (e : BindingError) : BindingError :=
  ⟨e.token.relabel R, e.cause⟩

namespace Resolution

/-- Two resolutions have the same scopes, and the same errors but for labels. -/
structure Matches (R : Relabeling) (r r' : Resolution) : Prop where
  scopes : r'.scopes = r.scopes
  errors : r'.errors = r.errors.map (·.relabel R)

section Steps

variable {R : Relabeling} {r r' : Resolution}

/-- Both resolutions report an error, which is the same but for labels. -/
theorem Matches.report (h : Matches R r r') (token : Token) (cause : BindingCause) :
    Matches R (r.report token cause) (r'.report (token.relabel R) cause) :=
  ⟨h.scopes, by simp [Resolution.report, h.errors, BindingError.relabel]⟩

/-- Both resolutions enter a scope. -/
theorem Matches.enter (h : Matches R r r') (names : Bindings Bool) :
    Matches R (r.enter names) (r'.enter names) :=
  ⟨by simp [Resolution.enter, h.scopes], h.errors⟩

/-- Both resolutions leave a scope. -/
theorem Matches.leave (h : Matches R r r') : Matches R r.leave r'.leave :=
  ⟨by simp [Resolution.leave, h.scopes], h.errors⟩

/-- Both resolutions declare a name. -/
theorem Matches.declare (h : Matches R r r') (name : Token) :
    Matches R (r.declare name) (r'.declare (name.relabel R)) := by
  unfold Resolution.declare
  rw [h.scopes, Token.relabel_lexeme]
  split
  · exact h
  · split
    · exact h.report name _
    · exact ⟨rfl, h.errors⟩

/-- Both resolutions complete a declaration. -/
theorem Matches.define (h : Matches R r r') (name : Token) :
    Matches R (r.define name) (r'.define (name.relabel R)) := by
  unfold Resolution.define
  rw [h.scopes, Token.relabel_lexeme]
  split
  · exact h
  · exact ⟨rfl, h.errors⟩

/-- Both resolutions introduce a name. -/
theorem Matches.introduce (h : Matches R r r') (name : Token) :
    Matches R (r.introduce name) (r'.introduce (name.relabel R)) :=
  (h.declare name).define name

/-- Both resolutions introduce parameters. -/
theorem Matches.introduceAll (h : Matches R r r') (params : List Token) :
    Matches R (params.foldl (fun r p => r.introduce p) r)
      ((params.map (·.relabel R)).foldl (fun r p => r.introduce p) r') := by
  induction params generalizing r r' with
  | nil => exact h
  | cons p rest ih => exact ih (h.introduce p)

/-- Both resolutions look for a name in the same scopes. -/
theorem Matches.locate (h : Matches R r r') (id id' : Occurrence) (name : Token) :
    Matches R (r.locate id name) (r'.locate id' (name.relabel R)) := by
  unfold Resolution.locate
  rw [h.scopes, Token.relabel_lexeme]
  split
  · exact ⟨rfl, h.errors⟩
  · exact h

/-- Both resolutions are within the declarations of the same names. -/
theorem Matches.isPending (h : Matches R r r') (name : String) :
    r'.isPending name = r.isPending name := by
  rw [Resolution.isPending, Resolution.isPending, h.scopes]

/-- Both resolutions report the same of a return, but for labels. -/
theorem Matches.checkReturn (h : Matches R r r') (around : Surroundings) (keyword : Token)
    (hasValue : Bool) :
    Matches R (Lox.checkReturn around keyword hasValue r)
      (Lox.checkReturn around (keyword.relabel R) hasValue r') := by
  unfold Lox.checkReturn
  split
  · exact h.report keyword _
  · split
    · exact h.report keyword _
    · exact h
  · exact h

end Steps

end Resolution

open Resolution

section Trees

variable {R : Relabeling}

mutual

/-- An expression is resolved in the same way when it is relabeled. -/
theorem Expr.resolve_relabel (around : Surroundings) : (e : Expr) → {r r' : Resolution} →
    Matches R r r' → Matches R (e.resolve around r) ((e.relabel R).resolve around r')
  | .literal _, _, _, h => h
  | .grouping inner, _, _, h => inner.resolve_relabel around h
  | .unary _ right, _, _, h => right.resolve_relabel around h
  | .binary left _ right, _, _, h => right.resolve_relabel around (left.resolve_relabel around h)
  | .logical left _ right, _, _, h => right.resolve_relabel around (left.resolve_relabel around h)
  | .variable id name, _, _, h => by
    simp only [Expr.resolve, Expr.relabel]
    rw [h.isPending, Token.relabel_lexeme]
    split
    · exact (h.report name _).locate id _ name
    · exact h.locate id _ name
  | .assign id name value, _, _, h => (value.resolve_relabel around h).locate id _ name
  | .call callee _ arguments, _, _, h =>
    Expr.resolveAll_relabel around arguments (callee.resolve_relabel around h)
  | .get object _, _, _, h => object.resolve_relabel around h
  | .set object _ value, _, _, h => object.resolve_relabel around (value.resolve_relabel around h)
  | .this id keyword, _, _, h => by
    simp only [Expr.resolve, Expr.relabel]
    split
    · exact h.locate id _ keyword
    · exact h.report keyword _

/-- Expressions are resolved in the same way when they are relabeled. -/
theorem Expr.resolveAll_relabel (around : Surroundings) : (es : List Expr) →
    {r r' : Resolution} → Matches R r r' →
    Matches R (Expr.resolveAll around es r) (Expr.resolveAll around (Expr.relabelAll R es) r')
  | [], _, _, h => h
  | e :: rest, _, _, h => Expr.resolveAll_relabel around rest (e.resolve_relabel around h)

end

/-- An optional expression is resolved in the same way when it is relabeled. -/
theorem Expr.resolveOption_relabel (around : Surroundings) (e : Option Expr) {r r' : Resolution}
    (h : Matches R r r') :
    Matches R (Expr.resolveOption around e r)
      (Expr.resolveOption around (e.map (·.relabel R)) r') := by
  cases e with
  | none => exact h
  | some e => exact e.resolve_relabel around h

mutual

/-- A statement is resolved in the same way when it is relabeled. -/
theorem Stmt.resolve_relabel (around : Surroundings) : (s : Stmt) → {r r' : Resolution} →
    Matches R r r' → Matches R (s.resolve around r) ((s.relabel R).resolve around r')
  | .expression expr, _, _, h => expr.resolve_relabel around h
  | .print expr, _, _, h => expr.resolve_relabel around h
  | .variable name initial, _, _, h =>
    (Expr.resolveOption_relabel around initial (h.declare name)).define name
  | .block body, _, _, h => (Stmt.resolveAll_relabel around body (h.enter [])).leave
  | .conditional condition thenBranch none, _, _, h =>
    thenBranch.resolve_relabel around (condition.resolve_relabel around h)
  | .conditional condition thenBranch (some elseBranch), _, _, h =>
    elseBranch.resolve_relabel around
      (thenBranch.resolve_relabel around (condition.resolve_relabel around h))
  | .loop condition body, _, _, h =>
    body.resolve_relabel around (condition.resolve_relabel around h)
  | .function declaration, _, _, h => by
    simp only [Stmt.resolve, Stmt.relabel, FunctionDecl.relabel_name]
    exact declaration.resolve_relabel _ (h.introduce declaration.name)
  | .return keyword value, _, _, h => by
    simp only [Stmt.resolve, Stmt.relabel, Option.isSome_map]
    exact Expr.resolveOption_relabel around value (h.checkReturn around keyword value.isSome)
  | .class name methods, _, _, h =>
    (FunctionDecl.resolveMethods_relabel _ methods
      ((h.introduce name).enter [(thisName, true)])).leave

/-- Statements are resolved in the same way when they are relabeled. -/
theorem Stmt.resolveAll_relabel (around : Surroundings) : (ss : List Stmt) →
    {r r' : Resolution} → Matches R r r' →
    Matches R (Stmt.resolveAll around ss r) (Stmt.resolveAll around (Stmt.relabelAll R ss) r')
  | [], _, _, h => h
  | s :: rest, _, _, h => Stmt.resolveAll_relabel around rest (s.resolve_relabel around h)

/-- A function is resolved in the same way when it is relabeled. -/
theorem FunctionDecl.resolve_relabel (around : Surroundings) : (d : FunctionDecl) →
    {r r' : Resolution} → Matches R r r' →
    Matches R (d.resolve around r) ((d.relabel R).resolve around r')
  | ⟨_, params, body⟩, _, _, h =>
    (Stmt.resolveAll_relabel around body ((h.enter []).introduceAll params)).leave

/-- Methods are resolved in the same way when they are relabeled. -/
theorem FunctionDecl.resolveMethods_relabel (around : Surroundings) : (ds : List FunctionDecl) →
    {r r' : Resolution} → Matches R r r' →
    Matches R (FunctionDecl.resolveMethods around ds r)
      (FunctionDecl.resolveMethods around (FunctionDecl.relabelAll R ds) r')
  | [], _, _, h => h
  | d :: rest, _, _, h => by
    simp only [FunctionDecl.resolveMethods, FunctionDecl.relabelAll,
      FunctionDecl.relabel_isInitializer]
    exact FunctionDecl.resolveMethods_relabel around rest (d.resolve_relabel _ h)

end

end Trees

/-- The errors of a relabeled program are the relabeled errors of the program. -/
theorem resolve_relabel_errors (R : Relabeling) (program : List Stmt) :
    (resolve (Stmt.relabelAll R program)).errors = (resolve program).errors.map (·.relabel R) :=
  (Stmt.resolveAll_relabel .topLevel program ⟨rfl, rfl⟩).errors

end Lox
