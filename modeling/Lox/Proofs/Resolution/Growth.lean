import Lox.Proofs.Resolution.Sites

/-!
# Resolution only adds

Resolving a tree appends errors and distances to those found before, and every new distance belongs to
an occurrence of the tree. So a resolution without errors was without errors at every point of it, and
a tree leaves the distances of all other trees alone, also when it is rejected.
-/

set_option autoImplicit false

namespace Lox

namespace Resolution

/-- A resolution `r'` comes from `r` by adding errors, and distances for the given occurrences. -/
structure Extends (ids : List Occurrence) (r r' : Resolution) : Prop where
  errors : r.errors <+: r'.errors
  distances : ∃ found, r'.distances = r.distances ++ found ∧ ∀ entry ∈ found, entry.1 ∈ ids

namespace Extends

variable {r r₁ r₂ : Resolution} {ids ids' : List Occurrence}

/-- A resolution extends itself, whatever occurrences are given. -/
protected theorem refl (r : Resolution) (ids : List Occurrence) : Extends ids r r :=
  ⟨List.prefix_refl _, [], by simp, by simp⟩

/-- Two extensions in a row are one, for the occurrences of both. -/
theorem trans (h : Extends ids r r₁) (h' : Extends ids' r₁ r₂) : Extends (ids ++ ids') r r₂ := by
  obtain ⟨found, hfound, hids⟩ := h.distances
  obtain ⟨found', hfound', hids'⟩ := h'.distances
  refine ⟨h.errors.trans h'.errors, found ++ found', ?_, fun entry hentry => ?_⟩
  · rw [hfound', hfound, List.append_assoc]
  · rcases List.mem_append.mp hentry with hmem | hmem
    · exact List.mem_append_left _ (hids entry hmem)
    · exact List.mem_append_right _ (hids' entry hmem)

/-- If nothing was reported in two steps, nothing was reported in the first. -/
theorem errors_eq (h : Extends ids r r₁) (h' : Extends ids' r₁ r₂) (hclean : r₂.errors = r.errors) :
    r₁.errors = r.errors := by
  refine (h.errors.eq_of_length ?_).symm
  have hle := h'.errors.length_le
  rw [hclean] at hle
  exact Nat.le_antisymm h.errors.length_le hle

end Extends

section Steps

variable (r : Resolution) (ids : List Occurrence)

/-- An error is added. -/
theorem report_extends (token : Token) (cause : BindingCause) :
    Extends ids r (r.report token cause) :=
  ⟨List.prefix_append _ _, [], by simp [report], by simp⟩

/-- Entering a scope adds nothing. -/
theorem enter_extends (names : Bindings Bool) : Extends ids r (r.enter names) :=
  ⟨List.prefix_refl _, [], by simp [enter], by simp⟩

/-- Leaving a scope adds nothing. -/
theorem leave_extends : Extends ids r r.leave :=
  ⟨List.prefix_refl _, [], by simp [leave], by simp⟩

/-- A declaration adds an error at most. -/
theorem declare_extends (name : Token) : Extends ids r (r.declare name) := by
  unfold declare
  split
  · exact Extends.refl r ids
  · split
    · exact report_extends r ids name _
    · exact ⟨List.prefix_refl _, [], by simp, by simp⟩

/-- A declaration that is completed adds nothing. -/
theorem define_extends (name : Token) : Extends ids r (r.define name) := by
  unfold define
  split
  · exact Extends.refl r ids
  · exact ⟨List.prefix_refl _, [], by simp, by simp⟩

/-- A name that is introduced adds an error at most. -/
theorem introduce_extends (name : Token) : Extends ids r (r.introduce name) := by
  simpa [introduce] using (declare_extends r [] name).trans (define_extends (r.declare name) ids name)

/-- A use adds a distance at most, for its own occurrence. -/
theorem locate_extends (id : Occurrence) (name : Token) : Extends [id] r (r.locate id name) := by
  unfold locate
  split
  · exact ⟨List.prefix_refl _, [_], rfl, by simp⟩
  · exact Extends.refl r [id]

/-- Parameters add errors at most. -/
theorem introduceAll_extends (params : List Token) :
    Extends ids r (params.foldl (fun r p => r.introduce p) r) := by
  induction params generalizing r with
  | nil => exact Extends.refl r ids
  | cons p rest ih => simpa using (introduce_extends r [] p).trans (ih (r.introduce p))

/-- A return adds an error at most. -/
theorem checkReturn_extends (around : Surroundings) (keyword : Token) (hasValue : Bool) :
    Extends ids r (checkReturn around keyword hasValue r) := by
  unfold checkReturn
  split
  · exact report_extends r ids keyword _
  · split
    · exact report_extends r ids keyword _
    · exact Extends.refl r ids
  · exact Extends.refl r ids

end Steps

end Resolution

open Resolution

mutual

/-- An expression adds distances for its own occurrences. -/
theorem Expr.resolve_extends (around : Surroundings) : (e : Expr) → (r : Resolution) →
    Extends e.occurrences r (e.resolve around r)
  | .literal _, r => Extends.refl r []
  | .grouping inner, r => inner.resolve_extends around r
  | .unary _ right, r => right.resolve_extends around r
  | .binary left _ right, r =>
    (left.resolve_extends around r).trans (right.resolve_extends around _)
  | .logical left _ right, r =>
    (left.resolve_extends around r).trans (right.resolve_extends around _)
  | .variable id name, r => by
    rw [Expr.resolve, Expr.occurrences]
    split
    · exact (report_extends r [] name _).trans (locate_extends _ id name)
    · exact locate_extends r id name
  | .assign id name value, r =>
    (value.resolve_extends around r).trans (locate_extends _ id name)
  | .call callee _ arguments, r =>
    (callee.resolve_extends around r).trans (Expr.resolveAll_extends around arguments _)
  | .get object _, r => object.resolve_extends around r
  | .set object _ value, r =>
    (value.resolve_extends around r).trans (object.resolve_extends around _)
  | .this id keyword, r => by
    rw [Expr.resolve, Expr.occurrences]
    split
    · exact locate_extends r id keyword
    · exact report_extends r [id] keyword _

/-- Expressions add distances for their own occurrences. -/
theorem Expr.resolveAll_extends (around : Surroundings) : (es : List Expr) → (r : Resolution) →
    Extends (Expr.occurrencesAll es) r (Expr.resolveAll around es r)
  | [], r => Extends.refl r []
  | e :: rest, r => (e.resolve_extends around r).trans (Expr.resolveAll_extends around rest _)

end

/-- An optional expression adds distances for its own occurrences. -/
theorem Expr.resolveOption_extends (around : Surroundings) (e : Option Expr) (r : Resolution) :
    Extends (Expr.occurrencesOption e) r (Expr.resolveOption around e r) := by
  cases e with
  | none => exact Extends.refl r []
  | some e => exact e.resolve_extends around r

mutual

/-- A statement adds distances for its own occurrences. -/
theorem Stmt.resolve_extends (around : Surroundings) : (s : Stmt) → (r : Resolution) →
    Extends s.occurrences r (s.resolve around r)
  | .expression expr, r => expr.resolve_extends around r
  | .print expr, r => expr.resolve_extends around r
  | .variable name initial, r => by
    have hdeclare := declare_extends r [] name
    have hinitial := Expr.resolveOption_extends around initial (r.declare name)
    have hdefine := define_extends (Expr.resolveOption around initial (r.declare name)) [] name
    simpa [Stmt.resolve, Stmt.occurrences] using (hdeclare.trans hinitial).trans hdefine
  | .block body, r => by
    have hbody := Stmt.resolveAll_extends around body (r.enter [])
    simpa [Stmt.resolve, Stmt.occurrences] using
      ((enter_extends r [] []).trans hbody).trans (leave_extends _ [])
  | .conditional condition thenBranch none, r =>
    (condition.resolve_extends around r).trans (thenBranch.resolve_extends around _)
  | .conditional condition thenBranch (some elseBranch), r =>
    ((condition.resolve_extends around r).trans (thenBranch.resolve_extends around _)).trans
      (elseBranch.resolve_extends around _)
  | .loop condition body, r =>
    (condition.resolve_extends around r).trans (body.resolve_extends around _)
  | .function declaration, r => by
    have hbody := declaration.resolve_extends { around with body := .function }
      (r.introduce declaration.name)
    simpa [Stmt.resolve, Stmt.occurrences] using
      (introduce_extends r [] declaration.name).trans hbody
  | .return keyword value, r => by
    have hvalue := Expr.resolveOption_extends around value
      (checkReturn around keyword value.isSome r)
    simpa [Stmt.resolve, Stmt.occurrences] using
      (checkReturn_extends r [] around keyword value.isSome).trans hvalue
  | .class name methods, r => by
    have hmethods := FunctionDecl.resolveMethods_extends { around with inClass := true } methods
      ((r.introduce name).enter [(thisName, true)])
    have hentered := (introduce_extends r [] name).trans (enter_extends _ [] [(thisName, true)])
    simpa [Stmt.resolve, Stmt.occurrences] using
      (hentered.trans hmethods).trans (leave_extends _ [])

/-- Statements add distances for their own occurrences. -/
theorem Stmt.resolveAll_extends (around : Surroundings) : (ss : List Stmt) → (r : Resolution) →
    Extends (Stmt.occurrencesAll ss) r (Stmt.resolveAll around ss r)
  | [], r => Extends.refl r []
  | s :: rest, r => (s.resolve_extends around r).trans (Stmt.resolveAll_extends around rest _)

/-- A function adds distances for its own occurrences. -/
theorem FunctionDecl.resolve_extends (around : Surroundings) : (d : FunctionDecl) →
    (r : Resolution) → Extends d.occurrences r (d.resolve around r)
  | ⟨_, params, body⟩, r => by
    have hparams := (enter_extends r [] []).trans (introduceAll_extends (r.enter []) [] params)
    have hbody := Stmt.resolveAll_extends around body
      (params.foldl (fun r p => r.introduce p) (r.enter []))
    simpa [FunctionDecl.resolve, FunctionDecl.occurrences] using
      (hparams.trans hbody).trans (leave_extends _ [])

/-- Methods add distances for their own occurrences. -/
theorem FunctionDecl.resolveMethods_extends (around : Surroundings) : (ds : List FunctionDecl) →
    (r : Resolution) →
    Extends (FunctionDecl.occurrencesAll ds) r (FunctionDecl.resolveMethods around ds r)
  | [], r => Extends.refl r []
  | d :: rest, r =>
    (d.resolve_extends _ r).trans (FunctionDecl.resolveMethods_extends around rest _)

end

end Lox
