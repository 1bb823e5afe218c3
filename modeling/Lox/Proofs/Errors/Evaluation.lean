import Mathlib.Data.List.Basic
import Lox.Proofs.Grammar.Parts
import Lox.Proofs.Traces.Evaluation

/-!
# Errors of the parts of programs

A runtime error arises where the evaluation of an expression fails at its own token. Which errors can arise at
an expression is read off the expression alone, so it is known of a run if the expressions are known to which it
comes. These are parts of the programs that have been run: every function in the store was declared in one of
them, which is an invariant. So all moments of a run are at parts, and an error with which it ends has arisen at
one of them. The grammar leaves only some errors: an operator without a case is not in the parts, and neither is a
function with more than eight parameters.
-/

set_option autoImplicit false

namespace Lox

/-- The evaluation of an expression can fail for this reason at its own token, if the grammar yields it. -/
def Expr.FailsWith (cause : RuntimeCause) : Expr → Prop
  | .unary operator _ => operator.kind = .symbol .minus ∧ cause = .operandNotNumber
  | .binary _ operator _ =>
    (operator.kind = .symbol .plus ∧ cause = .operandsNotAddable) ∨
      (∃ s ∈ numericOperators, operator.kind = .symbol s) ∧ cause = .operandsNotNumbers
  | .variable _ name => cause = .undefinedVariable name.lexeme
  | .assign _ name _ => cause = .undefinedVariable name.lexeme
  | .call _ _ arguments =>
    cause = .notCallable ∨
      ∃ expected ≤ 8, expected ≠ arguments.length ∧ cause = .wrongArgumentCount expected arguments.length
  | .get _ name => cause = .noProperties ∨ cause = .undefinedProperty name.lexeme
  | .set _ _ _ => cause = .noFields
  | .this _ keyword => cause = .undefinedVariable keyword.lexeme
  | _ => False

/-- A runtime error can arise at an expression. Its line is that of the token of the expression. -/
def Expr.Raises (e : Expr) (error : RuntimeError) : Prop :=
  e.FailsWith error.cause ∧ ∃ t ∈ e.token?, error.line = t.line

/-- A runtime error has arisen at a moment: the expression whose evaluation begins there fails with it. -/
def Moment.Raises (x : Moment) (error : RuntimeError) : Prop :=
  ∃ depth e m, x.event = .expression depth e ∧
    evaluate depth e x.state = .error (.failed (.runtime error)) m ∧ e.Raises error

/-- The expression whose evaluation begins at a moment is one of the parts. -/
def Moment.Within (parts : List Part) (x : Moment) : Prop :=
  ∀ depth e, x.event = .expression depth e → .expression e ∈ parts

section Operators

/-- The only prefix operator that fails is the minus. -/
theorem Expr.raises_of_applyUnary {operator : Token} {right : Expr} (hproper : (Expr.unary operator right).IsProper)
    {v : Value} {m m' : Interpreter} {error : RuntimeError}
    (h : applyUnary operator v m = .error (.failed (.runtime error)) m') : (Expr.unary operator right).Raises error := by
  unfold applyUnary at h
  rcases hproper with hkind | hkind
  · rw [hkind] at h
    cases v <;> cases h <;> exact ⟨⟨hkind, rfl⟩, operator, rfl, rfl⟩
  · rw [hkind] at h
    cases h

/-- An operator on two numbers fails where they are not numbers. -/
theorem error_of_onNumbers {operator : Token} {a b : Value} {f : Float → Float → Value} {m m' : Interpreter}
    {error : RuntimeError} (h : onNumbers operator a b f m = .error (.failed (.runtime error)) m') :
    error = ⟨operator.line, .operandsNotNumbers⟩ := by
  unfold onNumbers at h
  split at h <;> cases h
  rfl

/-- A sum fails where the operands are neither numbers nor strings. -/
theorem error_of_add {operator : Token} {a b : Value} {m m' : Interpreter} {error : RuntimeError}
    (h : add operator a b m = .error (.failed (.runtime error)) m') :
    error = ⟨operator.line, .operandsNotAddable⟩ := by
  unfold add at h
  split at h <;> cases h
  rfl

/-- There is a case for every infix operator of the grammar. -/
theorem Expr.raises_of_applyBinary {left right : Expr} {operator : Token}
    (hproper : (Expr.binary left operator right).IsProper) {a b : Value} {m m' : Interpreter} {error : RuntimeError}
    (h : applyBinary operator a b m = .error (.failed (.runtime error)) m') :
    (Expr.binary left operator right).Raises error := by
  obtain ⟨s, hs, hkind⟩ := hproper
  have hnumbers (hmem : s ∈ numericOperators) (heq : error = ⟨operator.line, .operandsNotNumbers⟩) :
      (Expr.binary left operator right).Raises error := by
    subst heq
    exact ⟨.inr ⟨⟨s, hmem, hkind⟩, rfl⟩, operator, rfl, rfl⟩
  unfold applyBinary at h
  rw [hkind] at h
  cases s with
  | plus =>
    obtain rfl := error_of_add h
    exact ⟨.inl ⟨hkind, rfl⟩, operator, rfl, rfl⟩
  | minus => exact hnumbers (by decide) (error_of_onNumbers h)
  | star => exact hnumbers (by decide) (error_of_onNumbers h)
  | slash => exact hnumbers (by decide) (error_of_onNumbers h)
  | greater => exact hnumbers (by decide) (error_of_onNumbers h)
  | greaterEqual => exact hnumbers (by decide) (error_of_onNumbers h)
  | less => exact hnumbers (by decide) (error_of_onNumbers h)
  | lessEqual => exact hnumbers (by decide) (error_of_onNumbers h)
  | equalEqual => cases h
  | bangEqual => cases h
  | _ => exact absurd hs (by decide)

/-- A proper expression that fails by itself raises its error at its own token, if no good value takes more than
eight arguments. -/
theorem Expr.FailsBy.raises {good : Value → Prop} {e : Expr} {error : RuntimeError} (h : e.FailsBy good error)
    (hproper : e.IsProper) (hgood : ∀ f, good f → ∀ arity, f.arity? = some arity → arity ≤ 8) : e.Raises error := by
  cases h with
  | unary h => exact raises_of_applyUnary hproper h
  | binary h => exact raises_of_applyBinary hproper h
  | «variable» => exact ⟨rfl, _, rfl, rfl⟩
  | assign => exact ⟨rfl, _, rfl, rfl⟩
  | callee => exact ⟨.inl rfl, _, rfl, rfl⟩
  | count hf harity hcount => exact ⟨.inr ⟨_, hgood _ hf _ harity, Ne.symm hcount, rfl⟩, _, rfl, rfl⟩
  | noProperties => exact ⟨.inl rfl, _, rfl, rfl⟩
  | property => exact ⟨.inr rfl, _, rfl, rfl⟩
  | noFields => exact ⟨rfl, _, rfl, rfl⟩
  | this => exact ⟨rfl, _, rfl, rfl⟩

end Operators

/-- All methods were declared in the parts. -/
def Part.HoldMethods {E : Type} (parts : List Part) (methods : Bindings (ClosureOver E)) : Prop :=
  ∀ name method, methods.get? name = some method → .function method.declaration ∈ parts

/-- All functions and methods in a value were declared in the parts. -/
def ValueOver.IsFrom {E : Type} (parts : List Part) : ValueOver E → Prop
  | .function c => .function c.declaration ∈ parts
  | .class c => Part.HoldMethods parts c.methods
  | .instance i => Part.HoldMethods parts i.blueprint.methods
  | _ => True

/-- The parts are those of programs that the grammar yields. -/
structure Part.Grammatical (parts : List Part) : Prop where
  closed : Part.Closed parts
  proper : ∀ part ∈ parts, part.IsProper fun _ => True

variable {parts : List Part}

/-- Every expression among the parts is proper. -/
theorem Part.Grammatical.expression (h : Part.Grammatical parts) {e : Expr} (he : .expression e ∈ parts) :
    e.IsProper :=
  (h.proper _ he).1

/-- Every function among the parts has at most eight parameters. -/
theorem Part.Grammatical.function (h : Part.Grammatical parts) {d : FunctionDecl} (hd : .function d ∈ parts) :
    d.params.length ≤ 8 :=
  h.proper _ hd

/-- A value that can be called takes at most eight arguments. -/
theorem ValueOver.IsFrom.arity_le {f : Value} (hf : f.IsFrom parts) (h : Part.Grammatical parts) {arity : Nat}
    (harity : f.arity? = some arity) : arity ≤ 8 := by
  cases f with
  | clock =>
    cases harity
    exact Nat.zero_le 8
  | function c =>
    cases harity
    exact h.function hf
  | «class» c =>
    cases harity
    cases hmethod : c.initializer? with
    | none =>
      rw [ClassOver.arity, hmethod]
      exact Nat.zero_le 8
    | some method =>
      rw [ClassOver.arity, hmethod]
      exact h.function (hf _ method hmethod)
  | _ => cases harity

section Parts

/-- The operands of an expression bring no other parts. -/
theorem Expr.parts_operand {e operand : Expr} (hmem : operand ∈ e.operands) : operand.parts ⊆ e.parts := by
  cases e with
  | grouping inner => exact List.mem_singleton.mp hmem ▸ List.subset_cons_self _ _
  | unary operator right => exact List.mem_singleton.mp hmem ▸ List.subset_cons_self _ _
  | binary left operator right =>
    refine List.subset_cons_of_subset _ ?_
    rcases List.mem_pair.mp hmem with rfl | rfl
    · exact List.subset_append_left _ _
    · exact List.subset_append_right _ _
  | logical left operator right =>
    refine List.subset_cons_of_subset _ ?_
    rcases List.mem_pair.mp hmem with rfl | rfl
    · exact List.subset_append_left _ _
    · exact List.subset_append_right _ _
  | assign id name value => exact List.mem_singleton.mp hmem ▸ List.subset_cons_self _ _
  | call callee paren arguments =>
    refine List.subset_cons_of_subset _ ?_
    rcases List.mem_cons.mp hmem with rfl | hmem
    · exact List.subset_append_left _ _
    · exact List.subset_append_of_subset_right _ (Expr.parts_subset hmem)
  | get object name => exact List.mem_singleton.mp hmem ▸ List.subset_cons_self _ _
  | set object name value =>
    refine List.subset_cons_of_subset _ ?_
    rcases List.mem_pair.mp hmem with rfl | rfl
    · exact List.subset_append_left _ _
    · exact List.subset_append_right _ _
  | _ => cases hmem

/-- The expressions of a statement bring no other parts. -/
theorem Stmt.parts_operand {s : Stmt} {operand : Expr} (hmem : operand ∈ s.operands) : operand.parts ⊆ s.parts := by
  cases s with
  | expression expr => exact List.mem_singleton.mp hmem ▸ List.Subset.refl _
  | print expr => exact List.mem_singleton.mp hmem ▸ List.Subset.refl _
  | «variable» name initial =>
    obtain rfl := Option.mem_toList.mp hmem
    exact List.Subset.refl _
  | conditional condition thenBranch elseBranch =>
    rw [List.mem_singleton.mp hmem]
    cases elseBranch with
    | none => exact List.subset_append_left _ _
    | some elseBranch => exact List.subset_append_of_subset_left _ (List.subset_append_left _ _)
  | loop condition body => exact List.mem_singleton.mp hmem ▸ List.subset_append_left _ _
  | «return» keyword value =>
    obtain rfl := Option.mem_toList.mp hmem
    exact List.Subset.refl _
  | _ => cases hmem

/-- The branches of a statement bring no other parts. -/
theorem Stmt.parts_branch {s branch : Stmt} (hmem : branch ∈ s.branches) : branch.parts ⊆ s.parts := by
  cases s with
  | conditional condition thenBranch elseBranch =>
    cases elseBranch with
    | none => exact List.mem_singleton.mp hmem ▸ List.subset_append_right _ _
    | some elseBranch =>
      rcases List.mem_pair.mp hmem with rfl | rfl
      · exact List.subset_append_of_subset_left _ (List.subset_append_right _ _)
      · exact List.subset_append_right _ _
  | loop condition body => exact List.mem_singleton.mp hmem ▸ List.subset_append_right _ _
  | _ => cases hmem

end Parts

/-- What is known of a run of programs with the given parts: what has happened by now. -/
def partsKnown (parts : List Part) : Knowledge where
  World := List Moment
  Leads past moments past' := past' = past ++ moments
  Holds _ _ := True
  Good _ v := v.IsFrom parts
  MayEnter _ _ := True
  MayEvaluate _ _ e := e.parts ⊆ parts
  MayExecute _ _ s := s.parts ⊆ parts
  MayFail past failure := ∀ error ∈ failure.runtime?, ∃ x ∈ past, x.Raises error

/-- In a new scope, all statements among the parts may run. -/
theorem partsKnown_opens (past : List Moment) (m : Interpreter) (env : Environment) (names : Bindings Value)
    {body : List Stmt} (hbody : Stmt.partsAll body ⊆ parts) : (partsKnown parts).Opens past m env names body :=
  ⟨past, (List.append_nil past).symm, trivial, trivial,
    fun _ hs => List.Subset.trans (Stmt.parts_subset hs) hbody⟩

/-- A run of programs stays within their parts, and fails only with errors of its moments. -/
def partsKept (hparts : Part.Grammatical parts) : Invariant where
  toKnowledge := partsKnown parts
  leads_refl past := (List.append_nil past).symm
  leads_trans := by
    rintro _ _ _ _ _ rfl rfl
    exact List.append_assoc ..
  good_mono _ h := h
  mayEnter_mono _ _ := trivial
  mayEvaluate_mono _ h := h
  mayExecute_mono _ h := h
  mayFail_mono := by
    rintro past _ moments failure rfl h error herror
    obtain ⟨x, hx, hraises⟩ := h error herror
    exact ⟨x, List.mem_append_left _ hx, hraises⟩
  passes _ _ := ⟨_, rfl, trivial⟩
  operand h hmem := List.Subset.trans (Expr.parts_operand hmem) h
  operand_stmt h hmem := List.Subset.trans (Stmt.parts_operand hmem) h
  branch h hmem := List.Subset.trans (Stmt.parts_branch hmem) h
  mayEnter_current _ := trivial
  mayEnter_topLevel _ := trivial
  entering _ _ := trivial
  opens_block _ h := partsKnown_opens _ _ _ _ h
  opens_function _ hc _ := partsKnown_opens _ _ _ _ (hparts.closed _ hc)
  good_plain {_ v} hv := by
    cases v <;> trivial
  good_instance h := h
  good_function {_ c} _ h _ := h (show _ ∈ c.declaration.parts from c.declaration.parts_eq ▸ List.mem_cons_self ..)
  good_class _ h hc name method hmethod := by
    obtain ⟨d, hd, hmethod⟩ := hc name method hmethod
    exact hmethod.declaration ▸ h (FunctionDecl.mem_partsAll hd)
  elsewhere _ _ _ _ _ := trivial
  assigns _ _ _ := trivial
  defines _ _ _ _ := trivial
  takes {_ _ _ name method} _ hi hmethod := ⟨_, rfl, trivial, show _ ∈ parts from hi name method hmethod⟩
  mayFail_output := nofun
  mayFail_own := by
    rintro (past : List Moment) _ depth e m t moments error rfl he herror hrun
    have hraises : e.Raises error :=
      herror.raises (hparts.expression (he e.mem_parts)) fun f hf _ harity => hf.arity_le hparts harity
    have hmem : ⟨.expression depth e, m⟩ ∈ past ++ ⟨.expression depth e, m⟩ :: moments :=
      List.mem_append_right past (List.mem_cons_self ..)
    rintro _ ⟨⟩
    exact ⟨_, hmem, depth, e, t, rfl, hrun, hraises⟩

/-- All moments of such a run are within the parts. -/
theorem Invariant.Path.within {hparts : Part.Grammatical parts} {past past' : (partsKept hparts).World}
    {moments : List Moment} (h : (partsKept hparts).Path past moments past') : ∀ x ∈ moments, x.Within parts := by
  intro x hx depth e hevent
  obtain ⟨before, after, rfl⟩ := List.append_of_mem hx
  obtain ⟨_, -, hfits⟩ := h.fits
  have hparts : e.parts ⊆ parts := (hfits.expression depth e hevent).2
  exact hparts e.mem_parts

end Lox
