import Lox.Proofs.Grammar.Rules
import Lox.Proofs.Tree.Names

/-!
# The names in a program are names among its tokens

What is known of all names among the tokens of a phrase is known of all names in its tree, and of the
names among the tokens behind it.
-/

set_option autoImplicit false

namespace Lox.Grammar

/-- Every name among the tokens has a property. -/
def NamesAre (p : Token → Prop) (tokens : List Token) : Prop :=
  ∀ t ∈ tokens, t.isIdentifier = true → p t

/-- The names behind the first token have the property. -/
theorem NamesAre.tail {p : Token → Prop} {t : Token} {tokens : List Token} (h : NamesAre p (t :: tokens)) :
    NamesAre p tokens := (List.forall_mem_cons.mp h).2

/-- The first token has the property if it is a name. -/
theorem NamesAre.head {p : Token → Prop} {t : Token} {tokens : List Token} (h : NamesAre p (t :: tokens))
    (ht : t.isIdentifier = true) : p t := (List.forall_mem_cons.mp h).1 ht

variable {p : Token → Prop}

mutual

/-- The names of a phrase are those of its tokens. -/
theorem Phrase.names_are {r tokens e rest} :
    Phrase r tokens e rest → NamesAre p tokens → NamesAre p rest ∧ ∀ t ∈ e.names, p t
  | .disjunction h, hp => h.names_are hp
  | .assign hname _ hvalue, hp =>
    have ⟨hrest, hnames⟩ := hvalue.names_are hp.tail.tail
    ⟨hrest, List.forall_mem_cons.mpr ⟨hp.head hname, hnames⟩⟩
  | .set hobject _ _ _ hvalue, hp =>
    have ⟨hbehind, hnames⟩ := hobject.names_are hp
    have ⟨hrest, hnames'⟩ := hvalue.names_are hbehind.tail.tail.tail
    ⟨hrest, List.forall_mem_append.mpr ⟨hnames, hnames'⟩⟩
  | .operand h, hp => h.names_are hp
  | @Phrase.operation l _ _ _ _ _ _ hleft _ hright, hp => by
    obtain ⟨hbehind, hnames⟩ := hleft.names_are hp
    obtain ⟨hrest, hnames'⟩ := hright.names_are hbehind.tail
    refine ⟨hrest, ?_⟩
    cases l <;> exact List.forall_mem_append.mpr ⟨hnames, hnames'⟩
  | .unary _ h, hp => h.names_are hp.tail
  | .called h, hp => h.names_are hp
  | .callEmpty h _ _, hp =>
    have ⟨hbehind, hnames⟩ := h.names_are hp
    ⟨hbehind.tail.tail, List.forall_mem_append.mpr ⟨hnames, by simp [Expr.namesAll]⟩⟩
  | .call h _ harguments _ _, hp =>
    have ⟨hbehind, hnames⟩ := h.names_are hp
    have ⟨hrest, hnames'⟩ := harguments.names_are hbehind.tail
    ⟨hrest.tail, List.forall_mem_append.mpr ⟨hnames, hnames'⟩⟩
  | .property h _ _, hp =>
    have ⟨hbehind, hnames⟩ := h.names_are hp
    ⟨hbehind.tail.tail, hnames⟩
  | .primary h, hp => h.names_are hp
  | .constant _, hp => ⟨hp.tail, by simp [Expr.names]⟩
  | .this _, hp => ⟨hp.tail, by simp [Expr.names]⟩
  | .name hname, hp => ⟨hp.tail, List.forall_mem_singleton.mpr (hp.head hname)⟩
  | .grouping _ h _, hp =>
    have ⟨hbehind, hnames⟩ := h.names_are hp.tail
    ⟨hbehind.tail, hnames⟩

/-- The names of arguments are those of their tokens. -/
theorem Arguments.names_are {tokens es rest} :
    Arguments tokens es rest → NamesAre p tokens → NamesAre p rest ∧ ∀ t ∈ Expr.namesAll es, p t
  | .last h, hp =>
    have ⟨hrest, hnames⟩ := h.names_are hp
    ⟨hrest, List.forall_mem_append.mpr ⟨hnames, by simp [Expr.namesAll]⟩⟩
  | .more h _ harguments, hp =>
    have ⟨hbehind, hnames⟩ := h.names_are hp
    have ⟨hrest, hnames'⟩ := harguments.names_are hbehind.tail
    ⟨hrest, List.forall_mem_append.mpr ⟨hnames, hnames'⟩⟩

end

/-- The names in an optional expression are those of its tokens. -/
theorem OptionalExpression.names_are {tokens e rest} (h : OptionalExpression tokens e rest)
    (hp : NamesAre p tokens) : NamesAre p rest ∧ ∀ t ∈ Expr.namesOption e, p t := by
  cases h with
  | none => exact ⟨hp, by simp [Expr.namesOption]⟩
  | some h => exact h.names_are hp

/-- Parameters are names among their tokens. -/
theorem Parameters.names_are {tokens params rest} (h : Parameters tokens params rest)
    (hp : NamesAre p tokens) : NamesAre p rest ∧ ∀ t ∈ params, p t := by
  induction h with
  | last hname => exact ⟨hp.tail, List.forall_mem_singleton.mpr (hp.head hname)⟩
  | more hname _ _ ih =>
    obtain ⟨hrest, hnames⟩ := ih hp.tail.tail
    exact ⟨hrest, List.forall_mem_cons.mpr ⟨hp.head hname, hnames⟩⟩

/-- Optional parameters are names among their tokens. -/
theorem OptionalParameters.names_are {tokens params rest} (h : OptionalParameters tokens params rest)
    (hp : NamesAre p tokens) : NamesAre p rest ∧ ∀ t ∈ params, p t := by
  cases h with
  | none => exact ⟨hp, by simp⟩
  | some h => exact h.names_are hp

/-- The names in the declaration of a variable are those of its tokens. -/
theorem Variable.names_are {tokens s rest} (h : Variable tokens s rest) (hp : NamesAre p tokens) :
    NamesAre p rest ∧ ∀ t ∈ s.names, p t := by
  cases h with
  | plain hname _ => exact ⟨hp.tail.tail, List.forall_mem_singleton.mpr (hp.head hname)⟩
  | initialized hname _ h _ =>
    obtain ⟨hrest, hnames⟩ := h.names_are hp.tail.tail
    exact ⟨hrest.tail, List.forall_mem_cons.mpr ⟨hp.head hname, hnames⟩⟩

/-- The names in the first clause of a `for` loop are those of its tokens. -/
theorem InitialClause.names_are {tokens s? rest} (h : InitialClause tokens s? rest)
    (hp : NamesAre p tokens) : NamesAre p rest ∧ ∀ s ∈ s?, ∀ t ∈ s.names, p t := by
  cases h with
  | none _ => exact ⟨hp.tail, by simp⟩
  | «variable» _ h =>
    obtain ⟨hrest, hnames⟩ := h.names_are hp.tail
    exact ⟨hrest, by rintro _ ⟨⟩; exact hnames⟩
  | expression h _ =>
    obtain ⟨hrest, hnames⟩ := h.names_are hp
    exact ⟨hrest.tail, by rintro _ ⟨⟩; exact hnames⟩

/-- The names of a for loop are those of its clauses and its body. -/
theorem forLoop_names {initial : Option Stmt} {condition increment : Option Expr} {body : Stmt}
    (hinitial : ∀ s ∈ initial, ∀ t ∈ s.names, p t) (hcondition : ∀ t ∈ Expr.namesOption condition, p t)
    (hincrement : ∀ t ∈ Expr.namesOption increment, p t) (hbody : ∀ t ∈ body.names, p t) :
    ∀ t ∈ (forLoop initial (condition.getD (.literal .true)) increment body).names, p t := by
  have hcondition' : ∀ t ∈ (condition.getD (.literal .true)).names, p t := by
    cases condition with
    | none => simp [Expr.names]
    | some e => exact hcondition
  have hall : ∀ t ∈ ((forLoop none (condition.getD (.literal .true)) increment body).names), p t := by
    refine List.forall_mem_append.mpr ⟨hcondition', ?_⟩
    cases increment with
    | none => exact hbody
    | some e =>
      exact List.forall_mem_append.mpr ⟨hbody, List.forall_mem_append.mpr ⟨hincrement, by
        simp [Stmt.namesAll]⟩⟩
  cases initial with
  | none => exact hall
  | some s =>
    exact List.forall_mem_append.mpr ⟨hinitial s rfl, List.forall_mem_append.mpr ⟨hall, by
      simp [Stmt.namesAll]⟩⟩

mutual

/-- The names in a statement are those of its tokens. -/
theorem Statement.names_are {dangling tokens s rest} :
    Statement dangling tokens s rest → NamesAre p tokens → NamesAre p rest ∧ ∀ t ∈ s.names, p t
  | .expression h _, hp =>
    have ⟨hrest, hnames⟩ := h.names_are hp
    ⟨hrest.tail, hnames⟩
  | .print _ h _, hp =>
    have ⟨hrest, hnames⟩ := h.names_are hp.tail
    ⟨hrest.tail, hnames⟩
  | .return _ h _, hp =>
    have ⟨hrest, hnames⟩ := h.names_are hp.tail
    ⟨hrest.tail, hnames⟩
  | .block _ h _, hp =>
    have ⟨hrest, hnames⟩ := h.names_are hp.tail
    ⟨hrest.tail, hnames⟩
  | .if _ _ hcondition _ hthen, hp =>
    have ⟨hbehind, hnames⟩ := hcondition.names_are hp.tail.tail
    have ⟨hrest, hnames'⟩ := hthen.names_are hbehind.tail
    ⟨hrest, List.forall_mem_append.mpr ⟨hnames, hnames'⟩⟩
  | .ifElse _ _ hcondition _ hthen _ helse, hp =>
    have ⟨hbehind, hnames⟩ := hcondition.names_are hp.tail.tail
    have ⟨hbehind', hnames'⟩ := hthen.names_are hbehind.tail
    have ⟨hrest, hnames''⟩ := helse.names_are hbehind'.tail
    ⟨hrest, List.forall_mem_append.mpr ⟨List.forall_mem_append.mpr ⟨hnames, hnames'⟩, hnames''⟩⟩
  | .while _ _ hcondition _ hbody, hp =>
    have ⟨hbehind, hnames⟩ := hcondition.names_are hp.tail.tail
    have ⟨hrest, hnames'⟩ := hbody.names_are hbehind.tail
    ⟨hrest, List.forall_mem_append.mpr ⟨hnames, hnames'⟩⟩
  | .for _ _ hinitial hcondition _ hincrement _ hbody, hp =>
    have ⟨hbehind, hnames⟩ := hinitial.names_are hp.tail.tail
    have ⟨hbehind', hnames'⟩ := hcondition.names_are hbehind
    have ⟨hbehind'', hnames''⟩ := hincrement.names_are hbehind'.tail
    have ⟨hrest, hnames'''⟩ := hbody.names_are hbehind''.tail
    ⟨hrest, forLoop_names hnames hnames' hnames'' hnames'''⟩

/-- The names in a declaration are those of its tokens. -/
theorem Declaration.names_are {tokens s rest} :
    Declaration tokens s rest → NamesAre p tokens → NamesAre p rest ∧ ∀ t ∈ s.names, p t
  | .class _ hname _ h _, hp =>
    have ⟨hrest, hnames⟩ := h.names_are hp.tail.tail.tail
    ⟨hrest.tail, List.forall_mem_cons.mpr ⟨hp.tail.head hname, hnames⟩⟩
  | .function _ h, hp => h.names_are hp.tail
  | .variable _ h, hp => h.names_are hp.tail
  | .statement h, hp => h.names_are hp

/-- The names in declarations are those of their tokens. -/
theorem Declarations.names_are {tokens ss rest} :
    Declarations tokens ss rest → NamesAre p tokens → NamesAre p rest ∧ ∀ t ∈ Stmt.namesAll ss, p t
  | .none, hp => ⟨hp, by simp [Stmt.namesAll]⟩
  | .more h hs, hp =>
    have ⟨hbehind, hnames⟩ := h.names_are hp
    have ⟨hrest, hnames'⟩ := hs.names_are hbehind
    ⟨hrest, List.forall_mem_append.mpr ⟨hnames, hnames'⟩⟩

/-- The names in a function are those of its tokens. -/
theorem NamedFunction.names_are {tokens d rest} :
    NamedFunction tokens d rest → NamesAre p tokens → NamesAre p rest ∧ ∀ t ∈ d.names, p t
  | .mk hname _ hparams _ _ hbody _, hp =>
    have ⟨hbehind, hnames⟩ := hparams.names_are hp.tail.tail
    have ⟨hrest, hnames'⟩ := hbody.names_are hbehind.tail.tail
    ⟨hrest.tail, List.forall_mem_cons.mpr ⟨hp.head hname, List.forall_mem_append.mpr ⟨hnames, hnames'⟩⟩⟩

/-- The names in methods are those of their tokens. -/
theorem Methods.names_are {tokens ds rest} :
    Methods tokens ds rest → NamesAre p tokens → NamesAre p rest ∧ ∀ t ∈ FunctionDecl.namesAll ds, p t
  | .none, hp => ⟨hp, by simp [FunctionDecl.namesAll]⟩
  | .more h hs, hp =>
    have ⟨hbehind, hnames⟩ := h.names_are hp
    have ⟨hrest, hnames'⟩ := hs.names_are hbehind
    ⟨hrest, List.forall_mem_append.mpr ⟨hnames, hnames'⟩⟩

end

end Lox.Grammar
