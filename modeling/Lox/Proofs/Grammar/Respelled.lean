import Mathlib
import Lox.Proofs.Grammar.Language
import Lox.Proofs.Tree.Respelled

/-!
# Programs with other names

The grammar does not look at how names are spelled. So where some names in the tree of a program are replaced by
related ones, there are tokens for the new tree: those of the program, some of its names replaced in their places.
The parser yields the new tree for them, with the numbers that the occurrences had before.
-/

set_option autoImplicit false

namespace Lox

/-- A token is the same, or a name in whose place there may be a related one. -/
def Token.Respelled (R : Token → Token → Prop) (t t' : Token) : Prop :=
  t' = t ∨ t.isIdentifier = true ∧ R t t'

/-- Tokens are the same, one by one, but for names in whose place there are related ones. -/
abbrev Token.AllRespelled (R : Token → Token → Prop) (tokens tokens' : List Token) : Prop :=
  List.Forall₂ (Token.Respelled R) tokens tokens'

variable {R : Token → Token → Prop}

/-- The same token may stand in front of respelled ones. -/
theorem Token.AllRespelled.keep {t : Token} {tokens tokens' : List Token} (h : Token.AllRespelled R tokens tokens') :
    Token.AllRespelled R (t :: tokens) (t :: tokens') := .cons (.inl rfl) h

/-- A name may stand in front of respelled tokens, with a related one in its place. -/
theorem Token.AllRespelled.name {name name' : Token} {tokens tokens' : List Token}
    (hname : name.isIdentifier = true) (h : R name name') (htokens : Token.AllRespelled R tokens tokens') :
    Token.AllRespelled R (name :: tokens) (name' :: tokens') := .cons (.inr ⟨hname, h⟩) htokens

/-- Where related tokens differ in spelling only, so do respelled ones. -/
theorem Token.SpellingOnly.respelled (hR : Token.SpellingOnly R) : Token.SpellingOnly (Token.Respelled R) := by
  rintro t t' (rfl | ⟨-, h⟩)
  · rfl
  · exact hR h

/-- Respelled tokens end no input if the first ones do not. -/
theorem Token.AllRespelled.isEof (hR : Token.SpellingOnly R) {tokens tokens' : List Token}
    (h : Token.AllRespelled R tokens tokens') (htokens : ∀ t ∈ tokens, t.isEof = false) :
    ∀ t ∈ tokens', t.isEof = false := by
  induction h with
  | nil => exact htokens
  | @cons t t' tokens tokens' h _ ih =>
    have hkind : t'.kind = t.kind := (congrArg Token.kind (hR.respelled h) :)
    simp only [List.mem_cons, forall_eq_or_imp] at htokens ⊢
    exact ⟨by rw [Token.isEof, hkind]; exact htokens.1, ih htokens.2⟩

/-- Respelled expressions are as many as the first ones. -/
theorem Expr.AllRespelled.length_eq {es es' : List Expr} (h : Expr.AllRespelled R es es') :
    es'.length = es.length := by
  induction es generalizing es' with
  | nil =>
    cases h
    rfl
  | cons e rest ih =>
    cases h with
    | cons _ hrest => rw [List.length_cons, List.length_cons, ih hrest]

namespace Grammar

/-- What is respelled from an infix expression is one of the same operator, with respelled operands. -/
theorem Level.respelled_build (l : Level) {left right : Expr} {operator : Token} {e' : Expr}
    (h : (l.build left operator right).Respelled R e') :
    ∃ left' right', e' = l.build left' operator right' ∧ left.Respelled R left' ∧ right.Respelled R right' := by
  cases l <;> cases h <;> exact ⟨_, _, rfl, ‹_›, ‹_›⟩

section Expressions

mutual

/-- There is a phrase for an expression with other names. -/
theorem Phrase.respelled (hR : Token.SpellingOnly R) {r tokens e rest e' rest'} :
    Phrase r tokens e rest → e.Respelled R e' → Token.AllRespelled R rest rest' →
      ∃ tokens', Token.AllRespelled R tokens tokens' ∧ Phrase r tokens' e' rest'
  | .disjunction h, he, hrest =>
    have ⟨tokens', htokens, h'⟩ := h.respelled hR he hrest
    ⟨tokens', htokens, .disjunction h'⟩
  | .assign hname hequals hvalue, .assign hname' he, hrest =>
    have ⟨_, htokens, hvalue'⟩ := hvalue.respelled hR he hrest
    ⟨_, .name hname hname' htokens.keep, .assign (hR.isIdentifier hname' hname) hequals hvalue'⟩
  | .set hobject hdot hname hequals hvalue, .set he hvalue', hrest =>
    have ⟨_, hothers, hvalue''⟩ := hvalue.respelled hR hvalue' hrest
    have ⟨tokens', htokens, hobject'⟩ := hobject.respelled hR he hothers.keep.keep.keep
    ⟨tokens', htokens, .set hobject' hdot hname hequals hvalue''⟩
  | .operand h, he, hrest =>
    have ⟨tokens', htokens, h'⟩ := h.respelled hR he hrest
    ⟨tokens', htokens, .operand h'⟩
  | @Phrase.operation l _ _ _ _ _ _ hleft hoperator hright, he, hrest => by
    obtain ⟨left', right', rfl, hleft', hright'⟩ := l.respelled_build he
    obtain ⟨_, hothers, hright''⟩ := hright.respelled hR hright' hrest
    obtain ⟨tokens', htokens, hleft''⟩ := hleft.respelled hR hleft' hothers.keep
    exact ⟨tokens', htokens, .operation hleft'' hoperator hright''⟩
  | .unary hoperator h, .unary he, hrest =>
    have ⟨_, htokens, h'⟩ := h.respelled hR he hrest
    ⟨_, htokens.keep, .unary hoperator h'⟩
  | .called h, he, hrest =>
    have ⟨tokens', htokens, h'⟩ := h.respelled hR he hrest
    ⟨tokens', htokens, .called h'⟩
  | .callEmpty h hopening hclosing, .call he .nil, hrest =>
    have ⟨tokens', htokens, h'⟩ := h.respelled hR he hrest.keep.keep
    ⟨tokens', htokens, .callEmpty h' hopening hclosing⟩
  | .call h hopening harguments hcount hclosing, .call he hes, hrest =>
    have ⟨_, hothers, harguments'⟩ := harguments.respelled hR hes hrest.keep
    have ⟨tokens', htokens, h'⟩ := h.respelled hR he hothers.keep
    ⟨tokens', htokens, .call h' hopening harguments' (hes.length_eq ▸ hcount) hclosing⟩
  | .property h hdot hname, .get he, hrest =>
    have ⟨tokens', htokens, h'⟩ := h.respelled hR he hrest.keep.keep
    ⟨tokens', htokens, .property h' hdot hname⟩
  | .primary h, he, hrest =>
    have ⟨tokens', htokens, h'⟩ := h.respelled hR he hrest
    ⟨tokens', htokens, .primary h'⟩
  | .constant hvalue, .literal, hrest => ⟨_, hrest.keep, .constant hvalue⟩
  | .this hthis, .this, hrest => ⟨_, hrest.keep, .this hthis⟩
  | .name hname, .variable hname', hrest =>
    ⟨_, .name hname hname' hrest, .name (hR.isIdentifier hname' hname)⟩
  | .grouping hopening h hclosing, .grouping he, hrest =>
    have ⟨_, htokens, h'⟩ := h.respelled hR he hrest.keep
    ⟨_, htokens.keep, .grouping hopening h' hclosing⟩

/-- Respelled arguments are read from respelled tokens. -/
theorem Arguments.respelled (hR : Token.SpellingOnly R) {tokens es rest es' rest'} :
    Arguments tokens es rest → Expr.AllRespelled R es es' → Token.AllRespelled R rest rest' →
      ∃ tokens', Token.AllRespelled R tokens tokens' ∧ Arguments tokens' es' rest'
  | .last h, .cons he .nil, hrest =>
    have ⟨tokens', htokens, h'⟩ := h.respelled hR he hrest
    ⟨tokens', htokens, .last h'⟩
  | .more h hcomma harguments, .cons he hes, hrest =>
    have ⟨_, hothers, harguments'⟩ := harguments.respelled hR hes hrest
    have ⟨tokens', htokens, h'⟩ := h.respelled hR he hothers.keep
    ⟨tokens', htokens, .more h' hcomma harguments'⟩

end

/-- A respelled optional expression is read from respelled tokens. -/
theorem OptionalExpression.respelled (hR : Token.SpellingOnly R) {tokens e rest e' rest'}
    (h : OptionalExpression tokens e rest) (he : Option.Rel (Expr.Respelled R) e e')
    (hrest : Token.AllRespelled R rest rest') :
    ∃ tokens', Token.AllRespelled R tokens tokens' ∧ OptionalExpression tokens' e' rest' := by
  cases h with
  | none =>
    cases he
    exact ⟨rest', hrest, .none⟩
  | some h =>
    cases he with
    | some he =>
      obtain ⟨tokens', htokens, h'⟩ := h.respelled hR he hrest
      exact ⟨tokens', htokens, .some h'⟩

end Expressions

section Parts

/-- Respelled parameters are read from respelled tokens. -/
theorem Parameters.respelled (hR : Token.SpellingOnly R) {tokens params rest params' rest'}
    (h : Parameters tokens params rest) (hparams : List.Forall₂ R params params')
    (hrest : Token.AllRespelled R rest rest') :
    ∃ tokens', Token.AllRespelled R tokens tokens' ∧ Parameters tokens' params' rest' := by
  induction h generalizing params' with
  | last hname =>
    obtain _ | ⟨hname', _ | _⟩ := hparams
    exact ⟨_, .name hname hname' hrest, .last (hR.isIdentifier hname' hname)⟩
  | more hname hcomma _ ih =>
    obtain _ | ⟨hname', hparams⟩ := hparams
    obtain ⟨_, htokens, h'⟩ := ih hparams hrest
    exact ⟨_, .name hname hname' htokens.keep, .more (hR.isIdentifier hname' hname) hcomma h'⟩

/-- Respelled optional parameters are read from respelled tokens. -/
theorem OptionalParameters.respelled (hR : Token.SpellingOnly R) {tokens params rest params' rest'}
    (h : OptionalParameters tokens params rest) (hparams : List.Forall₂ R params params')
    (hrest : Token.AllRespelled R rest rest') :
    ∃ tokens', Token.AllRespelled R tokens tokens' ∧ OptionalParameters tokens' params' rest' := by
  cases h with
  | none =>
    cases hparams
    exact ⟨rest', hrest, .none⟩
  | some h hcount =>
    obtain ⟨tokens', htokens, h'⟩ := h.respelled hR hparams hrest
    exact ⟨tokens', htokens, .some h' (hparams.length_eq ▸ hcount)⟩

/-- The respelled declaration of a variable is read from respelled tokens. -/
theorem Variable.respelled (hR : Token.SpellingOnly R) {tokens s rest s' rest'} (h : Variable tokens s rest)
    (hs : s.Respelled R s') (hrest : Token.AllRespelled R rest rest') :
    ∃ tokens', Token.AllRespelled R tokens tokens' ∧ Variable tokens' s' rest' := by
  cases h with
  | plain hname hsemicolon =>
    cases hs with
    | «variable» hname' he =>
      cases he
      exact ⟨_, .name hname hname' hrest.keep, .plain (hR.isIdentifier hname' hname) hsemicolon⟩
  | initialized hname hequals h hsemicolon =>
    cases hs with
    | «variable» hname' he =>
      cases he with
      | some he =>
        obtain ⟨_, htokens, h'⟩ := h.respelled hR he hrest.keep
        exact ⟨_, .name hname hname' htokens.keep,
          .initialized (hR.isIdentifier hname' hname) hequals h' hsemicolon⟩

/-- The respelled first clause of a `for` loop is read from respelled tokens. -/
theorem InitialClause.respelled (hR : Token.SpellingOnly R) {tokens s rest s' rest'}
    (h : InitialClause tokens s rest) (hs : Option.Rel (Stmt.Respelled R) s s')
    (hrest : Token.AllRespelled R rest rest') :
    ∃ tokens', Token.AllRespelled R tokens tokens' ∧ InitialClause tokens' s' rest' := by
  cases h with
  | none hsemicolon =>
    cases hs
    exact ⟨_, hrest.keep, .none hsemicolon⟩
  | «variable» hkeyword h =>
    cases hs with
    | some hs =>
      obtain ⟨_, htokens, h'⟩ := h.respelled hR hs hrest
      exact ⟨_, htokens.keep, .variable hkeyword h'⟩
  | expression h hsemicolon =>
    cases hs with
    | some hs =>
      cases hs with
      | expression he =>
        obtain ⟨tokens', htokens, h'⟩ := h.respelled hR he hrest.keep
        exact ⟨tokens', htokens, .expression h' hsemicolon⟩

end Parts

section Loops

/-- A condition that is left out has no names. -/
theorem condition_respelled {condition : Option Expr} {e' : Expr}
    (h : (condition.getD (.literal .true)).Respelled R e') :
    ∃ condition' : Option Expr, e' = condition'.getD (.literal .true) ∧
      Option.Rel (Expr.Respelled R) condition condition' := by
  cases condition with
  | none =>
    cases h
    exact ⟨none, rfl, .none⟩
  | some condition => exact ⟨some e', rfl, .some h⟩

/-- A block of two statements has other names in the first or in the second. -/
theorem block_pair_respelled {first second s' : Stmt} (h : (Stmt.block [first, second]).Respelled R s') :
    ∃ first' second', s' = .block [first', second'] ∧ first.Respelled R first' ∧ second.Respelled R second' := by
  cases h with
  | block h =>
    cases h with
    | cons hfirst h =>
      cases h with
      | cons hsecond h =>
        cases h
        exact ⟨_, _, rfl, hfirst, hsecond⟩

/-- Where a loop with clauses has other names, they are in its clauses and in its body. -/
theorem forLoop_respelled {initial : Option Stmt} {condition : Expr} {increment : Option Expr} {body s' : Stmt}
    (h : (forLoop initial condition increment body).Respelled R s') :
    ∃ initial' condition' increment' body', s' = forLoop initial' condition' increment' body' ∧
      Option.Rel (Stmt.Respelled R) initial initial' ∧ condition.Respelled R condition' ∧
      Option.Rel (Expr.Respelled R) increment increment' ∧ body.Respelled R body' := by
  have hloop {s' : Stmt} (h : (forLoop none condition increment body).Respelled R s') :
      ∃ condition' increment' body', s' = forLoop none condition' increment' body' ∧
        condition.Respelled R condition' ∧ Option.Rel (Expr.Respelled R) increment increment' ∧
        body.Respelled R body' := by
    cases increment with
    | none =>
      cases h with
      | loop hcondition hbody => exact ⟨_, none, _, rfl, hcondition, .none, hbody⟩
    | some increment =>
      cases h with
      | loop hcondition hbody =>
        obtain ⟨body', _, rfl, hfirst, hsecond⟩ := block_pair_respelled hbody
        cases hsecond with
        | expression hincrement => exact ⟨_, some _, body', rfl, hcondition, .some hincrement, hfirst⟩
  cases initial with
  | none =>
    obtain ⟨condition', increment', body', rfl, hothers⟩ := hloop h
    exact ⟨none, condition', increment', body', rfl, .none, hothers⟩
  | some initial =>
    obtain ⟨initial', _, rfl, hinitial, h⟩ := block_pair_respelled h
    obtain ⟨condition', increment', body', rfl, hothers⟩ := hloop h
    exact ⟨some initial', condition', increment', body', rfl, .some hinitial, hothers⟩

end Loops

section Statements

mutual

/-- There is a statement for one with other names. -/
theorem Statement.respelled (hR : Token.SpellingOnly R) {dangling tokens s rest s' rest'} :
    Statement dangling tokens s rest → s.Respelled R s' → Token.AllRespelled R rest rest' →
      ∃ tokens', Token.AllRespelled R tokens tokens' ∧ Statement dangling tokens' s' rest'
  | .expression h hsemicolon, .expression he, hrest =>
    have ⟨tokens', htokens, h'⟩ := h.respelled hR he hrest.keep
    ⟨tokens', htokens, .expression h' hsemicolon⟩
  | .print hkeyword h hsemicolon, .print he, hrest =>
    have ⟨_, htokens, h'⟩ := h.respelled hR he hrest.keep
    ⟨_, htokens.keep, .print hkeyword h' hsemicolon⟩
  | .return hkeyword h hsemicolon, .return he, hrest =>
    have ⟨_, htokens, h'⟩ := h.respelled hR he hrest.keep
    ⟨_, htokens.keep, .return hkeyword h' hsemicolon⟩
  | .block hopening h hclosing, .block hss, hrest =>
    have ⟨_, htokens, h'⟩ := h.respelled hR hss hrest.keep
    ⟨_, htokens.keep, .block hopening h' hclosing⟩
  | .if hkeyword hopening h hclosing hthen, .conditional he hthen', hrest =>
    have ⟨_, hothers, hthen''⟩ := hthen.respelled hR hthen' hrest
    have ⟨_, htokens, h'⟩ := h.respelled hR he hothers.keep
    ⟨_, htokens.keep.keep, .if hkeyword hopening h' hclosing hthen''⟩
  | .ifElse hkeyword hopening h hclosing hthen helse helseBranch, .conditionalElse he hthen' helseBranch', hrest =>
    have ⟨_, hmore, helseBranch''⟩ := helseBranch.respelled hR helseBranch' hrest
    have ⟨_, hothers, hthen''⟩ := hthen.respelled hR hthen' hmore.keep
    have ⟨_, htokens, h'⟩ := h.respelled hR he hothers.keep
    ⟨_, htokens.keep.keep, .ifElse hkeyword hopening h' hclosing hthen'' helse helseBranch''⟩
  | .while hkeyword hopening h hclosing hbody, .loop he hbody', hrest =>
    have ⟨_, hothers, hbody''⟩ := hbody.respelled hR hbody' hrest
    have ⟨_, htokens, h'⟩ := h.respelled hR he hothers.keep
    ⟨_, htokens.keep.keep, .while hkeyword hopening h' hclosing hbody''⟩
  | .for hkeyword hopening hinitial hcondition hsemicolon hincrement hclosing hbody, hs, hrest => by
    obtain ⟨_, _, _, _, rfl, hinitial', hcondition', hincrement', hbody'⟩ := forLoop_respelled hs
    obtain ⟨_, rfl, hoptional⟩ := condition_respelled hcondition'
    obtain ⟨_, hlast, hbody''⟩ := hbody.respelled hR hbody' hrest
    obtain ⟨_, hmore, hincrement''⟩ := hincrement.respelled hR hincrement' hlast.keep
    obtain ⟨_, hothers, hcondition''⟩ := hcondition.respelled hR hoptional hmore.keep
    obtain ⟨_, htokens, hinitial''⟩ := hinitial.respelled hR hinitial' hothers
    exact ⟨_, htokens.keep.keep,
      .for hkeyword hopening hinitial'' hcondition'' hsemicolon hincrement'' hclosing hbody''⟩

/-- There is a declaration for one with other names. -/
theorem Declaration.respelled (hR : Token.SpellingOnly R) {tokens s rest s' rest'} :
    Declaration tokens s rest → s.Respelled R s' → Token.AllRespelled R rest rest' →
      ∃ tokens', Token.AllRespelled R tokens tokens' ∧ Declaration tokens' s' rest'
  | .class hkeyword hname hopening h hclosing, .class hds, hrest =>
    have ⟨_, htokens, h'⟩ := h.respelled hR hds hrest.keep
    ⟨_, htokens.keep.keep.keep, .class hkeyword hname hopening h' hclosing⟩
  | .function hkeyword h, .function hd, hrest =>
    have ⟨_, htokens, h'⟩ := h.respelled hR hd hrest
    ⟨_, htokens.keep, .function hkeyword h'⟩
  | .variable hkeyword h, hs, hrest =>
    have ⟨_, htokens, h'⟩ := h.respelled hR hs hrest
    ⟨_, htokens.keep, .variable hkeyword h'⟩
  | .statement h, hs, hrest =>
    have ⟨tokens', htokens, h'⟩ := h.respelled hR hs hrest
    ⟨tokens', htokens, .statement h'⟩

/-- Respelled declarations are read from respelled tokens. -/
theorem Declarations.respelled (hR : Token.SpellingOnly R) {tokens ss rest ss' rest'} :
    Declarations tokens ss rest → Stmt.AllRespelled R ss ss' → Token.AllRespelled R rest rest' →
      ∃ tokens', Token.AllRespelled R tokens tokens' ∧ Declarations tokens' ss' rest'
  | .none, .nil, hrest => ⟨_, hrest, .none⟩
  | .more h hothers, .cons hs hss, hrest =>
    have ⟨_, hbehind, hothers'⟩ := hothers.respelled hR hss hrest
    have ⟨tokens', htokens, h'⟩ := h.respelled hR hs hbehind
    ⟨tokens', htokens, .more h' hothers'⟩

/-- A respelled function is read from respelled tokens. -/
theorem NamedFunction.respelled (hR : Token.SpellingOnly R) {tokens d rest d' rest'} :
    NamedFunction tokens d rest → d.Respelled R d' → Token.AllRespelled R rest rest' →
      ∃ tokens', Token.AllRespelled R tokens tokens' ∧ NamedFunction tokens' d' rest'
  | .mk hname hopening hparams hclosing hbrace hbody ht, .mk hparams' hbody', hrest =>
    have ⟨_, hothers, hbody''⟩ := hbody.respelled hR hbody' hrest.keep
    have ⟨_, htokens, hparams''⟩ := hparams.respelled hR hparams' hothers.keep.keep
    ⟨_, htokens.keep.keep, .mk hname hopening hparams'' hclosing hbrace hbody'' ht⟩

/-- Respelled methods are read from respelled tokens. -/
theorem Methods.respelled (hR : Token.SpellingOnly R) {tokens ds rest ds' rest'} :
    Methods tokens ds rest → FunctionDecl.AllRespelled R ds ds' → Token.AllRespelled R rest rest' →
      ∃ tokens', Token.AllRespelled R tokens tokens' ∧ Methods tokens' ds' rest'
  | .none, .nil, hrest => ⟨_, hrest, .none⟩
  | .more h hothers, .cons hd hds, hrest =>
    have ⟨_, hbehind, hothers'⟩ := hothers.respelled hR hds hrest
    have ⟨tokens', htokens, h'⟩ := h.respelled hR hd hbehind
    ⟨tokens', htokens, .more h' hothers'⟩

end

end Statements

section Programs

/-- There is a program for a tree with other names. -/
theorem Program.respelled (hR : Token.SpellingOnly R) {tokens : List Token} {tree tree' : List Stmt}
    (h : Program tokens tree) (htree : Stmt.AllRespelled R tree tree') :
    ∃ tokens', Token.AllRespelled R tokens tokens' ∧ Program tokens' tree' :=
  Declarations.respelled hR h htree .nil

/-- Parses of tokens with other names find the same errors and yield the same statements, but for spellings. -/
theorem parse_unspelled (hR : Token.SpellingOnly R) {tokens tokens' : List Token} (i : Occurrence)
    (h : Token.AllRespelled R tokens tokens') :
    (parse tokens' i).errors.map (·.respell .unspelled) = (parse tokens i).errors.map (·.respell .unspelled) ∧
      Stmt.respellAll .unspelled (parse tokens' i).statements =
        Stmt.respellAll .unspelled (parse tokens i).statements :=
  parse_respelled (hR.respelled.map_eq h) fun _ => rfl

/-- Tokens with other names are parsed without errors where the first ones are. -/
theorem parse_respelled_errors (hR : Token.SpellingOnly R) {tokens tokens' : List Token} {i : Occurrence}
    (h : Token.AllRespelled R tokens tokens') (hclean : (parse tokens i).errors = []) :
    (parse tokens' i).errors = [] := by
  have herrors := (parse_unspelled hR i h).1
  rw [hclean] at herrors
  exact List.map_eq_nil_iff.mp herrors

/-- Where a program has a tree, there are tokens with other names for the tree with these names. -/
theorem exists_parse_respelled (hR : Token.SpellingOnly R) {tokens : List Token} {last : Token} {i : Occurrence}
    {tree' : List Stmt} (htokens : ∀ t ∈ tokens, t.isEof = false) (hlast : last.isEof = true)
    (hclean : (parse (tokens ++ [last]) i).errors = [])
    (htree : Stmt.AllRespelled R (parse (tokens ++ [last]) i).statements tree') :
    ∃ tokens', Token.AllRespelled R tokens tokens' ∧ (parse (tokens' ++ [last]) i).statements = tree' := by
  have hprogram := program_of_parse hclean
  rw [start_append i htokens hlast] at hprogram
  obtain ⟨tokens', hrespelled, hprogram'⟩ := hprogram.respelled hR htree.anonymous
  have hall : Token.AllRespelled R (tokens ++ [last]) (tokens' ++ [last]) :=
    List.rel_append hrespelled (.cons (.inl rfl) .nil)
  have htokens' : ∀ t ∈ tokens', t.isEof = false := hrespelled.isEof hR htokens
  have hanonymous := (parse_of_program ((start_append i htokens' hlast).symm ▸ hprogram')).2
  -- the numbers are those of the first parse, the spellings those of the new tree
  have hunspelled := (parse_unspelled hR i hall).2
  rw [← htree.unspelled hR] at hunspelled
  exact ⟨tokens', hrespelled, Stmt.eq_of_unspelled_of_anonymous hunspelled hanonymous⟩

end Programs

end Grammar

end Lox
