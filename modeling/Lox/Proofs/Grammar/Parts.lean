import Lox.Proofs.Grammar.Rules
import Lox.Proofs.Tree.Parts

/-!
# The parts of a program

What the grammar says of the single expressions and functions in a program: operators are those for which
there is a rule, variables are names, no call and no function has more than eight arguments or parameters, and
the tokens that expressions keep are tokens of the program.
-/

set_option autoImplicit false

namespace Lox

/-- The token of an expression that is blamed where its evaluation fails. -/
def Expr.token? : Expr → Option Token
  | .literal _ => none
  | .grouping _ => none
  | .unary operator _ => some operator
  | .binary _ operator _ => some operator
  | .logical _ operator _ => some operator
  | .variable _ name => some name
  | .assign _ name _ => some name
  | .call _ paren _ => some paren
  | .get _ name => some name
  | .set _ name _ => some name
  | .this _ keyword => some keyword

/-- The infix operators that take two numbers. -/
def numericOperators : List Symbol := [.minus, .star, .slash, .greater, .greaterEqual, .less, .lessEqual]

/-- The infix operators that take any two values. -/
def equalityOperators : List Symbol := [.equalEqual, .bangEqual]

/-- An expression, apart from the expressions in it, is one that a rule of the grammar yields. -/
def Expr.IsProper : Expr → Prop
  | .unary operator _ => operator.kind = .symbol .minus ∨ operator.kind = .symbol .bang
  | .binary _ operator _ => ∃ s ∈ .plus :: (numericOperators ++ equalityOperators), operator.kind = .symbol s
  | .logical _ operator _ => operator.kind = .keyword .or ∨ operator.kind = .keyword .and
  | .variable _ name => name.isIdentifier = true
  | .assign _ name _ => name.isIdentifier = true
  | .call _ _ arguments => arguments.length ≤ 8
  | _ => True

/-- A part is one that a rule of the grammar yields, from a token with the property `p`. -/
def Part.IsProper (p : Token → Prop) : Part → Prop
  | .expression e => e.IsProper ∧ ∀ t ∈ e.token?, p t
  | .function d => d.params.length ≤ 8

/-- Other numbers do not change whether a part is proper. -/
theorem Part.isProper_anonymous {p : Token → Prop} (part : Part) :
    (part.relabel .anonymous).IsProper p ↔ part.IsProper p := by
  cases part with
  | expression e =>
    cases e with
    | call callee paren arguments =>
      have hlength := Expr.relabelAll_length (R := .anonymous) arguments
      show (_ ≤ 8 ∧ _) ↔ _
      rw [hlength]
      rfl
    | _ => rfl
  | function d =>
    show (d.relabel .anonymous).params.length ≤ 8 ↔ _
    rw [FunctionDecl.relabel_params, List.length_map]
    rfl

namespace Grammar

/-- Every token has a property. -/
def TokensAre (p : Token → Prop) (tokens : List Token) : Prop := ∀ t ∈ tokens, p t

/-- The tokens behind the first one have the property. -/
theorem TokensAre.tail {p : Token → Prop} {t : Token} {tokens : List Token} (h : TokensAre p (t :: tokens)) :
    TokensAre p tokens := (List.forall_mem_cons.mp h).2

/-- The first token has the property. -/
theorem TokensAre.head {p : Token → Prop} {t : Token} {tokens : List Token} (h : TokensAre p (t :: tokens)) :
    p t := (List.forall_mem_cons.mp h).1

/-- What the grammar says of parts, rule by rule: a property `Q` of the parts that the rules yield from tokens with
the property `p`. The constant `true` also comes from a loop without a condition. -/
structure PartRules (p : Token → Prop) (Q : Part → Prop) : Prop where
  constant {t : Token} {value : Literal} : p t → constant? t = some value → Q (.expression (.literal value))
  always : Q (.expression (.literal .true))
  grouping {inner : Expr} : Q (.expression (.grouping inner))
  unary {operator : Token} {right : Expr} : p operator → isUnaryOperator operator = true →
    Q (.expression (.unary operator right))
  operation (l : Level) {left : Expr} {operator : Token} {right : Expr} : p operator →
    l.isOperator operator = true → Q (.expression (l.build left operator right))
  name {t : Token} : p t → t.isIdentifier = true → Q (.expression (.variable 0 t))
  this {t : Token} : p t → t.isKeyword .this = true → Q (.expression (.this 0 t))
  assign {name : Token} {value : Expr} : p name → name.isIdentifier = true →
    Q (.expression (.assign 0 name value))
  property {object : Expr} {name : Token} : p name → name.isIdentifier = true → Q (.expression (.get object name))
  set {object : Expr} {name : Token} {value : Expr} : p name → name.isIdentifier = true →
    Q (.expression (.set object name value))
  call {callee : Expr} {paren : Token} {arguments : List Expr} : p paren → arguments.length ≤ 8 →
    Q (.expression (.call callee paren arguments))
  function {name : Token} {params : List Token} {body : List Stmt} : params.length ≤ 8 →
    Q (.function ⟨name, params, body⟩)

/-- Every part has a property. -/
abbrev PartsAre (Q : Part → Prop) (parts : List Part) : Prop := ∀ part ∈ parts, Q part

/-- There are no parts to ask anything of. -/
theorem partsAre_nil {Q : Part → Prop} : PartsAre Q [] := fun _ h => nomatch h

/-- The parts of an infix expression are itself and those of its operands. -/
theorem Level.parts_build (l : Level) (left : Expr) (operator : Token) (right : Expr) :
    (l.build left operator right).parts =
      .expression (l.build left operator right) :: (left.parts ++ right.parts) := by
  cases l <;> rfl

section Yielded

variable {p : Token → Prop} {Q : Part → Prop}

mutual

/-- The parts of a phrase have the property if its tokens do. -/
theorem Phrase.parts_are {r tokens e rest} (rules : PartRules p Q) :
    Phrase r tokens e rest → TokensAre p tokens → TokensAre p rest ∧ PartsAre Q e.parts
  | .disjunction h, hp => h.parts_are rules hp
  | .assign hname _ hvalue, hp =>
    have ⟨hrest, hparts⟩ := hvalue.parts_are rules hp.tail.tail
    ⟨hrest, List.forall_mem_cons.mpr ⟨rules.assign hp.head hname, hparts⟩⟩
  | .set hobject _ hname _ hvalue, hp =>
    have ⟨hbehind, hparts⟩ := hobject.parts_are rules hp
    have ⟨hrest, hparts'⟩ := hvalue.parts_are rules hbehind.tail.tail.tail
    ⟨hrest, List.forall_mem_cons.mpr
      ⟨rules.set hbehind.tail.head hname, List.forall_mem_append.mpr ⟨hparts, hparts'⟩⟩⟩
  | .operand h, hp => h.parts_are rules hp
  | @Phrase.operation l _ left operator _ right _ hleft hoperator hright, hp => by
    obtain ⟨hbehind, hparts⟩ := hleft.parts_are rules hp
    obtain ⟨hrest, hparts'⟩ := hright.parts_are rules hbehind.tail
    rw [l.parts_build]
    exact ⟨hrest, List.forall_mem_cons.mpr
      ⟨rules.operation l hbehind.head hoperator, List.forall_mem_append.mpr ⟨hparts, hparts'⟩⟩⟩
  | .unary hoperator h, hp =>
    have ⟨hrest, hparts⟩ := h.parts_are rules hp.tail
    ⟨hrest, List.forall_mem_cons.mpr ⟨rules.unary hp.head hoperator, hparts⟩⟩
  | .called h, hp => h.parts_are rules hp
  | .callEmpty h _ _, hp =>
    have ⟨hbehind, hparts⟩ := h.parts_are rules hp
    ⟨hbehind.tail.tail, List.forall_mem_cons.mpr
      ⟨rules.call hbehind.tail.head (Nat.zero_le 8), List.forall_mem_append.mpr ⟨hparts, partsAre_nil⟩⟩⟩
  | .call h _ harguments hcount _, hp =>
    have ⟨hbehind, hparts⟩ := h.parts_are rules hp
    have ⟨hrest, hparts'⟩ := harguments.parts_are rules hbehind.tail
    ⟨hrest.tail, List.forall_mem_cons.mpr
      ⟨rules.call hrest.head hcount, List.forall_mem_append.mpr ⟨hparts, hparts'⟩⟩⟩
  | .property h _ hname, hp =>
    have ⟨hbehind, hparts⟩ := h.parts_are rules hp
    ⟨hbehind.tail.tail, List.forall_mem_cons.mpr ⟨rules.property hbehind.tail.head hname, hparts⟩⟩
  | .primary h, hp => h.parts_are rules hp
  | .constant hvalue, hp => ⟨hp.tail, List.forall_mem_singleton.mpr (rules.constant hp.head hvalue)⟩
  | .this hthis, hp => ⟨hp.tail, List.forall_mem_singleton.mpr (rules.this hp.head hthis)⟩
  | .name hname, hp => ⟨hp.tail, List.forall_mem_singleton.mpr (rules.name hp.head hname)⟩
  | .grouping _ h _, hp =>
    have ⟨hbehind, hparts⟩ := h.parts_are rules hp.tail
    ⟨hbehind.tail, List.forall_mem_cons.mpr ⟨rules.grouping, hparts⟩⟩

/-- The parts of arguments have the property if their tokens do. -/
theorem Arguments.parts_are {tokens es rest} (rules : PartRules p Q) :
    Arguments tokens es rest → TokensAre p tokens → TokensAre p rest ∧ PartsAre Q (Expr.partsAll es)
  | .last h, hp =>
    have ⟨hrest, hparts⟩ := h.parts_are rules hp
    ⟨hrest, List.forall_mem_append.mpr ⟨hparts, partsAre_nil⟩⟩
  | .more h _ harguments, hp =>
    have ⟨hbehind, hparts⟩ := h.parts_are rules hp
    have ⟨hrest, hparts'⟩ := harguments.parts_are rules hbehind.tail
    ⟨hrest, List.forall_mem_append.mpr ⟨hparts, hparts'⟩⟩

end

/-- The parts of an optional expression have the property if its tokens do. -/
theorem OptionalExpression.parts_are {tokens e rest} (rules : PartRules p Q) (h : OptionalExpression tokens e rest)
    (hp : TokensAre p tokens) : TokensAre p rest ∧ PartsAre Q (Expr.partsOption e) := by
  cases h with
  | none => exact ⟨hp, partsAre_nil⟩
  | some h => exact h.parts_are rules hp

/-- The tokens behind parameters have the property if all tokens do. -/
theorem Parameters.tokens_are {tokens params rest} (h : Parameters tokens params rest) (hp : TokensAre p tokens) :
    TokensAre p rest := by
  induction h with
  | last _ => exact hp.tail
  | more _ _ _ ih => exact ih hp.tail.tail

/-- There are at most eight parameters. -/
theorem OptionalParameters.tokens_are {tokens params rest} (h : OptionalParameters tokens params rest)
    (hp : TokensAre p tokens) : TokensAre p rest ∧ params.length ≤ 8 := by
  cases h with
  | none => exact ⟨hp, Nat.zero_le 8⟩
  | some h hcount => exact ⟨h.tokens_are hp, hcount⟩

/-- The parts in the declaration of a variable have the property if its tokens do. -/
theorem Variable.parts_are {tokens s rest} (rules : PartRules p Q) (h : Variable tokens s rest)
    (hp : TokensAre p tokens) : TokensAre p rest ∧ PartsAre Q s.parts := by
  cases h with
  | plain _ _ => exact ⟨hp.tail.tail, partsAre_nil⟩
  | initialized _ _ h _ =>
    obtain ⟨hrest, hparts⟩ := h.parts_are rules hp.tail.tail
    exact ⟨hrest.tail, hparts⟩

/-- The parts in the first clause of a `for` loop have the property if its tokens do. -/
theorem InitialClause.parts_are {tokens s? rest} (rules : PartRules p Q) (h : InitialClause tokens s? rest)
    (hp : TokensAre p tokens) : TokensAre p rest ∧ ∀ s ∈ s?, PartsAre Q s.parts := by
  cases h with
  | none _ => exact ⟨hp.tail, nofun⟩
  | «variable» _ h =>
    obtain ⟨hrest, hparts⟩ := h.parts_are rules hp.tail
    exact ⟨hrest, by rintro _ ⟨⟩; exact hparts⟩
  | expression h _ =>
    obtain ⟨hrest, hparts⟩ := h.parts_are rules hp
    exact ⟨hrest.tail, by rintro _ ⟨⟩; exact hparts⟩

/-- The parts of a for loop are those of its clauses and its body. -/
theorem forLoop_parts {initial : Option Stmt} {condition increment : Option Expr} {body : Stmt}
    (rules : PartRules p Q) (hinitial : ∀ s ∈ initial, PartsAre Q s.parts)
    (hcondition : PartsAre Q (Expr.partsOption condition))
    (hincrement : PartsAre Q (Expr.partsOption increment)) (hbody : PartsAre Q body.parts) :
    PartsAre Q (forLoop initial (condition.getD (.literal .true)) increment body).parts := by
  have hcondition' : PartsAre Q (condition.getD (.literal .true)).parts := by
    cases condition with
    | none => exact List.forall_mem_singleton.mpr rules.always
    | some e => exact hcondition
  have hloop : PartsAre Q (forLoop none (condition.getD (.literal .true)) increment body).parts := by
    refine List.forall_mem_append.mpr ⟨hcondition', ?_⟩
    cases increment with
    | none => exact hbody
    | some e => exact List.forall_mem_append.mpr ⟨hbody, List.forall_mem_append.mpr ⟨hincrement, partsAre_nil⟩⟩
  cases initial with
  | none => exact hloop
  | some s => exact List.forall_mem_append.mpr ⟨hinitial s rfl, List.forall_mem_append.mpr ⟨hloop, partsAre_nil⟩⟩

mutual

/-- The parts of a statement have the property if its tokens do. -/
theorem Statement.parts_are {dangling tokens s rest} (rules : PartRules p Q) :
    Statement dangling tokens s rest → TokensAre p tokens → TokensAre p rest ∧ PartsAre Q s.parts
  | .expression h _, hp =>
    have ⟨hrest, hparts⟩ := h.parts_are rules hp
    ⟨hrest.tail, hparts⟩
  | .print _ h _, hp =>
    have ⟨hrest, hparts⟩ := h.parts_are rules hp.tail
    ⟨hrest.tail, hparts⟩
  | .return _ h _, hp =>
    have ⟨hrest, hparts⟩ := h.parts_are rules hp.tail
    ⟨hrest.tail, hparts⟩
  | .block _ h _, hp =>
    have ⟨hrest, hparts⟩ := h.parts_are rules hp.tail
    ⟨hrest.tail, hparts⟩
  | .if _ _ hcondition _ hthen, hp =>
    have ⟨hbehind, hparts⟩ := hcondition.parts_are rules hp.tail.tail
    have ⟨hrest, hparts'⟩ := hthen.parts_are rules hbehind.tail
    ⟨hrest, List.forall_mem_append.mpr ⟨hparts, hparts'⟩⟩
  | .ifElse _ _ hcondition _ hthen _ helse, hp =>
    have ⟨hbehind, hparts⟩ := hcondition.parts_are rules hp.tail.tail
    have ⟨hbehind', hparts'⟩ := hthen.parts_are rules hbehind.tail
    have ⟨hrest, hparts''⟩ := helse.parts_are rules hbehind'.tail
    ⟨hrest, List.forall_mem_append.mpr ⟨List.forall_mem_append.mpr ⟨hparts, hparts'⟩, hparts''⟩⟩
  | .while _ _ hcondition _ hbody, hp =>
    have ⟨hbehind, hparts⟩ := hcondition.parts_are rules hp.tail.tail
    have ⟨hrest, hparts'⟩ := hbody.parts_are rules hbehind.tail
    ⟨hrest, List.forall_mem_append.mpr ⟨hparts, hparts'⟩⟩
  | .for _ _ hinitial hcondition _ hincrement _ hbody, hp =>
    have ⟨hbehind, hparts⟩ := hinitial.parts_are rules hp.tail.tail
    have ⟨hbehind', hparts'⟩ := hcondition.parts_are rules hbehind
    have ⟨hbehind'', hparts''⟩ := hincrement.parts_are rules hbehind'.tail
    have ⟨hrest, hparts'''⟩ := hbody.parts_are rules hbehind''.tail
    ⟨hrest, forLoop_parts rules hparts hparts' hparts'' hparts'''⟩

/-- The parts of a declaration have the property if its tokens do. -/
theorem Declaration.parts_are {tokens s rest} (rules : PartRules p Q) :
    Declaration tokens s rest → TokensAre p tokens → TokensAre p rest ∧ PartsAre Q s.parts
  | .class _ _ _ h _, hp =>
    have ⟨hrest, hparts⟩ := h.parts_are rules hp.tail.tail.tail
    ⟨hrest.tail, hparts⟩
  | .function _ h, hp => h.parts_are rules hp.tail
  | .variable _ h, hp => h.parts_are rules hp.tail
  | .statement h, hp => h.parts_are rules hp

/-- The parts of declarations have the property if their tokens do. -/
theorem Declarations.parts_are {tokens ss rest} (rules : PartRules p Q) :
    Declarations tokens ss rest → TokensAre p tokens → TokensAre p rest ∧ PartsAre Q (Stmt.partsAll ss)
  | .none, hp => ⟨hp, partsAre_nil⟩
  | .more h hs, hp =>
    have ⟨hbehind, hparts⟩ := h.parts_are rules hp
    have ⟨hrest, hparts'⟩ := hs.parts_are rules hbehind
    ⟨hrest, List.forall_mem_append.mpr ⟨hparts, hparts'⟩⟩

/-- The parts of a function have the property if its tokens do. -/
theorem NamedFunction.parts_are {tokens d rest} (rules : PartRules p Q) :
    NamedFunction tokens d rest → TokensAre p tokens → TokensAre p rest ∧ PartsAre Q d.parts
  | .mk _ _ hparams _ _ hbody _, hp =>
    have ⟨hbehind, hcount⟩ := hparams.tokens_are hp.tail.tail
    have ⟨hrest, hparts⟩ := hbody.parts_are rules hbehind.tail.tail
    ⟨hrest.tail, List.forall_mem_cons.mpr ⟨rules.function hcount, hparts⟩⟩

/-- The parts of methods have the property if their tokens do. -/
theorem Methods.parts_are {tokens ds rest} (rules : PartRules p Q) :
    Methods tokens ds rest → TokensAre p tokens → TokensAre p rest ∧ PartsAre Q (FunctionDecl.partsAll ds)
  | .none, hp => ⟨hp, partsAre_nil⟩
  | .more h hs, hp =>
    have ⟨hbehind, hparts⟩ := h.parts_are rules hp
    have ⟨hrest, hparts'⟩ := hs.parts_are rules hbehind
    ⟨hrest, List.forall_mem_append.mpr ⟨hparts, hparts'⟩⟩

end

end Yielded

section Proper

variable {p : Token → Prop}

/-- A prefix operator of the grammar makes a proper expression. -/
theorem isProper_unary {operator : Token} (h : isUnaryOperator operator = true) (right : Expr) :
    (Expr.unary operator right).IsProper := by
  rcases Bool.or_eq_true_iff.mp h with h | h
  · exact .inr (Token.isSymbol_iff.mp h)
  · exact .inl (Token.isSymbol_iff.mp h)

/-- The operator of a level is that of the operations which it builds. -/
theorem Level.build_proper (l : Level) {operator : Token} (h : l.isOperator operator = true) (left right : Expr) :
    (l.build left operator right).IsProper ∧ (l.build left operator right).token? = some operator := by
  have hbinary {s : Symbol} (hs : s ∈ .plus :: (numericOperators ++ equalityOperators))
      (hoperator : operator.isSymbol s = true) : (Expr.binary left operator right).IsProper :=
    ⟨s, hs, Token.isSymbol_iff.mp hoperator⟩
  cases l with
  | disjunction => exact ⟨.inl (Token.isKeyword_iff.mp h), rfl⟩
  | conjunction => exact ⟨.inr (Token.isKeyword_iff.mp h), rfl⟩
  | equality =>
    refine ⟨?_, rfl⟩
    rcases Bool.or_eq_true_iff.mp h with h | h
    · exact hbinary (by decide) h
    · exact hbinary (by decide) h
  | comparison =>
    refine ⟨?_, rfl⟩
    rcases Bool.or_eq_true_iff.mp h with h | h
    · rcases Bool.or_eq_true_iff.mp h with h | h
      · rcases Bool.or_eq_true_iff.mp h with h | h
        · exact hbinary (by decide) h
        · exact hbinary (by decide) h
      · exact hbinary (by decide) h
    · exact hbinary (by decide) h
  | term =>
    refine ⟨?_, rfl⟩
    rcases Bool.or_eq_true_iff.mp h with h | h
    · exact hbinary (by decide) h
    · exact hbinary (by decide) h
  | factor =>
    refine ⟨?_, rfl⟩
    rcases Bool.or_eq_true_iff.mp h with h | h
    · exact hbinary (by decide) h
    · exact hbinary (by decide) h

/-- What the rules yield is proper. -/
theorem partRules_isProper (p : Token → Prop) : PartRules p (Part.IsProper p) where
  constant _ _ := ⟨trivial, nofun⟩
  always := ⟨trivial, nofun⟩
  grouping := ⟨trivial, nofun⟩
  unary ht hoperator := ⟨isProper_unary hoperator _, by rintro _ ⟨⟩; exact ht⟩
  operation l _ _ _ ht hoperator := by
    obtain ⟨hproper, htoken⟩ := l.build_proper hoperator _ _
    refine ⟨hproper, fun t' ht' => ?_⟩
    rw [htoken] at ht'
    cases ht'
    exact ht
  name ht hname := ⟨hname, by rintro _ ⟨⟩; exact ht⟩
  this ht _ := ⟨trivial, by rintro _ ⟨⟩; exact ht⟩
  assign ht hname := ⟨hname, by rintro _ ⟨⟩; exact ht⟩
  property ht _ := ⟨trivial, by rintro _ ⟨⟩; exact ht⟩
  set ht _ := ⟨trivial, by rintro _ ⟨⟩; exact ht⟩
  call ht hcount := ⟨hcount, by rintro _ ⟨⟩; exact ht⟩
  function hcount := hcount

end Proper

end Grammar

end Lox
