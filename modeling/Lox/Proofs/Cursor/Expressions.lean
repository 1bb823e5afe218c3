import Mathlib
import Lox.Proofs.Cursor.Agreement
import Lox.Proofs.Grammar.ExpressionFollows

/-!
# Expressions at a position

The rules for expressions agree with those that run, where the bounds of these and the fuel are larger than the
number of tokens left. Each rule reads a token before it comes back to itself, so neither is used up.
-/

set_option autoImplicit false

namespace Lox.Cursor

open Renumberable (renumber bearers)

variable {input : Input} {f : Occurrence → Occurrence} {c₀ : Cursor} {n : Nat}

/-- No state has fewer than no tokens left, so any rules agree there. -/
theorem agrees_zero {α : Type} [Renumberable α] {k : Nat} {base : Multiset (Occurrence × Token)} (p : Parser α)
    (q : Reading α) : Agrees input f c₀ 0 k base p q :=
  fun _ _ _ hlength => absurd hlength (Nat.not_lt_zero _)

section Chains

/-- Infix operators build an expression from its parts, and add no numbers to these. -/
structure Joins (f : Occurrence → Occurrence) (build : Expr → Token → Expr → Expr) : Prop where
  renumber : ∀ left operator right, (build left operator right).relabel (.renumbering f) =
    build (left.relabel (.renumbering f)) operator (right.relabel (.renumbering f))
  bearers : ∀ left operator right, (build left operator right).bearers = left.bearers + right.bearers

/-- Binary operators join their operands. -/
theorem joins_binary : Joins f .binary := ⟨fun _ _ _ => rfl, fun _ _ _ => rfl⟩

/-- Logical operators join their operands. -/
theorem joins_logical : Joins f .logical := ⟨fun _ _ _ => rfl, fun _ _ _ => rfl⟩

variable {isOperator : Token → Bool} {build : Expr → Token → Expr → Expr} (hbuild : Joins f build)
  {operand : Parser Expr} {operand' : Reading Expr} (hoperand : Agrees input f c₀ n 1 0 operand operand')
include hbuild hoperand

/-- The loop over infix operators behind a left operand agrees, whatever this operand is. -/
theorem chainFrom_agrees {m : Nat} (hm : m ≤ n) {bound fuel : Nat} (hbound : m ≤ bound) (hfuel : m ≤ fuel)
    (left : Expr) : Agrees input f c₀ m 0 (bearers (renumber f left))
      (Grammar.chainFrom isOperator build operand bound left)
      (Reading.chainFrom isOperator build operand' fuel (renumber f left)) := by
  induction m generalizing bound fuel left with
  | zero => exact agrees_zero _ _
  | succ m ih =>
    obtain ⟨bound, rfl⟩ := Nat.exists_eq_add_of_le' (show 1 ≤ bound by omega)
    obtain ⟨fuel, rfl⟩ := Nat.exists_eq_add_of_le' (show 1 ≤ fuel by omega)
    refine .accept? (.pure rfl rfl) fun operator => ?_
    refine (hoperand.fewer (by omega)).bind fun right => ?_
    have hrest := (ih (by omega) (show m ≤ bound by omega) (show m ≤ fuel by omega)
      (build left operator right)).fewer (show m + 1 - 1 - 1 ≤ m by omega)
    have hjoined : renumber f (build left operator right) =
        build (renumber f left) operator (renumber f right) := hbuild.renumber left operator right
    have hbears : bearers (build (renumber f left) operator (renumber f right)) =
        bearers (renumber f left) + bearers (renumber f right) := hbuild.bearers _ _ _
    rw [hjoined, hbears] at hrest
    exact hrest

/-- A level of infix operators agrees if its operands do. -/
theorem chain_agrees {bound fuel : Nat} (hbound : n ≤ bound + 1) (hfuel : n ≤ fuel + 1) :
    Agrees input f c₀ n 1 0 (Grammar.chain bound isOperator build operand)
      (Reading.chain fuel isOperator build operand') := by
  refine hoperand.bind fun left => ?_
  rw [zero_add]
  exact chainFrom_agrees hbuild hoperand (by omega) (by omega) (by omega) left

end Chains

section Operands

variable {c : Cursor} {s : ParserState} {t : Token} {rest : List Token}

/-- A number that is given out is noted with its token. -/
theorem noted_numbered (c : Cursor) (t : Token) : (c.numbered t).noted = {(c.nextId, t)} + c.noted := by
  rw [add_comm, noted, noted, numbered, List.map_append, ← Multiset.coe_add]
  rfl

/-- An expression bears one number, with the token that it is built from. -/
structure BearsOne (f : Occurrence → Occurrence) (build : Occurrence → Token → Expr) : Prop where
  renumber : ∀ id t, (build id t).relabel (.renumbering f) = build (f id) t
  bearers : ∀ id t, (build id t).bearers = {(id, t)}

/-- The use of a variable bears one number. -/
theorem bearsOne_variable : BearsOne f .variable := ⟨fun _ _ => rfl, fun _ _ => rfl⟩

/-- A use of `this` bears one number. -/
theorem bearsOne_this : BearsOne f .this := ⟨fun _ _ => rfl, fun _ _ => rfl⟩

/-- The token that was just read gets the same number, as `f` sees it. -/
theorem operand_agreesAt (hshows : Shows input f c₀ c s) (hs : s.rest = t :: rest)
    (hname : t.isIdentifier = true ∨ t.isKeyword .this = true) {build : Occurrence → Token → Expr}
    (hbuild : BearsOne f build) : AgreesAt input f c₀ 0 0 (do return build (← Parser.fresh) t)
      (Reading.operand build) { s with rest } c.step := by
  have hid : c.nextId = f s.nextId := hshows.numbers 0
  have hresult : renumber f (build s.nextId t) = build c.nextId t := hid ▸ hbuild.renumber s.nextId t
  have hstep := hshows.step hs
  refine ⟨c.step.numbered t, ?_, ?_, ⟨Nat.le_refl _, List.prefix_refl _⟩, fun _ => ?_⟩
  · rw [hshows.operand_eq hs, hresult]
  · refine ⟨hshows.since.numbered (hshows.next_cons hs) hname, hstep.tokens, hstep.within, hstep.rest,
      hstep.last, hstep.errors, fun k => ?_⟩
    have hnumber := hshows.numbers (1 + k)
    rwa [← Nat.add_assoc, ← Nat.add_assoc] at hnumber
  · rw [hresult, noted_numbered, zero_add]
    exact congrArg (· + c.noted) (hbuild.bearers c.nextId t)

end Operands

section Nested

variable {nested : Parser Expr} {nested' : Reading Expr} (hnested : Agrees input f c₀ n 1 0 nested nested')
include hnested

/-- The loop over arguments agrees if expressions do. -/
theorem arguments_agrees {m : Nat} (hm : m ≤ n) {bound fuel : Nat} (hbound : m ≤ bound) (hfuel : m ≤ fuel)
    (count : Nat) : Agrees input f c₀ m 1 0 (Grammar.arguments nested bound count)
      (Reading.arguments nested' fuel count) := by
  induction m generalizing bound fuel count with
  | zero => exact agrees_zero _ _
  | succ m ih =>
    obtain ⟨bound, rfl⟩ := Nat.exists_eq_add_of_le' (show 1 ≤ bound by omega)
    obtain ⟨fuel, rfl⟩ := Nat.exists_eq_add_of_le' (show 1 ≤ fuel by omega)
    refine Agrees.reportIf ((hnested.fewer hm).bind fun argument => .accepts (.pure rfl ?_) ?_)
    · rw [zero_add]
      exact add_zero _
    · have hmore := (ih (by omega) (show m ≤ bound by omega) (show m ≤ fuel by omega) (count + 1)).fewer
        (show m + 1 - 1 - 1 ≤ m by omega)
      refine Agrees.weaken (hmore.bind fun others => .pure rfl ?_) (Nat.zero_le 1)
      rw [zero_add]
      rfl

/-- A primary expression reads a token before it comes to the expression in it. -/
theorem primary_agrees :
    Agrees input f c₀ (n + 1) 1 0 (Grammar.primary nested) (Reading.primary nested') := by
  intro s c hshows hlength
  have hfail : AgreesAt input f c₀ 1 0 (Parser.fail .noExpression : Parser Expr) (Reading.fail .noExpression) s c :=
    .fail hshows _
  refine .peek ?_
  cases hs : s.rest with
  | nil =>
    rw [List.headD_nil, hshows.last_kind]
    refine hfail.of_eq rfl ?_
    simp [Reading.primary, Reading.named, hshows.accepts_bind, Reading.bind_ok hshows.peek_eq, hs,
      hshows.last_kind]
  | cons t rest =>
    have hpeek : Reading.peek c = .ok t c := by rw [hshows.peek_eq, hs]; rfl
    rw [List.headD_cons]
    -- the kind of the token decides what both rules do
    split
    next hkind =>
      refine .advance hshows hs hlength (.pure (b := Expr.literal .false) rfl rfl) ?_
      simp [Reading.primary, hshows.accepts_bind, hs, hkind, Token.isKeyword]
    next hkind =>
      refine .advance hshows hs hlength (.pure (b := Expr.literal .true) rfl rfl) ?_
      simp [Reading.primary, hshows.accepts_bind, hs, hkind, Token.isKeyword]
    next hkind =>
      refine .advance hshows hs hlength (.pure (b := Expr.literal .nil) rfl rfl) ?_
      simp [Reading.primary, hshows.accepts_bind, hs, hkind, Token.isKeyword]
    next value hkind =>
      refine .advance hshows hs hlength (.pure (b := Expr.literal (.number value)) rfl rfl) ?_
      have hq : Reading.primary nested' c = (do let _ ← Reading.advance; return Expr.literal (.number value)) c := by
        simp [Reading.primary, hshows.accepts_bind, Reading.bind_ok hpeek, hs, hkind, Token.isKeyword]
      exact hq.trans (Reading.bind_ok (hshows.advance_eq hs))
    next text hkind =>
      refine .advance hshows hs hlength (.pure (b := Expr.literal (.string text)) rfl rfl) ?_
      have hq : Reading.primary nested' c = (do let _ ← Reading.advance; return Expr.literal (.string text)) c := by
        simp [Reading.primary, hshows.accepts_bind, Reading.bind_ok hpeek, hs, hkind, Token.isKeyword]
      exact hq.trans (Reading.bind_ok (hshows.advance_eq hs))
    next hkind =>
      have hthis : t.isIdentifier = true ∨ t.isKeyword .this = true := .inr (Token.isKeyword_iff.mpr hkind)
      refine .step (Parser.advance_bind hs) ?_ (operand_agreesAt hshows hs hthis bearsOne_this)
      simp [Reading.primary, Reading.named, hshows.accepts_bind, Reading.bind_ok hpeek, hs, hkind, Token.isKeyword]
    next hkind =>
      have hname : t.isIdentifier = true ∨ t.isKeyword .this = true := .inl (Token.isIdentifier_iff.mpr hkind)
      refine .step (Parser.advance_bind hs) ?_ (operand_agreesAt hshows hs hname bearsOne_variable)
      simp [Reading.primary, Reading.named, hshows.accepts_bind, Reading.bind_ok hpeek, hs, hkind, Token.isKeyword,
        Token.isIdentifier]
    next hkind =>
      have hinner : Agrees input f c₀ n 1 0
          (do
            let inner ← nested
            let _ ← Parser.expect (·.isSymbol .rightParen) .noGroupingEnd
            return Expr.grouping inner)
          (do
            let inner ← nested'
            let _ ← Reading.expect (·.isSymbol .rightParen) .noGroupingEnd
            return Expr.grouping inner) :=
        hnested.bind fun inner => (Agrees.expect _ _).bind fun _ => .pure rfl (by simp)
      refine .advance hshows hs hlength hinner ?_
      simp [Reading.primary, Reading.named, hshows.accepts_bind, Reading.bind_ok hpeek, hs, hkind,
        Token.isKeyword, Token.isIdentifier, Token.isSymbol]
    next hfalse htrue hnil hnumber hstring hthis hname hparen =>
      refine hfail.of_eq rfl ?_
      have hnamed : Reading.named nested' c = Reading.fail .noExpression c := by
        simp [Reading.named, hshows.accepts_bind, hs, Token.not_isKeyword hthis, Token.not_isIdentifier hname,
          Token.not_isSymbol hparen]
      rw [← hnamed]
      simp [Reading.primary, hshows.accepts_bind, hs, Reading.bind_ok hpeek, Token.not_isKeyword hfalse,
        Token.not_isKeyword htrue, Token.not_isKeyword hnil]

/-- The loop over calls and properties behind a callee agrees, whatever the callee is. -/
theorem callFrom_agrees {m : Nat} (hm : m ≤ n) {bound fuel : Nat} (hbound : m ≤ bound) (hfuel : m ≤ fuel)
    (callee : Expr) : Agrees input f c₀ m 0 (bearers (renumber f callee))
      (Grammar.callFrom nested bound callee) (Reading.callFrom nested' fuel (renumber f callee)) := by
  induction m generalizing bound fuel callee with
  | zero => exact agrees_zero _ _
  | succ m ih =>
    obtain ⟨bound, rfl⟩ := Nat.exists_eq_add_of_le' (show 1 ≤ bound by omega)
    obtain ⟨fuel, rfl⟩ := Nat.exists_eq_add_of_le' (show 1 ≤ fuel by omega)
    have hmore {l : Nat} (hl : l ≤ m) (e : Expr) := (ih (by omega) (show m ≤ bound by omega)
      (show m ≤ fuel by omega) e).fewer hl
    have hclose {args : Parser (List Expr)} {args' : Reading (List Expr)} {k : Nat}
        (hargs : Agrees input f c₀ m k 0 args args') : Agrees input f c₀ m 0 (bearers (renumber f callee))
          (do
            let args ← args
            let paren ← Parser.expect (·.isSymbol .rightParen) .noArgumentsEnd
            Grammar.callFrom nested bound (.call callee paren args))
          (do
            let args ← args'
            let paren ← Reading.expect (·.isSymbol .rightParen) .noArgumentsEnd
            Reading.callFrom nested' fuel (.call (renumber f callee) paren args)) := by
      refine hargs.bind fun es => (Agrees.expect _ _).bind fun paren => ?_
      have hcall := hmore (show m - k - 1 ≤ m by omega) (.call callee paren es)
      have hbears : bearers (renumber f (Expr.call callee paren es)) =
          bearers (renumber f callee) + bearers (renumber f es) + bearers (renumber f paren) :=
        (add_zero _).symm
      rw [hbears] at hcall
      exact hcall.weaken (by omega)
    refine .accepts (.accepts (.pure rfl rfl) ?_) ?_
    · refine (Agrees.expect _ _).bind fun name => ?_
      have hget := hmore (show m + 1 - 1 - 1 ≤ m by omega) (.get callee name)
      have hbears : bearers (renumber f (Expr.get callee name)) =
          bearers (renumber f callee) + bearers (renumber f name) := (add_zero _).symm
      rw [hbears] at hget
      exact hget
    · refine .sees fun isEmpty => ?_
      cases isEmpty with
      | true => exact hclose (Agrees.pure rfl rfl)
      | false => exact hclose (arguments_agrees hnested (by omega) (by omega) (by omega) 0)

/-- A call, with all that follows its callee, agrees if expressions do. -/
theorem call_agrees {bound fuel : Nat} (hbound : n ≤ bound) (hfuel : n ≤ fuel) :
    Agrees input f c₀ (n + 1) 1 0 (Grammar.call bound nested) (Reading.call fuel nested') := by
  refine (primary_agrees hnested).bind fun callee => ?_
  rw [zero_add]
  exact callFrom_agrees hnested (Nat.le_refl n) hbound hfuel callee

end Nested

/-- Prefix operators in front of an operand; where no bound is left, no token is. -/
theorem unary_agrees {operand : Parser Expr} {operand' : Reading Expr}
    (hoperand : Agrees input f c₀ n 1 0 operand operand') {m : Nat} (hm : m ≤ n) {bound fuel : Nat}
    (hbound : m ≤ bound + 1) (hfuel : m ≤ fuel) :
    Agrees input f c₀ m 1 0 (Grammar.unary operand bound) (Reading.unary operand' fuel) := by
  induction m generalizing bound fuel with
  | zero => exact agrees_zero _ _
  | succ m ih =>
    obtain ⟨fuel, rfl⟩ := Nat.exists_eq_add_of_le' (show 1 ≤ fuel by omega)
    have hstep : Agrees input f c₀ (m + 1) 1 0 (Grammar.unary operand (bound - 1 + 1))
        (Reading.unary operand' (fuel + 1)) := by
      refine .accept? (hoperand.fewer hm) fun operator => ?_
      refine Agrees.weaken ((ih (by omega) (show m ≤ bound - 1 + 1 by omega) (show m ≤ fuel by omega)).bind
        fun e => .pure rfl ?_) (Nat.zero_le 1)
      exact (zero_add _).symm
    intro s c hshows hlength
    refine (hstep s c hshows hlength).of_eq ?_ rfl
    cases bound with
    | zero =>
      have hs : s.rest = [] := List.length_eq_zero_iff.mp (by omega)
      rw [Grammar.unary_end 0 hs, Grammar.unary_end _ hs]
    | succ bound => rfl

section Nested

variable {nested : Parser Expr} {nested' : Reading Expr} (hnested : Agrees input f c₀ n 1 0 nested nested')
  {bound fuel : Nat} (hbound : n ≤ bound) (hfuel : n < fuel)
include hnested hbound hfuel

/-- All levels of infix operators agree. -/
theorem disjunction_agrees :
    Agrees input f c₀ (n + 1) 1 0 (Grammar.disjunction bound nested) (Reading.disjunction fuel nested') := by
  have hle : n + 1 ≤ bound + 1 := Nat.succ_le_succ hbound
  have hle' : n + 1 ≤ fuel + 1 := by omega
  have hcall : Agrees input f c₀ (n + 1) 1 0 (Grammar.call bound nested) (Reading.call fuel nested') :=
    call_agrees hnested hbound (by omega)
  have hunary := unary_agrees hcall (Nat.le_refl _) hle (show n + 1 ≤ fuel by omega)
  have hfactor : Agrees input f c₀ (n + 1) 1 0 (Grammar.factor bound nested) (Reading.factor fuel nested') :=
    chain_agrees joins_binary hunary hle hle'
  have hterm : Agrees input f c₀ (n + 1) 1 0 (Grammar.term bound nested) (Reading.term fuel nested') :=
    chain_agrees joins_binary hfactor hle hle'
  have hcomparison : Agrees input f c₀ (n + 1) 1 0 (Grammar.comparison bound nested)
      (Reading.comparison fuel nested') := chain_agrees joins_binary hterm hle hle'
  have hequality : Agrees input f c₀ (n + 1) 1 0 (Grammar.equality bound nested)
      (Reading.equality fuel nested') := chain_agrees joins_binary hcomparison hle hle'
  have hconjunction : Agrees input f c₀ (n + 1) 1 0 (Grammar.conjunction bound nested)
      (Reading.conjunction fuel nested') := chain_agrees joins_logical hequality hle hle'
  exact chain_agrees joins_logical hconjunction hle hle'

/-- An assignment takes its number over from its target. -/
theorem assignment_agrees :
    Agrees input f c₀ (n + 1) 1 0 (Grammar.assignment bound nested) (Reading.assignment fuel nested') := by
  refine (disjunction_agrees hnested hbound hfuel).bind fun target => ?_
  refine .accept? (.pure rfl (zero_add _).symm) fun equals => ?_
  refine (hnested.fewer (by omega)).bind fun value => ?_
  have hassigned : Grammar.assignmentTo? (renumber f value) (renumber f target) =
      (Grammar.assignmentTo? value target).map (renumber f) := Grammar.assignmentTo?_relabel value target
  rw [hassigned]
  cases hresult : Grammar.assignmentTo? value target with
  | none => exact .report (.pure rfl rfl)
  | some result =>
    refine .pure rfl ?_
    cases target with
    | «variable» id name =>
      cases hresult
      simp [bearers, renumber, Expr.bearers, Expr.relabel]
    | get object name =>
      cases hresult
      simp [bearers, renumber, Expr.bearers, Expr.relabel]
    | _ => cases hresult

end Nested

/-- Expressions agree where fewer than `n` tokens are left. -/
theorem expression_agrees {bound fuel : Nat} (hbound : n ≤ bound + 1) (hfuel : n ≤ fuel) :
    Agrees input f c₀ n 1 0 (Grammar.expression bound) (Reading.expression fuel) := by
  induction n generalizing bound fuel with
  | zero => exact agrees_zero _ _
  | succ n ih =>
    obtain ⟨fuel, rfl⟩ := Nat.exists_eq_add_of_le' (show 1 ≤ fuel by omega)
    have hstep : Agrees input f c₀ (n + 1) 1 0 (Grammar.expression (bound - 1 + 1))
        (Reading.expression (fuel + 1)) :=
      assignment_agrees (ih (by omega) (by omega)) (by omega) (by omega)
    intro s c hshows hlength
    refine (hstep s c hshows hlength).of_eq ?_ rfl
    cases bound with
    | zero =>
      have hs : s.rest = [] := List.length_eq_zero_iff.mp (by omega)
      have hend : (s.rest.headD s.last).kind = .eof := by
        rw [hs]
        exact hshows.last_kind
      rw [Grammar.expression_failsOn (.inl rfl) 0 s hend, Grammar.expression_failsOn (.inl rfl) _ s hend]
    | succ bound => rfl

end Lox.Cursor
