import Lox.Proofs.Grammar.Phrases
import Lox.Proofs.Grammar.Whole
import Lox.Proofs.Grammar.WhileForm

/-!
# Loops among the tokens of a program

Wherever `for` stands among the tokens of a program a loop begins, and the tokens of the loop may be
replaced by those of the same loop written with `while`: the tokens around it are read as before, and the
program has the same tree.
-/

set_option autoImplicit false

namespace Lox.Grammar

/-- A loop that begins with `for`, in its parts: the initial clause with its semicolon, the condition, the
semicolon behind it, the increment and the body stand behind a keyword and in parentheses. -/
structure ForLoop where
  keyword : Token
  opening : Token
  initial : List Token
  condition : List Token
  semicolon : Token
  increment : List Token
  closing : Token
  body : List Token

namespace ForLoop

/-- The head of a loop behind its keyword. -/
def head (l : ForLoop) : List Token :=
  l.opening :: l.initial ++ (l.condition ++ l.semicolon :: (l.increment ++ [l.closing]))

/-- All tokens of a loop. -/
def tokens (l : ForLoop) : List Token := l.keyword :: (l.head ++ l.body)

/-- The tokens of a loop written with `while`. The initial clause is absent if it is only a semicolon; an
absent condition is `true`. -/
def asWhile (l : ForLoop) : List Token :=
  whileTokens (if l.initial.tail.isEmpty then none else some l.initial)
    (if l.condition.isEmpty then [Keyword.true.token] else l.condition)
    (if l.increment.isEmpty then none else some l.increment) l.body

/-- What is known of the tokens of a loop, and of all symbols and reserved words, is known of its tokens
written with `while`. -/
theorem asWhile_forall {P : Token → Prop} (hsymbol : ∀ k : Symbol, P k.token)
    (hkeyword : ∀ k : Keyword, P k.token) {l : ForLoop} (h : ∀ t ∈ l.tokens, P t) :
    ∀ t ∈ l.asWhile, P t := by
  have hparts : ∀ a ∈ [l.initial, l.condition, l.increment, l.body], ∀ t ∈ a, P t := by
    simp only [tokens, head, List.forall_mem_cons, List.forall_mem_append, List.cons_append] at h
    simp only [List.forall_mem_cons]
    exact ⟨h.2.2.1.1, h.2.2.1.2.1, h.2.2.1.2.2.2.1, h.2.2.2, List.forall_mem_nil _⟩
  simp only [List.forall_mem_cons] at hparts
  obtain ⟨hinitial, hcondition, hincrement, hbody, -⟩ := hparts
  refine whileTokens_forall hsymbol hkeyword ?_ ?_ ?_ hbody
  · split
    · simp
    · simpa using hinitial
  · split
    · simpa using hkeyword .true
    · exact hcondition
  · split
    · simp
    · simpa using hincrement

/-- The parts of a loop are what the grammar asks for. The body says whether it ends in an `if` to which an `else`
behind the loop would belong. -/
structure WellFormed (l : ForLoop) (dangling : Bool) : Prop where
  keyword : l.keyword.isKeyword .for = true
  opening : l.opening.isSymbol .leftParen = true
  initial : ∃ s?, InitialClause l.initial s? []
  condition : ∃ e?, OptionalExpression l.condition e? []
  semicolon : l.semicolon.isSymbol .semicolon = true
  increment : ∃ e?, OptionalExpression l.increment e? []
  closing : l.closing.isSymbol .rightParen = true
  body : ∃ s, Statement dangling l.body s []

end ForLoop

/-- Tokens begin with a loop, and have a property if it is written with `while`. An `else` that would continue the
loop does not follow it, and may follow all tokens only if that is said of them. -/
def EditedAt (dangling : Bool) (P : List Token → Prop) (before tokens : List Token) : Prop :=
  ∃ l : ForLoop, ∃ ends after, tokens = l.tokens ++ after ∧ l.WellFormed ends ∧
    (ends = true → after.head?.any (·.isKeyword .else) = false ∧ (after = [] → dangling = true)) ∧
    P (before ++ (l.asWhile ++ after))

/-- Tokens have a property, also after any loop that begins with `for` is written with `while`. None of them ends the
input. -/
structure Editable (dangling : Bool) (P : List Token → Prop) (tokens : List Token) : Prop where
  whole : P tokens
  inner : ∀ t ∈ tokens, t.isEof = false
  edit : ∀ before keyword tail, tokens = before ++ keyword :: tail → keyword.isKeyword .for = true →
    EditedAt dangling P before (keyword :: tail)

/-- Tokens that begin with a loop to edit still do so for a weaker property behind other tokens. -/
theorem EditedAt.mono {d d' : Bool} {P Q : List Token → Prop} {before before' tokens : List Token}
    (h : EditedAt d P before tokens) (hd : d = true → d' = true)
    (hP : ∀ behind, P (before ++ behind) → Q (before' ++ behind)) : EditedAt d' Q before' tokens := by
  obtain ⟨l, ends, after, hl, hwf, hends, hedit⟩ := h
  exact ⟨l, ends, after, hl, hwf, fun he => ⟨(hends he).1, fun hafter => hd ((hends he).2 hafter)⟩,
    hP _ hedit⟩

namespace Editable

variable {d d' : Bool} {P Q R : List Token → Prop} {a b : List Token}

/-- Editable tokens remain so for a weaker property, and where more may follow. -/
theorem mono (h : Editable d P a) (hd : d = true → d' = true) (hP : ∀ tokens, P tokens → Q tokens) :
    Editable d' Q a where
  whole := hP _ h.whole
  inner := h.inner
  edit before keyword tail htokens hfor :=
    (h.edit before keyword tail htokens hfor).mono hd fun _ => hP _

/-- Nothing is replaced among plain tokens. -/
theorem plain (h : a.all Token.isPlain = true) (hP : P a) : Editable d P a where
  whole := hP
  inner t ht := Token.isEof_of_isPlain (List.all_eq_true.mp h t ht)
  edit before keyword tail htokens hfor := by
    have hplain := Token.isKeyword_for_of_isPlain (List.all_eq_true.mp h keyword (by simp [htokens]))
    rw [hfor] at hplain
    cases hplain

/-- Loops are replaced in either part. What stands behind a loop at the end of the first is not `else`. -/
theorem append {last : Bool} (ha : Editable d P a) (hb : Editable d' Q b)
    (hR : ∀ a b, P a → Q b → R (a ++ b))
    (hjoin : d = true → b.head?.any (·.isKeyword .else) = false ∧ (b = [] → last = true))
    (hlast : d' = true → last = true) : Editable last R (a ++ b) where
  whole := hR _ _ ha.whole hb.whole
  inner := List.forall_mem_append.mpr ⟨ha.inner, hb.inner⟩
  edit before keyword tail htokens hfor := by
    have hsecond {c : List Token} (hc : b = c ++ keyword :: tail) :
        EditedAt last R (a ++ c) (keyword :: tail) :=
      (hb.edit c keyword tail hc hfor).mono hlast fun behind hbehind => by
        rw [List.append_assoc]
        exact hR _ _ ha.whole hbehind
    rcases List.append_eq_append_iff.mp htokens with ⟨c, rfl, hc⟩ | ⟨c, rfl, hc⟩
    · exact hsecond hc
    · cases c with
      | nil => simpa using hsecond (c := []) hc.symm
      | cons t c =>
        obtain ⟨rfl, rfl⟩ := List.cons.inj hc
        obtain ⟨l, ends, after, hl, hwf, hends, hedit⟩ := ha.edit before keyword c rfl hfor
        refine ⟨l, ends, after ++ b, by rw [← List.append_assoc, ← hl]; rfl, hwf, fun he => ?_, ?_⟩
        · cases after with
          | nil => exact hjoin ((hends he).2 rfl)
          | cons u after => exact ⟨(hends he).1, by simp⟩
        · simpa using hR _ _ hedit hb.whole

/-- Plain tokens stand before. -/
theorem behind {p : List Token} (h : Editable d P a) (hp : p.all Token.isPlain = true)
    (hQ : ∀ a, P a → Q (p ++ a)) : Editable d Q (p ++ a) :=
  (plain (d := false) (P := (· = p)) hp rfl).append h (fun _ _ hp h => hp ▸ hQ _ h) (by simp) id

/-- Plain tokens stand before and behind. -/
theorem between {p : List Token} {t : Token} (h : Editable d P a) (hp : p.all Token.isPlain = true)
    (ht : t.isSymbol .rightBrace = true) (hQ : ∀ a, P a → Q (p ++ (a ++ [t]))) :
    Editable d' Q (p ++ (a ++ [t])) := by
  have hplain : [t].all Token.isPlain = true := by simp [Token.isPlain_of_isSymbol ht]
  have helse : [t].head?.any (·.isKeyword .else) = false := by
    simp [Token.isKeyword, Token.isSymbol_iff.mp ht]
  have hclosed : Editable false (fun b => Q (p ++ b)) (a ++ [t]) :=
    h.append (plain (d := false) (P := (· = [t])) hplain rfl) (fun a _ ha hb => hb ▸ hQ a ha)
      (fun _ => ⟨helse, by simp⟩) id
  exact (hclosed.behind hp fun _ => id).mono (by simp) fun _ => id

end Editable

/-- Tokens begin with editable tokens. -/
def BeginsEditable (dangling : Bool) (P : List Token → Prop) (tokens rest : List Token) : Prop :=
  ∃ read, tokens = read ++ rest ∧ Editable dangling P read

/-- A condition and a statement stand behind a keyword. -/
theorem Editable.conditioned {d d' : Bool} {P Q : List Token → Prop} {a b : List Token}
    {keyword opening closing : Token} {k : Keyword} (h : Editable d P b)
    (hkeyword : keyword.isKeyword k = true) (hk : k ≠ .for) (hopening : opening.isSymbol .leftParen = true)
    (ha : a.all Token.isPlain = true) (hclosing : closing.isSymbol .rightParen = true)
    (hd : d = true → d' = true) (hQ : ∀ b, P b → Q (keyword :: opening :: (a ++ closing :: b))) :
    Editable d' Q (keyword :: opening :: (a ++ closing :: b)) := by
  have hplain : (keyword :: opening :: (a ++ [closing])).all Token.isPlain = true := by
    simp [Token.isPlain_of_isKeyword hkeyword hk, Token.isPlain_of_isSymbol hopening, ha,
      Token.isPlain_of_isSymbol hclosing]
  have hbehind : Editable d Q (keyword :: opening :: (a ++ [closing]) ++ b) :=
    h.behind hplain fun b hb => by simpa using hQ b hb
  simpa using hbehind.mono hd fun _ => id

/-- An initial clause that there is, is a declaration. -/
theorem InitialClause.declaration {tokens : List Token} {s : Stmt} {rest : List Token}
    (h : InitialClause tokens (some s) rest) : Declaration tokens s rest := by
  cases h with
  | «variable» hkeyword h => exact .variable hkeyword h
  | expression h hsemicolon => exact .statement (.expression h hsemicolon)

/-- An initial clause that there is has more than one token. -/
theorem InitialClause.tail_isEmpty {tokens : List Token} {s : Stmt}
    (h : InitialClause tokens (some s) []) : tokens.tail.isEmpty = false := by
  refine List.isEmpty_eq_false_iff.mpr (List.ne_nil_of_length_pos ?_)
  cases h with
  | «variable» _ h => exact h.length_lt
  | expression h _ =>
    have hlength := h.length_lt
    rw [List.length_tail]
    simp only [List.length_cons, List.length_nil] at hlength
    omega

/-- The initial clause of a loop stands as a declaration. -/
theorem rel_of_initialClause {a : List Token} {s? : Option Stmt}
    (h : Whole (fun tokens rest => InitialClause tokens s? rest) a) :
    Option.Rel (fun a s => ∀ rest, Declaration (a ++ rest) s rest)
      (if a.tail.isEmpty then none else some a) s? := by
  have hread := h.alone
  cases s? with
  | none =>
    cases hread
    exact .none
  | some s =>
    rw [hread.tail_isEmpty]
    exact .some fun rest => (h.stands rest).declaration

/-- An expression that there is, is not without tokens. -/
theorem rel_of_optionalExpression {a : List Token} {e? : Option Expr}
    (h : Whole (fun tokens rest => OptionalExpression tokens e? rest) a) :
    Option.Rel (fun a e => ∀ rest, Phrase .expression (a ++ rest) e rest)
      (if a.isEmpty then none else some a) e? := by
  have hread := h.alone
  cases hread with
  | none => exact .none
  | some hread =>
    rw [List.isEmpty_eq_false_iff.mpr (List.ne_nil_of_length_pos hread.length_lt)]
    refine .some fun rest => ?_
    cases h.stands rest with
    | some h => exact h

section ForLoop

variable {l : ForLoop} {d : Bool} {s? : Option Stmt} {e? u? : Option Expr} {s : Stmt}
  (hinitial : Whole (fun tokens rest => InitialClause tokens s? rest) l.initial)
  (hcondition : Whole (fun tokens rest => OptionalExpression tokens e? rest) l.condition)
  (hincrement : Whole (fun tokens rest => OptionalExpression tokens u? rest) l.increment)
include hinitial hcondition hincrement

/-- Written with `while`, a loop keeps its tree. -/
theorem ForLoop.asWhile_stands (hbody : StandsFor d l.body s) :
    StandsFor d l.asWhile (forLoop s? (e?.getD (.literal .true)) u? s) := by
  refine .whileTokens (rel_of_initialClause hinitial) ?_ (rel_of_optionalExpression hincrement) hbody
  have hrel := rel_of_optionalExpression hcondition
  split at hrel <;> rename_i habsent
  · cases hrel
    rw [if_pos habsent]
    exact fun rest => .of_primary (.constant rfl)
  · rw [if_neg habsent]
    cases hrel with
    | some h => exact h

/-- In the tokens of a loop, the loop itself may be replaced, or one in its body. -/
theorem ForLoop.editable (hkeyword : l.keyword.isKeyword .for = true)
    (hopening : l.opening.isSymbol .leftParen = true) (hsemicolon : l.semicolon.isSymbol .semicolon = true)
    (hclosing : l.closing.isSymbol .rightParen = true) (hbody : Editable d (StandsFor d · s) l.body) :
    Editable d (StandsFor d · (forLoop s? (e?.getD (.literal .true)) u? s)) l.tokens := by
  have hplain : l.head.all Token.isPlain = true := by
    simp [head, Token.isPlain_of_isSymbol hopening, hinitial.plain, hcondition.plain,
      Token.isPlain_of_isSymbol hsemicolon, hincrement.plain, Token.isPlain_of_isSymbol hclosing]
  have hinside : Editable d (fun tokens => StandsFor d (l.keyword :: tokens)
      (forLoop s? (e?.getD (.literal .true)) u? s)) (l.head ++ l.body) := by
    refine hbody.behind hplain fun x hx => ?_
    obtain ⟨ends, hends, hx⟩ := hx
    refine ⟨ends, hends, fun rest => ?_⟩
    simpa [head] using Statement.for hkeyword hopening (hinitial.stands _)
      (hcondition.stands (l.semicolon :: _)) hsemicolon (hincrement.stands (l.closing :: _)) hclosing
      (hx rest)
  refine ⟨hinside.whole, List.forall_mem_cons.mpr ⟨?_, hinside.inner⟩, ?_⟩
  · simp [Token.isEof, Kind.isEof, Token.isKeyword_iff.mp hkeyword]
  rintro (_ | ⟨t, before⟩) keyword tail htokens hfor
  · obtain ⟨ends, hends, hstands⟩ := hbody.whole
    have hread : Statement ends l.body s [] := by simpa using hstands []
    refine ⟨l, ends, [], by rw [← List.append_nil l.tokens] at htokens; exact htokens.symm,
      ⟨hkeyword, hopening, ⟨_, hinitial.alone⟩, ⟨_, hcondition.alone⟩, hsemicolon, ⟨_, hincrement.alone⟩,
        hclosing, _, hread⟩, fun hd => ⟨rfl, fun _ => hends hd⟩, ?_⟩
    rw [List.nil_append, List.append_nil]
    exact asWhile_stands hinitial hcondition hincrement hbody.whole
  · obtain ⟨rfl, hbehind⟩ := List.cons.inj htokens
    exact hinside.edit before keyword tail hbehind hfor

end ForLoop

mutual

/-- In the tokens of a statement loops may be replaced. -/
theorem Statement.editable {d tokens s rest} :
    Statement d tokens s rest → BeginsEditable d (StandsFor d · s) tokens rest
  | @Statement.expression _ e semicolon _ h hsemicolon => by
    obtain ⟨a, rfl, hwhole⟩ := h.whole
    refine ⟨a ++ [semicolon], by simp, .plain ?_ ⟨false, by simp, fun rest => ?_⟩⟩
    · simp [hwhole.plain, Token.isPlain_of_isSymbol hsemicolon]
    · simpa using Statement.expression (hwhole.stands (semicolon :: rest)) hsemicolon
  | @Statement.print keyword _ e semicolon _ hkeyword h hsemicolon => by
    obtain ⟨a, rfl, hwhole⟩ := h.whole
    refine ⟨keyword :: a ++ [semicolon], by simp, .plain ?_ ⟨false, by simp, fun rest => ?_⟩⟩
    · simp [Token.isPlain_of_isKeyword hkeyword, hwhole.plain, Token.isPlain_of_isSymbol hsemicolon]
    · simpa using Statement.print hkeyword (hwhole.stands (semicolon :: rest)) hsemicolon
  | @Statement.return keyword _ value semicolon _ hkeyword h hsemicolon => by
    obtain ⟨a, rfl, hwhole⟩ := h.whole
    refine ⟨keyword :: a ++ [semicolon], by simp, .plain ?_ ⟨false, by simp, fun rest => ?_⟩⟩
    · simp [Token.isPlain_of_isKeyword hkeyword, hwhole.plain, Token.isPlain_of_isSymbol hsemicolon]
    · simpa using Statement.return hkeyword (hwhole.stands (semicolon :: rest)) hsemicolon
  | @Statement.block opening _ ss closing _ hopening h hclosing => by
    obtain ⟨a, rfl, ha⟩ := h.editable
    refine ⟨[opening] ++ (a ++ [closing]), by simp, ha.between ?_ hclosing fun a ha => ?_⟩
    · simp [Token.isPlain_of_isSymbol hopening]
    · exact ⟨false, by simp, fun rest => by
        simpa using Statement.block hopening (ha (closing :: rest)) hclosing⟩
  | @Statement.if keyword opening _ e closing _ d' thenBranch _ hkeyword hopening h hclosing hthen => by
    obtain ⟨a, rfl, hwhole⟩ := h.whole
    obtain ⟨b, rfl, hb⟩ := hthen.editable
    exact ⟨keyword :: opening :: (a ++ closing :: b), by simp,
      hb.conditioned hkeyword (by decide) hopening hwhole.plain hclosing (by simp) fun b hb =>
        .conditional hopening hwhole.stands hclosing hkeyword hb⟩
  | @Statement.ifElse keyword opening _ e closing _ thenBranch t _ d' elseBranch _ hkeyword hopening h
      hclosing hthen ht helse => by
    obtain ⟨a, rfl, hwhole⟩ := h.whole
    obtain ⟨b, rfl, hb⟩ := hthen.editable
    obtain ⟨c, rfl, hc⟩ := helse.editable
    -- the first branch may not be continued by an `else`, before and behind any change in it
    have hbranches : Editable d'
        (fun tokens => ∃ b c, StandsFor false b thenBranch ∧ StandsFor d' c elseBranch ∧
          tokens = b ++ t :: c) (b ++ t :: c) :=
      hb.append (hc.behind (p := [t]) (by simp [Token.isPlain_of_isKeyword ht])
        (Q := fun tokens => ∃ c, StandsFor d' c elseBranch ∧ tokens = t :: c) fun c hc => ⟨c, hc, rfl⟩)
        (fun b _ hb ⟨c, hc, h⟩ => ⟨b, c, hb, hc, by rw [h]⟩) (by simp) id
    refine ⟨keyword :: opening :: (a ++ closing :: (b ++ t :: c)), by simp,
      hbranches.conditioned hkeyword (by decide) hopening hwhole.plain hclosing id ?_⟩
    rintro _ ⟨b, c, hb, hc, rfl⟩
    exact .conditionalElse hopening hwhole.stands hclosing hkeyword hb ht hc
  | @Statement.while keyword opening _ e closing _ _ body _ hkeyword hopening h hclosing hbody => by
    obtain ⟨a, rfl, hwhole⟩ := h.whole
    obtain ⟨b, rfl, hb⟩ := hbody.editable
    exact ⟨keyword :: opening :: (a ++ closing :: b), by simp,
      hb.conditioned hkeyword (by decide) hopening hwhole.plain hclosing id fun b hb =>
        .loop hopening hwhole.stands hclosing hkeyword hb⟩
  | @Statement.for keyword opening _ initial _ condition semicolon _ increment closing _ _ body _ hkeyword
      hopening hinitial hcondition hsemicolon hincrement hclosing hbody => by
    obtain ⟨a, rfl, ha⟩ := hinitial.whole
    obtain ⟨b, rfl, hb⟩ := hcondition.whole
    obtain ⟨c, rfl, hc⟩ := hincrement.whole
    obtain ⟨x, rfl, hx⟩ := hbody.editable
    exact ⟨_, by simp [ForLoop.tokens, ForLoop.head],
      ForLoop.editable (l := ⟨keyword, opening, a, b, semicolon, c, closing, x⟩) ha hb hc hkeyword hopening
        hsemicolon hclosing hx⟩

/-- The tokens of a declaration are editable. -/
theorem Declaration.editable {tokens s rest} : Declaration tokens s rest →
    BeginsEditable true (fun read => ∀ rest, Declaration (read ++ rest) s rest) tokens rest
  | @Declaration.class keyword name opening _ ds closing _ hkeyword hname hopening h hclosing => by
    obtain ⟨a, rfl, ha⟩ := h.editable
    refine ⟨[keyword, name, opening] ++ (a ++ [closing]), by simp,
      ha.between ?_ hclosing fun a ha rest => ?_⟩
    · simp [Token.isPlain_of_isKeyword hkeyword, Token.isPlain_of_isIdentifier hname,
        Token.isPlain_of_isSymbol hopening]
    · simpa using Declaration.class hkeyword hname hopening (ha (closing :: rest)) hclosing
  | @Declaration.function keyword _ d _ hkeyword h => by
    obtain ⟨a, rfl, ha⟩ := h.editable
    refine ⟨[keyword] ++ a, rfl, (ha.behind ?_ fun a ha rest => ?_).mono (by simp) fun _ => id⟩
    · simp [Token.isPlain_of_isKeyword hkeyword]
    · exact Declaration.function hkeyword (ha rest)
  | @Declaration.variable keyword _ _ _ hkeyword h => by
    obtain ⟨a, rfl, ha⟩ := h.whole
    refine ⟨keyword :: a, rfl, .plain ?_ fun rest => .variable hkeyword (ha.stands rest)⟩
    simp [Token.isPlain_of_isKeyword hkeyword, ha.plain]
  | .statement h => by
    obtain ⟨a, rfl, ha⟩ := h.editable
    exact ⟨a, rfl, ha.mono (by simp) fun _ ⟨_, _, h⟩ rest => .statement (h rest)⟩

/-- The tokens of declarations are editable. -/
theorem Declarations.editable {tokens ss rest} : Declarations tokens ss rest →
    BeginsEditable true (fun read => ∀ rest, Declarations (read ++ rest) ss rest) tokens rest
  | .none => ⟨[], rfl, .plain (by simp) fun _ => .none⟩
  | .more h hmore => by
    obtain ⟨a, rfl, ha⟩ := h.editable
    obtain ⟨b, rfl, hb⟩ := hmore.editable
    refine ⟨a ++ b, by simp, ha.append hb (fun a b ha hb rest => ?_) (fun _ => ⟨?_, by simp⟩) id⟩
    · simpa using Declarations.more (ha (b ++ rest)) (hb rest)
    · have hread := hb.whole []
      rw [List.append_nil] at hread
      exact hread.head_not_else rfl

/-- The tokens of a function are editable. -/
theorem NamedFunction.editable {tokens f rest} : NamedFunction tokens f rest →
    BeginsEditable false (fun read => ∀ rest, NamedFunction (read ++ rest) f rest) tokens rest
  | @NamedFunction.mk name opening _ params closing brace _ ss t _ hname hopening hparams hclosing hbrace h
      ht => by
    obtain ⟨a, rfl, ha⟩ := hparams.whole
    obtain ⟨b, rfl, hb⟩ := h.editable
    refine ⟨(name :: opening :: a ++ [closing, brace]) ++ (b ++ [t]), by simp,
      hb.between ?_ ht fun b hb rest => ?_⟩
    · simp [Token.isPlain_of_isIdentifier hname, Token.isPlain_of_isSymbol hopening, ha.plain,
        Token.isPlain_of_isSymbol hclosing, Token.isPlain_of_isSymbol hbrace]
    · simpa using NamedFunction.mk hname hopening (ha.stands (closing :: brace :: (b ++ t :: rest)))
        hclosing hbrace (hb (t :: rest)) ht

/-- The tokens of methods are editable. -/
theorem Methods.editable {tokens fs rest} : Methods tokens fs rest →
    BeginsEditable false (fun read => ∀ rest, Methods (read ++ rest) fs rest) tokens rest
  | .none => ⟨[], rfl, .plain (by simp) fun _ => .none⟩
  | .more h hmore => by
    obtain ⟨a, rfl, ha⟩ := h.editable
    obtain ⟨b, rfl, hb⟩ := hmore.editable
    refine ⟨a ++ b, by simp, ha.append hb (fun a b ha hb rest => ?_) (by simp) id⟩
    simpa using Methods.more (ha (b ++ rest)) (hb rest)

end

end Lox.Grammar
