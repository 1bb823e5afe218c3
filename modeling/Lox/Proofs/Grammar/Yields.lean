import Lox.Grammar.Parser
import Lox.Proofs.Tree.Shape

/-!
# What parsers yield

Every parser reads on from where it is: it leaves a suffix of the tokens, keeps the errors recorded
before, and hands out the occurrence numbers in order. What it yields when nothing is reported is stated
about exactly the numbers that it has handed out, so that statements about parsers in a row compose by
appending numbers.
-/

set_option autoImplicit false

namespace Lox

/-- A token is written in the way that its kind asks for. Only the spelling of `this` matters to programs. -/
structure Token.Spelled (t : Token) : Prop where
  identifier : t.isIdentifier = true → t.lexeme ≠ thisName
  this : t.isKeyword .this = true → t.lexeme = thisName

/-- All tokens of a parser are spelled as their kinds ask for. -/
def ParserState.Spelled (s : ParserState) : Prop := ∀ t ∈ s.last :: s.rest, t.Spelled

namespace Parser

/-- A parser has gone on from one state to another. -/
structure Advances (s s' : ParserState) : Prop where
  rest : s'.rest <:+ s.rest
  last : s'.last = s.last
  nextId : s.nextId ≤ s'.nextId
  errors : s.errors <+: s'.errors

namespace Advances

variable {s s₁ s₂ : ParserState}

/-- A parser that reads nothing goes on from where it is. -/
protected theorem refl (s : ParserState) : Advances s s :=
  ⟨List.suffix_refl _, rfl, Nat.le_refl _, List.prefix_refl _⟩

/-- A parser that goes on twice has gone on. -/
theorem trans (h : Advances s s₁) (h' : Advances s₁ s₂) : Advances s s₂ :=
  ⟨h'.rest.trans h.rest, h'.last.trans h.last, Nat.le_trans h.nextId h'.nextId,
    h.errors.trans h'.errors⟩

/-- What was not reported in two steps was not reported in the first. -/
theorem errors_eq (h : Advances s s₁) (h' : Advances s₁ s₂) (hclean : s₂.errors = s.errors) :
    s₁.errors = s.errors := by
  refine (h.errors.eq_of_length ?_).symm
  have hle := h'.errors.length_le
  rw [hclean] at hle
  exact Nat.le_antisymm h.errors.length_le hle

/-- Tokens remain spelled as their kinds ask for. -/
theorem spelled (h : Advances s s₁) (hs : s.Spelled) : s₁.Spelled := by
  intro t ht
  rcases List.mem_cons.mp ht with rfl | ht
  · exact hs _ (h.last ▸ List.mem_cons_self ..)
  · exact hs t (List.mem_cons_of_mem _ (h.rest.subset ht))

end Advances

/-- The numbers handed out between two states. -/
def handedOut (s s' : ParserState) : List Occurrence :=
  List.range' s.nextId (s'.nextId - s.nextId)

/-- Numbers are handed out in order. -/
theorem handedOut_append {s s₁ s₂ : ParserState} (h : Advances s s₁) (h' : Advances s₁ s₂) :
    handedOut s s₁ ++ handedOut s₁ s₂ = handedOut s s₂ := by
  obtain ⟨k, hk⟩ := Nat.exists_eq_add_of_le h.nextId
  obtain ⟨l, hl⟩ := Nat.exists_eq_add_of_le h'.nextId
  rw [handedOut, handedOut, handedOut, hl, hk, Nat.add_assoc, Nat.add_sub_cancel_left,
    Nat.add_sub_cancel_left, ← Nat.add_assoc, Nat.add_sub_cancel_left, List.range'_append_1]

/-- A parser that reports nothing yields a result with the property `post`, which may speak of the numbers that were
handed out. -/
def Yields {α : Type} (p : Parser α) (post : List Occurrence → α → Prop) : Prop :=
  ∀ s, match p s with
    | .ok a s' => Advances s s' ∧
      (s.Spelled → s'.errors = s.errors → post (handedOut s s') a)
    | .error _ s' => Advances s s'

namespace Yields

variable {α β : Type} {p : Parser α} {f : α → Parser β} {post post' : List Occurrence → α → Prop}
  {next : α → List Occurrence → β → Prop} {all : List Occurrence → β → Prop}

/-- What is yielded also has every property that follows from the one it has. -/
theorem imp (h : Yields p post) (himp : ∀ ids a, post ids a → post' ids a) : Yields p post' := by
  intro s
  have hs := h s
  cases hp : p s with
  | ok a s' =>
    rw [hp] at hs
    exact ⟨hs.1, fun hspelled hclean => himp _ a (hs.2 hspelled hclean)⟩
  | error e s' =>
    rw [hp] at hs
    exact hs

/-- Two parsers in a row give out their numbers one after the other. -/
theorem bind (h : Yields p post) (hf : ∀ a, Yields (f a) (next a))
    (hall : ∀ a before after b, post before a → next a after b → all (before ++ after) b) :
    Yields (p >>= f) all := by
  intro s
  have hs := h s
  show match EStateM.bind p f s with
    | .ok a s' => _
    | .error _ s' => _
  unfold EStateM.bind
  cases hp : p s with
  | error e s' =>
    rw [hp] at hs
    exact hs
  | ok a s₁ =>
    rw [hp] at hs
    have hs₁ := hf a s₁
    dsimp only
    cases hq : f a s₁ with
    | error e s₂ =>
      rw [hq] at hs₁
      exact hs.1.trans hs₁
    | ok b s₂ =>
      rw [hq] at hs₁
      refine ⟨hs.1.trans hs₁.1, fun hspelled hclean => ?_⟩
      have hclean₁ := hs.1.errors_eq hs₁.1 hclean
      rw [← handedOut_append hs.1 hs₁.1]
      exact hall a _ _ b (hs.2 hspelled hclean₁)
        (hs₁.2 (hs.1.spelled hspelled) (hclean.trans hclean₁.symm))

/-- A parser behind one that hands out no numbers gives out the numbers of both. -/
theorem after {known : α → Prop} (h : Yields p (fun ids a => ids = [] ∧ known a))
    (hf : ∀ a, Yields (f a) (fun ids b => known a → all ids b)) : Yields (p >>= f) all :=
  h.bind hf fun _ _ after _ ⟨hnone, ha⟩ hb => by
    rw [hnone, List.nil_append]
    exact hb ha

/-- What is known from before may be forgotten. -/
theorem assuming (h : Yields p post) (known : Prop) : Yields p (fun ids a => known → post ids a) :=
  h.imp fun _ _ ha _ => ha

/-- A value takes up no numbers. -/
theorem pure (a : α) (h : post [] a) : Yields (Pure.pure a) post := fun s =>
  ⟨.refl s, fun _ _ => by
    rw [handedOut, Nat.sub_self]
    exact h⟩

/-- What a parser yields may be returned in another form. -/
theorem returning {g : α → β} (h : Yields p post) (hg : ∀ ids a, post ids a → all ids (g a)) :
    Yields (p >>= fun a => Pure.pure (g a)) all := by
  have hlast (a : α) : Yields (Pure.pure (g a)) fun ids b => ids = [] ∧ b = g a :=
    .pure _ ⟨rfl, rfl⟩
  refine h.bind hlast fun a before after b ha ⟨hafter, hb⟩ => ?_
  rw [hafter, List.append_nil, hb]
  exact hg before a ha

/-- A parser that fails yields nothing. -/
theorem fail (cause : SyntaxCause) : Yields (Parser.fail cause) post := fun s => .refl s

/-- What a parser yields may be used in another form. -/
theorem map {g : α → β} (h : Yields p post) (hg : ∀ ids a, post ids a → all ids (g a)) :
    Yields (g <$> p) all := by
  intro s
  have hs := h s
  show match EStateM.map g p s with
    | .ok a s' => _
    | .error _ s' => _
  unfold EStateM.map
  cases hp : p s with
  | ok a s' =>
    rw [hp] at hs
    exact ⟨hs.1, fun hspelled hclean => hg _ a (hs.2 hspelled hclean)⟩
  | error e s' =>
    rw [hp] at hs
    exact hs

end Yields

section Steps

/-- A step that hands out no numbers, and only goes on, takes up none. -/
theorem yields_of_unnumbered {α : Type} {p : Parser α} {known : α → Prop}
    (h : ∀ s, ∃ a rest, p s = .ok a { s with rest } ∧ rest <:+ s.rest ∧ (s.Spelled → known a)) :
    Yields p (fun ids a => ids = [] ∧ known a) := by
  intro s
  obtain ⟨a, rest, hp, hrest, ha⟩ := h s
  rw [hp]
  refine ⟨⟨hrest, rfl, Nat.le_refl _, List.prefix_refl _⟩, fun hspelled _ => ⟨?_, ha hspelled⟩⟩
  rw [handedOut, Nat.sub_self]
  rfl

/-- A parser that looks at the next token sees one that is spelled as its kind asks for. -/
theorem peek_yields : Yields peek (fun ids t => ids = [] ∧ t.Spelled) := by
  refine yields_of_unnumbered fun s => ⟨_, s.rest, rfl, List.suffix_refl _, fun hspelled => ?_⟩
  cases hrest : s.rest with
  | nil => exact hspelled _ (List.mem_cons_self ..)
  | cons t rest => exact hspelled t (by simp [hrest])

/-- A parser that asks about the next token takes up no numbers. -/
theorem sees_yields (p : Token → Bool) : Yields (sees p) (fun ids _ => ids = [] ∧ True) :=
  yields_of_unnumbered fun s => ⟨_, s.rest, rfl, List.suffix_refl _, fun _ => trivial⟩

/-- A parser that asks for the end takes up no numbers. -/
theorem atEnd_yields : Yields atEnd (fun ids _ => ids = [] ∧ True) :=
  yields_of_unnumbered fun s => ⟨_, s.rest, rfl, List.suffix_refl _, fun _ => trivial⟩

/-- A parser that goes on by a token takes up no numbers. -/
theorem advance_yields : Yields advance (fun ids _ => ids = [] ∧ True) :=
  yields_of_unnumbered fun s => ⟨_, s.rest.tail, rfl, List.tail_suffix _, fun _ => trivial⟩

/-- An optional token that is there has the property, and is spelled as its kind asks for. -/
theorem accept?_yields (p : Token → Bool) :
    Yields (accept? p) (fun ids t? => ids = [] ∧ ∀ t ∈ t?, p t = true ∧ t.Spelled) := by
  refine yields_of_unnumbered fun s => ?_
  unfold accept?
  cases hrest : s.rest with
  | nil => exact ⟨none, s.rest, rfl, hrest ▸ List.suffix_refl _, fun _ t ht => by cases ht⟩
  | cons t rest =>
    dsimp only
    cases hp : p t with
    | true =>
      refine ⟨some t, rest, rfl, List.suffix_cons t rest, fun hspelled t' ht' => ?_⟩
      obtain rfl : t = t' := Option.some.inj ht'
      exact ⟨hp, hspelled t (by simp [hrest])⟩
    | false =>
      exact ⟨none, s.rest, rfl, hrest ▸ List.suffix_refl _, fun _ t ht => by cases ht⟩

/-- A parser that reads a token that may be there takes up no numbers. -/
theorem accepts_yields (p : Token → Bool) : Yields (accepts p) (fun ids _ => ids = [] ∧ True) :=
  (accept?_yields p).after fun _ => .pure _ fun _ => ⟨rfl, trivial⟩

/-- A token that is expected has the property, and is spelled as its kind asks for. -/
theorem expect_yields (p : Token → Bool) (cause : SyntaxCause) :
    Yields (expect p cause) (fun ids t => ids = [] ∧ p t = true ∧ t.Spelled) := by
  refine (accept?_yields p).after fun t? => ?_
  cases t? with
  | none => exact .fail cause
  | some t => exact .pure t fun ht => ⟨rfl, ht t rfl⟩

/-- Nothing is claimed of a parser that has recorded an error. -/
theorem report_yields (token : Token) (cause : SyntaxCause) :
    Yields (report token cause) (fun ids _ => ids = [] ∧ False) := fun s =>
  ⟨⟨List.suffix_refl _, rfl, Nat.le_refl _, List.prefix_append _ _⟩, fun _ hclean =>
    absurd hclean (by simp)⟩

/-- A number that is given out is the next one. -/
theorem fresh_yields : Yields fresh (fun ids id => ids = [id]) := fun s =>
  ⟨⟨List.suffix_refl _, rfl, Nat.le_succ _, List.prefix_refl _⟩, fun _ _ => by
    simp [handedOut]⟩

end Steps

end Parser

end Lox
