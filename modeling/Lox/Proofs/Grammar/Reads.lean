import Lox.Proofs.Grammar.Yields

/-!
# What parsers have read

A parser that reports nothing has read some of the tokens in front of it. What these are is stated of the
tokens before and the tokens that are left. Statements about parsers in a row compose: what is claimed of
the second parser may assume what the first has read.
-/

set_option autoImplicit false

namespace Lox.Parser

/-- If a parser reports nothing, the tokens before, the result and the tokens that are left have the property `post`. -/
def Reads {α : Type} (p : Parser α) (post : List Token → α → List Token → Prop) : Prop :=
  ∀ s, s.last.kind = .eof → match p s with
    | .ok a s' => Advances s s' ∧ (s'.errors = s.errors → post s.rest a s'.rest)
    | .error _ s' => Advances s s'

namespace Reads

variable {α β : Type} {p : Parser α} {f : α → Parser β} {post post' : List Token → α → List Token → Prop}
  {all : List Token → β → List Token → Prop}

/-- What is read also has every property that follows from the one it has. -/
theorem imp (h : Reads p post) (himp : ∀ tokens a rest, post tokens a rest → post' tokens a rest) :
    Reads p post' := by
  intro s hlast
  have hs := h s hlast
  cases hp : p s with
  | ok a s' =>
    rw [hp] at hs
    exact ⟨hs.1, fun hclean => himp _ _ _ (hs.2 hclean)⟩
  | error e s' =>
    rw [hp] at hs
    exact hs

/-- Two parsers in a row read what they read one after the other. -/
theorem bind (h : Reads p post)
    (hf : ∀ tokens a, Reads (f a) fun others b rest => post tokens a others → all tokens b rest) :
    Reads (p >>= f) all := by
  intro s hlast
  have hs := h s hlast
  show match EStateM.bind p f s with
    | .ok b s' => _
    | .error _ s' => _
  unfold EStateM.bind
  cases hp : p s with
  | error e s' =>
    rw [hp] at hs
    exact hs
  | ok a s₁ =>
    rw [hp] at hs
    have hs₁ := hf s.rest a s₁ (hs.1.last ▸ hlast)
    dsimp only
    cases hq : f a s₁ with
    | error e s₂ =>
      rw [hq] at hs₁
      exact hs.1.trans hs₁
    | ok b s₂ =>
      rw [hq] at hs₁
      refine ⟨hs.1.trans hs₁.1, fun hclean => ?_⟩
      have hclean₁ := hs.1.errors_eq hs₁.1 hclean
      exact hs₁.2 (hclean.trans hclean₁.symm) (hs.2 hclean₁)

/-- A value is read without any tokens. -/
theorem pure (a : α) (h : ∀ rest, post rest a rest) : Reads (Pure.pure a) post := fun s _ =>
  ⟨.refl s, fun _ => h s.rest⟩

/-- A parser that fails reads nothing that would have to be a phrase. -/
theorem fail (cause : SyntaxCause) : Reads (Parser.fail cause) post := fun s _ => .refl s

/-- What is read can be changed by a function. -/
theorem map {g : α → β} (h : Reads p post)
    (hg : ∀ tokens a rest, post tokens a rest → all tokens (g a) rest) : Reads (g <$> p) all := by
  intro s hlast
  have hs := h s hlast
  show match EStateM.map g p s with
    | .ok a s' => _
    | .error _ s' => _
  unfold EStateM.map
  cases hp : p s with
  | ok a s' =>
    rw [hp] at hs
    exact ⟨hs.1, fun hclean => hg _ _ _ (hs.2 hclean)⟩
  | error e s' =>
    rw [hp] at hs
    exact hs

end Reads

section Steps

/-- A step that reports nothing, and leaves the state as described, has read this. -/
theorem reads_of_clean {α : Type} {p : Parser α} {post : List Token → α → List Token → Prop}
    (h : ∀ s, s.last.kind = .eof → ∃ a s', p s = .ok a s' ∧ s'.rest <:+ s.rest ∧ s'.last = s.last ∧
      s.nextId ≤ s'.nextId ∧ s'.errors = s.errors ∧ post s.rest a s'.rest) : Reads p post := by
  intro s hlast
  obtain ⟨a, s', hp, hrest, hlast', hnext, herrors, ha⟩ := h s hlast
  rw [hp]
  exact ⟨⟨hrest, hlast', hnext, herrors ▸ List.prefix_refl _⟩, fun _ => ha⟩

/-- The token `t` is the next of the tokens, or the one that ends the input if there are none. Nothing is read. -/
structure Peeks (tokens : List Token) (t : Token) (rest : List Token) : Prop where
  rest_eq : rest = tokens
  next : (tokens = [] ∧ t.kind = .eof) ∨ ∃ others, tokens = t :: others

/-- A parser that looks at the next token sees the one that comes first, or the end. -/
theorem peek_reads : Reads peek Peeks := by
  refine reads_of_clean fun s hlast =>
    ⟨_, s, rfl, List.suffix_refl _, rfl, Nat.le_refl _, rfl, rfl, ?_⟩
  cases hrest : s.rest with
  | nil => exact .inl ⟨rfl, hlast⟩
  | cons t rest => exact .inr ⟨rest, rfl⟩

/-- What is read by going on from a token that does not end the input. -/
theorem Peeks.eq_cons {tokens others rest : List Token} {t : Token} (h : Peeks tokens t others)
    (hkind : t.kind ≠ .eof) (hrest : rest = others.tail) : tokens = t :: rest := by
  obtain ⟨rfl, ⟨rfl, heof⟩ | ⟨more, rfl⟩⟩ := h
  · exact absurd heof hkind
  · rw [hrest, List.tail_cons]

/-- A parser that goes on leaves all tokens but the first. -/
theorem advance_reads : Reads advance fun tokens _ rest => rest = tokens.tail :=
  reads_of_clean fun s _ =>
    ⟨_, { s with rest := s.rest.tail }, rfl, List.tail_suffix _, rfl, Nat.le_refl _, rfl, rfl⟩

/-- A parser that asks about the next token is told of the one that comes first. -/
theorem sees_reads (p : Token → Bool) :
    Reads (sees p) fun tokens b rest => rest = tokens ∧ b = tokens.head?.any p :=
  reads_of_clean fun s _ => ⟨_, s, rfl, List.suffix_refl _, rfl, Nat.le_refl _, rfl, rfl, rfl⟩

/-- A parser that asks for the end is told whether there are tokens. -/
theorem atEnd_reads : Reads atEnd fun tokens b rest => rest = tokens ∧ b = tokens.isEmpty :=
  reads_of_clean fun s _ => ⟨_, s, rfl, List.suffix_refl _, rfl, Nat.le_refl _, rfl, rfl, rfl⟩

/-- A parser that asks for a number reads no tokens. -/
theorem fresh_reads : Reads fresh fun tokens _ rest => rest = tokens :=
  reads_of_clean fun s _ =>
    ⟨_, { s with nextId := s.nextId + 1 }, rfl, List.suffix_refl _, rfl, Nat.le_succ _, rfl, rfl⟩

/-- A part that is left out if a token with the property `skip` comes next. -/
theorem Reads.optional {α β : Type} {present : Parser α} {k : α → Parser β}
    {post : List Token → α → List Token → Prop} {all : List Token → β → List Token → Prop}
    (skip : Token → Bool) (absent : α) (hpresent : Reads present post)
    (hk : ∀ tokens a, Reads (k a) fun others b rest =>
      (others = tokens ∧ a = absent) ∨ post tokens a others → all tokens b rest) :
    Reads (sees skip >>= fun isAbsent =>
      if isAbsent = true then Pure.pure absent >>= k else present >>= k) all := by
  refine (sees_reads skip).bind fun tokens isAbsent => ?_
  cases isAbsent with
  | true => exact (hk tokens absent).imp fun _ _ _ h hseen => h (.inl ⟨hseen.1, rfl⟩)
  | false =>
    refine hpresent.bind fun others a => (hk tokens a).imp fun _ _ _ h hpost hseen => h (.inr ?_)
    exact hseen.1 ▸ hpost

/-- What may be read is read, or is not there. -/
theorem accept?_reads (p : Token → Bool) : Reads (accept? p) fun tokens t? rest =>
    (∀ t, t? = some t → p t = true ∧ tokens = t :: rest) ∧
      (t? = none → rest = tokens ∧ tokens.head?.any p = false) := by
  refine reads_of_clean fun s _ => ?_
  unfold accept?
  cases hrest : s.rest with
  | nil =>
    refine ⟨none, s, rfl, hrest ▸ List.suffix_refl _, rfl, Nat.le_refl _, rfl, ?_⟩
    exact ⟨fun t ht => (by cases ht), fun _ => ⟨hrest, rfl⟩⟩
  | cons t rest =>
    dsimp only
    cases hp : p t with
    | true =>
      refine ⟨some t, { s with rest }, rfl, List.suffix_cons t rest, rfl, Nat.le_refl _, rfl, ?_⟩
      exact ⟨fun t' ht' => Option.some.inj ht' ▸ ⟨hp, rfl⟩, fun h => (by cases h)⟩
    | false =>
      refine ⟨none, s, rfl, hrest ▸ List.suffix_refl _, rfl, Nat.le_refl _, rfl, ?_⟩
      exact ⟨fun t' ht' => (by cases ht'), fun _ => ⟨hrest, hp⟩⟩

/-- A token that may be there is read exactly if it comes first and has the property. -/
theorem accepts_reads (p : Token → Bool) : Reads (accepts p) fun tokens b rest =>
    (b = true → ∃ t, p t = true ∧ tokens = t :: rest) ∧
      (b = false → rest = tokens ∧ tokens.head?.any p = false) := by
  refine (accept?_reads p).bind fun tokens t? => ?_
  cases t? with
  | none => exact .pure _ fun rest h => ⟨fun hsome => (by cases hsome), fun _ => h.2 rfl⟩
  | some t => exact .pure _ fun rest h => ⟨fun _ => ⟨t, h.1 t rfl⟩, fun hnone => (by cases hnone)⟩

/-- A token that is expected comes first and has the property, if nothing is reported. -/
theorem expect_reads (p : Token → Bool) (cause : SyntaxCause) :
    Reads (expect p cause) fun tokens t rest => p t = true ∧ tokens = t :: rest := by
  refine (accept?_reads p).bind fun tokens t? => ?_
  cases t? with
  | none => exact .fail cause
  | some t => exact .pure t fun rest h => h.1 t rfl

/-- Nothing is claimed of a parser that has recorded an error. -/
theorem report_reads (token : Token) (cause : SyntaxCause) :
    Reads (report token cause) fun _ _ _ => False := fun s _ =>
  ⟨⟨List.suffix_refl _, rfl, Nat.le_refl _, List.prefix_append _ _⟩, fun hclean =>
    absurd hclean (by simp)⟩

end Steps

end Lox.Parser
