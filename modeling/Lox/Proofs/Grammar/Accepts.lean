import Lox.Grammar.Parser

/-!
# What parsers accept

A parser accepts tokens if it reads them without an error from any state in which they come first. How
parsers in a row accept tokens is found step by step, from the first token on.
-/

set_option autoImplicit false

namespace Lox.Parser

/-- A parser reads on from `tokens` to `rest` without reporting anything, and the result is `b` as `view` sees it. -/
def Accepts {α β : Type} (view : α → β) (p : Parser α) (tokens : List Token) (b : β)
    (rest : List Token) : Prop :=
  ∀ s, s.rest = tokens → ∃ a s', p s = .ok a s' ∧ view a = b ∧ s'.rest = rest ∧ s'.errors = s.errors

namespace Accepts

variable {α β γ δ : Type} {view : α → β} {view' : γ → δ} {p : Parser α} {f : α → Parser γ}
  {tokens others rest : List Token} {b : β} {c : δ}

/-- A value is accepted without reading anything. -/
theorem pure {a : α} (h : view a = b) : Accepts view (Pure.pure a) tokens b tokens := fun s hs =>
  ⟨a, s, rfl, h, hs, rfl⟩

/-- A parser behind one that has ended starts where that one did. -/
theorem run_bind {s t : ParserState} {a : α} (h : p s = .ok a t) : (p >>= f) s = f a t := by
  show EStateM.bind p f s = _
  unfold EStateM.bind
  rw [h]

/-- Two parsers in a row accept what they accept one after the other. -/
theorem bind (h : Accepts view p tokens b others)
    (hf : ∀ a, view a = b → Accepts view' (f a) others c rest) : Accepts view' (p >>= f) tokens c rest := by
  intro s hs
  obtain ⟨a, s₁, hp, ha, hs₁, herrors₁⟩ := h s hs
  obtain ⟨d, s₂, hq, hd, hs₂, herrors₂⟩ := hf a ha s₁ hs₁
  exact ⟨d, s₂, (run_bind hp).trans hq, hd, hs₂, herrors₂.trans herrors₁⟩

/-- What is accepted can be changed by a function that the views respect. -/
theorem map {g : α → γ} (h : Accepts view p tokens b rest) (hg : ∀ a, view a = b → view' (g a) = c) :
    Accepts view' (g <$> p) tokens c rest := by
  intro s hs
  obtain ⟨a, s', hp, ha, hs', herrors⟩ := h s hs
  refine ⟨g a, s', ?_, hg a ha, hs', herrors⟩
  show EStateM.map g p s = _
  unfold EStateM.map
  rw [hp]

/-- What is accepted can be wrapped as a result that is there. -/
theorem some (h : Accepts view p tokens b rest) :
    Accepts (Option.map view) (Option.some <$> p) tokens (Option.some b) rest :=
  h.map fun _ ha => congrArg Option.some ha

/-- One parser after another, where the result of the first is known. -/
theorem andThen {a : α} (h : Accepts id p tokens a others) (hf : Accepts view' (f a) others c rest) :
    Accepts view' (p >>= f) tokens c rest :=
  h.bind fun a' ha' => by
    obtain rfl : a' = a := ha'
    exact hf

end Accepts

section Steps

variable {γ δ : Type} {view : γ → δ} {q : Token → Bool} {t : Token} {tokens rest : List Token} {c : δ}

/-- A parser that looks at the next token reads nothing. -/
theorem peek_accepts : Accepts id peek (t :: tokens) t (t :: tokens) := fun s hs =>
  ⟨t, s, by rw [peek, hs]; rfl, rfl, hs, rfl⟩

/-- A parser that goes on reads one token. -/
theorem advance_accepts : Accepts id advance (t :: tokens) () tokens := fun s hs =>
  ⟨(), { s with rest := s.rest.tail }, rfl, rfl, by rw [hs]; rfl, rfl⟩

/-- A parser that asks about the next token reads nothing. -/
theorem sees_accepts (q : Token → Bool) (tokens : List Token) :
    Accepts id (sees q) tokens (tokens.head?.any q) tokens := fun s hs =>
  ⟨tokens.head?.any q, s, by rw [sees, hs], rfl, hs, rfl⟩

/-- A parser that asks for the end reads nothing. -/
theorem atEnd_accepts (tokens : List Token) : Accepts id atEnd tokens tokens.isEmpty tokens := fun s hs =>
  ⟨tokens.isEmpty, s, by rw [atEnd, hs], rfl, hs, rfl⟩

/-- Any number may be handed out. -/
theorem fresh_accepts {f : Occurrence → Parser γ} (hf : ∀ id, Accepts view (f id) tokens c rest) :
    Accepts view (fresh >>= f) tokens c rest := fun s hs =>
  hf s.nextId { s with nextId := s.nextId + 1 } hs

/-- An optional token is read if it is there. -/
theorem accept?_some (h : q t = true) : Accepts id (accept? q) (t :: tokens) (some t) tokens := fun s hs =>
  ⟨some t, { s with rest := tokens }, by rw [accept?, hs]; exact if_pos h, rfl, rfl, rfl⟩

/-- An optional token is missing if the next one is another. -/
theorem accept?_none (h : tokens.head?.any q = false) : Accepts id (accept? q) tokens none tokens := by
  intro s hs
  refine ⟨none, s, ?_, rfl, hs, rfl⟩
  unfold accept?
  cases tokens with
  | nil => rw [hs]
  | cons t tokens =>
    rw [hs]
    exact if_neg (Bool.eq_false_iff.mp h)

/-- A token that may be there is read if it is. -/
theorem accepts_true (h : q t = true) : Accepts id (accepts q) (t :: tokens) true tokens :=
  (accept?_some h).andThen (.pure rfl)

/-- A token that may be there is left out if the next one is another. -/
theorem accepts_false (h : tokens.head?.any q = false) : Accepts id (accepts q) tokens false tokens :=
  (accept?_none h).andThen (.pure rfl)

/-- A token that is expected is read if it is there. -/
theorem expect_accepts (h : q t = true) (cause : SyntaxCause) :
    Accepts id (expect q cause) (t :: tokens) t tokens :=
  (accept?_some h).andThen (.pure rfl)

/-- A part that is left out if a token with the property `skip` comes next. -/
theorem Accepts.optional {α β : Type} (present : α → β) {skip : Token → Bool} {absent : α} {p : Parser α}
    {f : α → Parser γ} (others : List Token) {b : β}
    (h : (tokens.head?.any skip = true ∧ others = tokens ∧ present absent = b) ∨
      (tokens.head?.any skip = false ∧ Accepts present p tokens b others))
    (hf : ∀ a, present a = b → Accepts view (f a) others c rest) :
    Accepts view
      (sees skip >>= fun isAbsent => if isAbsent = true then Pure.pure absent >>= f else p >>= f) tokens c
      rest := by
  refine (sees_accepts skip tokens).andThen ?_
  rcases h with ⟨hskip, rfl, habsent⟩ | ⟨hskip, hp⟩
  · rw [hskip]
    exact hf absent habsent
  · rw [hskip]
    exact hp.bind hf

end Steps

end Lox.Parser
