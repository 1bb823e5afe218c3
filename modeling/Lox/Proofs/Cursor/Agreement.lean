import Mathlib
import Lox.Proofs.Cursor.Steps
import Lox.Proofs.Grammar.FollowsSteps
import Lox.Proofs.Tree.Bearers

/-!
# Agreement of the two parsers

A rule at a position agrees with the rule that runs, if from a cursor that shows a state it comes to the same
result and to a cursor that shows the state then reached; so it stops only at the errors of the other. The
trees that it yields bear exactly the numbers of the operands that it has recorded, if it reports nothing. So
that rules in a row compose, a rule is told which numbered uses, `base`, its result takes over from before.
-/

set_option autoImplicit false

namespace Lox.Cursor

open Renumberable (renumber bearers)

section Relation

variable {α : Type} [Renumberable α] (input : Input) (f : Occurrence → Occurrence) (c₀ : Cursor)

/-- The rule `q` does from the cursor `c` what the rule `p` does from the state `s`, and reads at least `k` tokens. -/
def AgreesAt (k : Nat) (base : Multiset (Occurrence × Token)) (p : Parser α) (q : Reading α)
    (s : ParserState) (c : Cursor) : Prop :=
  match p s with
  | .ok a t => ∃ c', q c = .ok (renumber f a) c' ∧ Shows input f c₀ c' t ∧ Later k c c' ∧
    (c'.errors = c.errors → bearers (renumber f a) + c.noted = base + c'.noted)
  | .error e t => ∃ c', q c = .error (.fault e) c' ∧ Shows input f c₀ c' t ∧ Later 0 c c'

/-- The rules agree where fewer than `n` tokens are left. -/
def Agrees (n k : Nat) (base : Multiset (Occurrence × Token)) (p : Parser α) (q : Reading α) : Prop :=
  ∀ s c, Shows input f c₀ c s → s.rest.length < n → AgreesAt input f c₀ k base p q s c

end Relation

variable {α β : Type} [Renumberable α] [Renumberable β] {input : Input} {f : Occurrence → Occurrence} {c₀ c : Cursor}
  {s : ParserState} {n j k : Nat} {base : Multiset (Occurrence × Token)}

namespace AgreesAt

variable {p : Parser α} {q : Reading α}

/-- Only what the rules do where they stand matters. -/
theorem of_eq {p' : Parser α} {q' : Reading α} (hp : p s = p' s) (hq : q c = q' c)
    (h : AgreesAt input f c₀ k base p' q' s c) : AgreesAt input f c₀ k base p q s c := by
  unfold AgreesAt at h ⊢
  rwa [hp, hq]

/-- Rules that read so many tokens also read fewer at least. -/
theorem weaken (h : AgreesAt input f c₀ j base p q s c) (hk : k ≤ j) :
    AgreesAt input f c₀ k base p q s c := by
  unfold AgreesAt at h ⊢
  split at h
  · obtain ⟨c', hq, hshows, hlater, hbearers⟩ := h
    exact ⟨c', hq, hshows, hlater.weaken hk, hbearers⟩
  · exact h

/-- Two values agree if the second is the first with its numbers seen through `f`. -/
theorem pure {a b : α} (hshows : Shows input f c₀ c s) (hb : b = renumber f a) (hbase : bearers b = base) :
    AgreesAt input f c₀ 0 base (Pure.pure a) (Pure.pure b) s c :=
  ⟨c, by rw [hb]; rfl, hshows, .refl c, fun _ => by rw [← hb, hbase]⟩

/-- Both rules fail at the same token, and for the same cause. -/
theorem fail (hshows : Shows input f c₀ c s) (cause : SyntaxCause) :
    AgreesAt input f c₀ k base (Parser.fail cause : Parser α) (Reading.fail cause) s c :=
  ⟨c, hshows.fail_eq cause, hshows, .refl c⟩

/-- Rules that go on one token later agree. -/
theorem step {rest : List Token} {p' : Parser α} {q' : Reading α} (hp : p s = p' { s with rest })
    (hq : q c = q' c.step) (h : AgreesAt input f c₀ k base p' q' { s with rest } c.step) :
    AgreesAt input f c₀ (k + 1) base p q s c := by
  have hlater {c' : Cursor} {j : Nat} (h : Later j c.step c') : Later (j + 1) c c' :=
    ⟨by have := h.current; simp only [Cursor.step] at this; omega, h.errors⟩
  unfold AgreesAt at h ⊢
  rw [hp, hq]
  split at h
  · obtain ⟨c', hq', hshows, hl, hbearers⟩ := h
    exact ⟨c', hq', hshows, hlater hl, hbearers⟩
  · obtain ⟨c', hq', hshows, hl⟩ := h
    exact ⟨c', hq', hshows, (hlater hl).weaken (Nat.zero_le _)⟩

/-- Rules in a row agree if each does. -/
theorem bind {g : α → Parser β} {g' : α → Reading β} (hp : AgreesAt input f c₀ j 0 p q s c)
    (hg : ∀ a t c', Shows input f c₀ c' t → Later j c c' →
      AgreesAt input f c₀ (k - j) (base + bearers (renumber f a)) (g a) (g' (renumber f a)) t c') :
    AgreesAt input f c₀ k base (p >>= g) (q >>= g') s c := by
  unfold AgreesAt at hp ⊢
  simp only [Bind.bind, EStateM.bind]
  cases hps : p s with
  | error e t =>
    rw [hps] at hp
    obtain ⟨c', hq, hshows, hlater⟩ := hp
    rw [hq]
    exact ⟨c', rfl, hshows, hlater⟩
  | ok a t =>
    rw [hps] at hp
    obtain ⟨c', hq, hshows, hlater, hbearers⟩ := hp
    have hsecond := hg a t c' hshows hlater
    unfold AgreesAt at hsecond
    rw [hq]
    dsimp only
    cases hgt : g a t with
    | error e u =>
      rw [hgt] at hsecond
      obtain ⟨c'', hq', hshows', hlater'⟩ := hsecond
      exact ⟨c'', hq', hshows', (hlater.trans hlater').weaken (Nat.zero_le _)⟩
    | ok b u =>
      rw [hgt] at hsecond
      obtain ⟨c'', hq', hshows', hlater', hbearers'⟩ := hsecond
      refine ⟨c'', hq', hshows', (hlater.trans hlater').weaken (by omega), fun hclean => ?_⟩
      have hclean₁ := hlater.errors_eq hlater' hclean
      have hfirst := hbearers hclean₁
      have hall := hbearers' (hclean.trans hclean₁.symm)
      -- what the first result bears is what was recorded before the second
      refine add_right_cancel (b := c'.noted) ?_
      rw [zero_add] at hfirst
      calc bearers (renumber f b) + c.noted + c'.noted
          = bearers (renumber f b) + c'.noted + c.noted := add_right_comm _ _ _
        _ = base + bearers (renumber f a) + c''.noted + c.noted := by rw [hall]
        _ = base + (bearers (renumber f a) + c.noted) + c''.noted := by
          rw [add_right_comm, add_assoc base]
        _ = base + c''.noted + c'.noted := by rw [hfirst, add_right_comm]

end AgreesAt

namespace Agrees

variable {p : Parser α} {q : Reading α}

/-- Rules that agree also do so where fewer tokens are left. -/
theorem fewer (h : Agrees input f c₀ j k base p q) (hn : n ≤ j) : Agrees input f c₀ n k base p q :=
  fun s c hshows hlength => h s c hshows (Nat.lt_of_lt_of_le hlength hn)

/-- Rules that agree, having read so many tokens, also do so having read fewer at least. -/
theorem weaken (h : Agrees input f c₀ n j base p q) (hk : k ≤ j) : Agrees input f c₀ n k base p q :=
  fun s c hshows hlength => (h s c hshows hlength).weaken hk

/-- Rules agree that only yield values, if these do. -/
theorem pure {a b : α} (hb : b = renumber f a) (hbase : bearers b = base) :
    Agrees input f c₀ n 0 base (Pure.pure a) (Pure.pure b) := fun _ _ hshows _ => .pure hshows hb hbase

/-- One rule after another; where the first has read tokens, fewer are left. -/
theorem bind {g : α → Parser β} {g' : α → Reading β} (hp : Agrees input f c₀ n j 0 p q)
    (hg : ∀ a, Agrees input f c₀ (n - j) (k - j) (base + bearers (renumber f a)) (g a) (g' (renumber f a))) :
    Agrees input f c₀ n k base (p >>= g) (q >>= g') := by
  intro s c hshows hlength
  refine (hp s c hshows hlength).bind fun a t c' hshows' hlater => hg a t c' hshows' ?_
  have h₁ := hshows.length
  have h₂ := hshows'.length
  have h₃ := hlater.current
  omega

/-- What a rule yields may be used in another form. -/
theorem map {g g' : α → β} (hp : Agrees input f c₀ n k 0 p q)
    (hg : ∀ a, g' (renumber f a) = renumber f (g a))
    (hbearers : ∀ a, bearers (g' (renumber f a)) = base + bearers (renumber f a)) :
    Agrees input f c₀ n k base (g <$> p) (g' <$> q) := by
  simp only [map_eq_pure_bind]
  refine hp.bind fun a => ?_
  rw [Nat.sub_self]
  exact .pure (hg a) (hbearers a)

section Plain

variable {g g' : Bool → Parser α} {r r' : Bool → Reading α}

/-- Rules agree behind a look at whether a token comes next if they do for both answers. -/
theorem sees {P : Token → Bool} (h : ∀ b, Agrees input f c₀ n k base (g b) (r b)) :
    Agrees input f c₀ n k base (Parser.sees P >>= g) (Reading.check P >>= r) := by
  intro s c hshows hlength
  exact (h (s.rest.head?.any P) s c hshows hlength).of_eq rfl (Reading.bind_ok (hshows.check_eq P))

/-- Rules agree behind a look at the next token if they do for every token. -/
theorem peek {g : Token → Parser α} {r : Token → Reading α}
    (h : ∀ t, Agrees input f c₀ n k base (g t) (r t)) :
    Agrees input f c₀ n k base (Parser.peek >>= g) (Reading.peek >>= r) := by
  intro s c hshows hlength
  exact (h (s.rest.headD s.last) s c hshows hlength).of_eq rfl (Reading.bind_ok hshows.peek_eq)

/-- Rules agree behind an optional token if they do with it and without it. -/
theorem accept? {P : Token → Bool} {g : Option Token → Parser α} {r : Option Token → Reading α}
    (hnone : Agrees input f c₀ n k base (g none) (r none))
    (hsome : ∀ t, Agrees input f c₀ (n - 1) (k - 1) base (g (some t)) (r (some t))) :
    Agrees input f c₀ n k base (Parser.accept? P >>= g) (Reading.accept? P >>= r) := by
  intro s c hshows hlength
  have hp := Parser.accept?_bind_apply P g s
  have hq := hshows.accept?_bind P r
  cases hs : s.rest with
  | nil =>
    rw [hs] at hp hq
    exact (hnone s c hshows hlength).of_eq hp hq
  | cons t rest =>
    rw [hs] at hp hq
    cases hPt : P t with
    | false =>
      simp only [hPt, Bool.false_eq_true, if_false] at hp hq
      exact (hnone s c hshows hlength).of_eq hp hq
    | true =>
      simp only [hPt, if_true] at hp hq
      rw [hs, List.length_cons] at hlength
      have hbehind := hsome t _ _ (hshows.step hs) (show rest.length < n - 1 by omega)
      exact (hbehind.step hp hq).weaken (by omega)

/-- A rule that reads the next token if it has a property, and forgets it. -/
theorem accepts {P : Token → Bool} (hfalse : Agrees input f c₀ n k base (g false) (r false))
    (htrue : Agrees input f c₀ (n - 1) (k - 1) base (g true) (r true)) :
    Agrees input f c₀ n k base (Parser.accepts P >>= g) (Reading.accepts P >>= r) := by
  intro s c hshows hlength
  have hp : (Parser.accepts P >>= g) s = (Parser.accept? P >>= fun t => g t.isSome) s := by
    simp only [Parser.accepts, bind_assoc, pure_bind]
  rw [Parser.accept?_bind_apply] at hp
  have hq := hshows.accepts_bind P r
  cases hs : s.rest with
  | nil =>
    rw [hs] at hp hq
    exact (hfalse s c hshows hlength).of_eq hp hq
  | cons t rest =>
    rw [hs] at hp hq
    rw [List.head?_cons, Option.any_some] at hq
    cases hPt : P t with
    | false =>
      simp only [hPt, Bool.false_eq_true, if_false] at hp hq
      exact (hfalse s c hshows hlength).of_eq hp hq
    | true =>
      simp only [hPt, if_true] at hp hq
      rw [hs, List.length_cons] at hlength
      have hbehind := htrue _ _ (hshows.step hs) (show rest.length < n - 1 by omega)
      exact (hbehind.step hp hq).weaken (by omega)

/-- A token that must come next is read, or both rules fail at it. -/
theorem expect (P : Token → Bool) (cause : SyntaxCause) :
    Agrees input f c₀ n 1 0 (Parser.expect P cause) (Reading.expect P cause) := by
  intro s c hshows _
  have hp := Parser.expect_apply P cause s
  have hq := hshows.expect_eq P cause
  unfold AgreesAt
  cases hs : s.rest with
  | nil =>
    rw [hs] at hp hq
    rw [hp]
    refine ⟨c, ?_, hshows, .refl c⟩
    rw [hq, hs]
    rfl
  | cons t rest =>
    rw [hs] at hp hq
    cases hPt : P t with
    | false =>
      simp only [hPt, Bool.false_eq_true, if_false] at hp hq
      rw [hp]
      refine ⟨c, ?_, hshows, .refl c⟩
      rw [hq, hs]
      rfl
    | true =>
      simp only [hPt, if_true] at hp hq
      rw [hp]
      exact ⟨c.step, hq, hshows.step hs, ⟨Nat.le_refl _, List.prefix_refl _⟩, fun _ => rfl⟩

/-- Nothing is claimed of what a rule bears that has reported an error. -/
theorem report {g : Parser α} {r : Reading α} {t : Token} {cause : SyntaxCause}
    {base' : Multiset (Occurrence × Token)} (h : Agrees input f c₀ n k base' g r) :
    Agrees input f c₀ n k base (Parser.report t cause >>= fun _ => g)
      (Reading.report t cause >>= fun _ => r) := by
  intro s c hshows hlength
  have hagrees := h _ _ (hshows.recorded ⟨t, cause⟩) hlength
  have hlater {c' : Cursor} {j : Nat} (h : Later j (c.recorded ⟨t, cause⟩) c') : Later j c c' :=
    ⟨h.current, (List.prefix_append _ _).trans h.errors⟩
  unfold AgreesAt at hagrees ⊢
  have hp : (Parser.report t cause >>= fun _ => g) s =
      g { s with errors := s.errors ++ [⟨t, cause⟩] } := rfl
  have hq : (Reading.report t cause >>= fun _ => r) c = r (c.recorded ⟨t, cause⟩) := rfl
  rw [hp, hq]
  split at hagrees
  · obtain ⟨c', hq', hshows', hl, -⟩ := hagrees
    refine ⟨c', hq', hshows', hlater hl, fun hclean => ?_⟩
    have hle := hl.errors.length_le
    rw [hclean] at hle
    simp [Cursor.recorded] at hle
  · obtain ⟨c', hq', hshows', hl⟩ := hagrees
    exact ⟨c', hq', hshows', hlater hl⟩

/-- Rules agree where both report the next token first, or neither does. -/
theorem reportIf {P : Prop} [Decidable P] {cause : SyntaxCause} {g : Parser α} {r : Reading α}
    (h : Agrees input f c₀ n k base g r) :
    Agrees input f c₀ n k base
      (do
        if P then Parser.report (← Parser.peek) cause
        g)
      (do
        if P then Reading.report (← Reading.peek) cause
        r) := by
  by_cases hP : P
  · simp only [if_pos hP]
    exact .peek fun t => .report h
  · simp only [if_neg hP]
    exact h

end Plain

end Agrees

namespace AgreesAt

variable {q : Reading α}

/-- Behind a look at the next token, rules agree that agree for this token. -/
theorem peek {g : Token → Parser α} (h : AgreesAt input f c₀ k base (g (s.rest.headD s.last)) q s c) :
    AgreesAt input f c₀ k base (Parser.peek >>= g) q s c :=
  h.of_eq rfl rfl

/-- A rule that goes on behind the next token, which it has looked at. -/
theorem advance {t : Token} {rest : List Token} (hshows : Shows input f c₀ c s) (hs : s.rest = t :: rest)
    (hlength : s.rest.length < n + 1) {p : Parser α} {q' : Reading α} (h : Agrees input f c₀ n k base p q')
    (hq : q c = q' c.step) : AgreesAt input f c₀ 1 base (Parser.advance >>= fun _ => p) q s c := by
  rw [hs, List.length_cons] at hlength
  exact .step (Parser.advance_bind hs) hq
    ((h _ _ (hshows.step hs) (Nat.lt_of_succ_lt_succ hlength)).weaken (Nat.zero_le k))

end AgreesAt

end Lox.Cursor
