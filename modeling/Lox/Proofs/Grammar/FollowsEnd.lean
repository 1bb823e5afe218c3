import Lox.Proofs.Grammar.FollowsSteps

/-!
# Parsers at the end of the input

Where the first of two linked states has no tokens left, a rule that needs an expression fails and a loop
ends, whatever the bounds. So the statements about rules are proved by induction on the number of tokens
left.
-/

set_option autoImplicit false

namespace Lox

namespace Parser

variable {α β γ : Type} {V : Respelling} {before : List SyntaxError} {ahead : List Token} {inside : Bool}
  {n k : Nat} {view : α → β} {p p' : Parser α}

/-- A parser fails for want of an expression if a token of this kind comes next. -/
def FailsOn (kind : Kind) (p : Parser α) : Prop :=
  ∀ s : ParserState, (s.rest.headD s.last).kind = kind →
    p s = .error ⟨s.rest.headD s.last, .noExpression⟩ s

/-- A parser fails if its first step does. -/
theorem FailsOn.bind {kind : Kind} (h : FailsOn kind p) (f : α → Parser γ) : FailsOn kind (p >>= f) := by
  intro s hs
  show EStateM.bind p f s = _
  rw [EStateM.bind, h s hs]

/-- A parser that fails for want of an expression does so at any token. -/
theorem FailsOn.fail (kind : Kind) : FailsOn kind (Parser.fail .noExpression : Parser α) :=
  fun _ _ => rfl

/-- A parser that looks at the next token first fails if it fails on such tokens. -/
theorem FailsOn.peek {kind : Kind} {f : Token → Parser α}
    (h : ∀ t, t.kind = kind → FailsOn kind (f t)) : FailsOn kind (Parser.peek >>= f) :=
  fun s hs => h _ hs s hs

/-- Parsers that need an expression follow each other where nothing is left. -/
theorem FailsOn.follows (h : FailsOn .eof p) (h' : FailsOn .eof p') :
    Follows V before ahead inside 0 k view p p' := by
  intro s s' hlinked hlength
  have hs : s.rest = [] := List.length_eq_zero_iff.mp (Nat.le_zero.mp hlength)
  have hends : (s.rest.headD s.last).kind = .eof := by
    rw [hs]
    exact hlinked.ends
  rw [FollowsAt, h s hends]
  refine ⟨.refl s, rfl, fun hundisturbed => ?_⟩
  have hnext := hlinked.next hundisturbed.next
  refine ⟨_, s', h' s' ((kind_eq hnext).trans hends), ?_, hlinked⟩
  rw [SyntaxError.respell, SyntaxError.respell, hnext]

/-- A parser that chooses by the next token, and fails if there is none. -/
theorem Follows.choose {f f' : Token → Parser α} (h : ∀ t, t.kind = .eof → FailsOn .eof (f t))
    (h' : ∀ t, t.kind = .eof → FailsOn .eof (f' t))
    (hnext : ∀ s s' t t' rest, Linked V before ahead s s' → s.rest = t :: rest → s.rest.length ≤ n →
      t'.respell V = t.respell V → FollowsAt V before ahead inside k view (f t) (f' t') s s') :
    Follows V before ahead inside n k view (Parser.peek >>= f) (Parser.peek >>= f') := by
  intro s s' hlinked hlength
  cases hs : s.rest with
  | nil => exact (FailsOn.peek h).follows (FailsOn.peek h') s s' hlinked (by simp [hs])
  | cons t rest =>
    obtain ⟨t', rest', hs', ht', -⟩ := hlinked.cons hs
    have hchosen := hnext s s' t t' rest hlinked hs hlength ht'
    have hfirst : (Parser.peek >>= f) s = f t s := by
      show f (s.rest.headD s.last) s = _
      rw [hs, List.headD_cons]
    have hsecond : (Parser.peek >>= f') s' = f' t' s' := by
      show f' (s'.rest.headD s'.last) s' = _
      rw [hs', List.headD_cons]
    exact hchosen.of_eq hfirst hsecond

/-- Loops that end where nothing is left follow each other there. -/
theorem follows_at_end {a a' : α} (h : ∀ s : ParserState, s.rest = [] → p s = .ok a s)
    (h' : ∀ s : ParserState, s.rest = [] → p' s = .ok a' s) (hview : view a' = view a) :
    Follows V before ahead true 0 0 view p p' := by
  intro s s' hlinked hlength
  have hs : s.rest = [] := List.length_eq_zero_iff.mp (Nat.le_zero.mp hlength)
  rw [FollowsAt, h s hs]
  refine ⟨.refl s, Nat.le_refl _, fun hundisturbed => ?_⟩
  obtain rfl := hundisturbed.of_rest_eq_nil hs
  exact ⟨a', s', h' s' (hlinked.rest_eq_nil hs), hview, hlinked⟩

/-- Nothing is accepted where nothing is left. -/
theorem accept?_end {α : Type} (P : Token → Bool) (f : Option Token → Parser α) {s : ParserState}
    (h : s.rest = []) : (accept? P >>= f) s = f none s := by
  show EStateM.bind (accept? P) f s = _
  rw [EStateM.bind, accept?, h]

end Parser

end Lox
