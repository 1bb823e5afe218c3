import Lox.Proofs.Grammar.Yields
import Lox.Proofs.Tree.Respell

/-!
# Parsers that follow each other

The same rules are run on two inputs. Seen through a respelling that may take away occurrence numbers, lines or
spellings, the inputs are the same, but for tokens `ahead` that come behind in the second one, and errors
`before` that it has recorded already. If nothing comes behind, the two runs are the same in all they do.
If something comes behind, they are the same as long as the first run stays inside its own tokens: a
parser that looks for more at the end of the first input may find it in the second. An error does not take
the first run out of its tokens, if it is not found at their end and if they end with a semicolon, behind
which the skipping of tokens stops.

The two runs may also have different bounds. So the statements carry how many tokens are left at most,
and how many tokens a parser reads at least.
-/

set_option autoImplicit false

namespace Lox

/-- The error at the relabeled token. -/
def SyntaxError.relabel (R : Relabeling) (e : SyntaxError) : SyntaxError :=
  ⟨e.token.relabel R, e.cause⟩

/-- The error at the respelled token. -/
def SyntaxError.respell (V : Respelling) (e : SyntaxError) : SyntaxError :=
  ⟨e.token.respell V, e.cause⟩

/-- Respelling an error by a relabeling relabels it. -/
@[simp] theorem SyntaxError.respell_respelling (R : Relabeling) (e : SyntaxError) :
    e.respell R.respelling = e.relabel R := rfl

/-- The state in which an error is recorded. -/
def ParserState.recorded (s : ParserState) (e : SyntaxError) : ParserState :=
  { s with errors := s.errors ++ [e] }

namespace Parser

/-- Two states are the same through `V`, but for the tokens `ahead` behind the rest of the second and the errors
`before` that only the second has. -/
structure Linked (V : Respelling) (before : List SyntaxError) (ahead : List Token)
    (s s' : ParserState) : Prop where
  rest : s'.rest.map (·.respell V) = (s.rest ++ ahead).map (·.respell V)
  last : s'.last.respell V = s.last.respell V
  ends : s.last.kind = .eof
  errors : s'.errors.map (·.respell V) = (before ++ s.errors).map (·.respell V)
  /-- The numbers that the two hand out next are the same. -/
  numbers : ∀ k, V.occurrence (s'.nextId + k) = V.occurrence (s.nextId + k)

/-- Tokens end with a semicolon, if there are any. -/
def Closed (tokens : List Token) : Prop := ∀ t ∈ tokens.getLast?, t.isSymbol .semicolon = true

/-- Tokens that end with a semicolon also do so when some of them are read. -/
theorem Closed.suffix {tokens rest : List Token} (h : Closed tokens) (hrest : rest <:+ tokens) :
    Closed rest := by
  obtain ⟨read, rfl⟩ := hrest
  intro t ht
  refine h t ?_
  rw [List.getLast?_append, Option.mem_def.mp ht]
  rfl

/-- No error that a run has reported is at the end of its tokens, and these are closed if there are any errors. -/
def Contained (s t : ParserState) : Prop :=
  ∃ found, t.errors = s.errors ++ found ∧ (∀ e ∈ found, e.token.isEof = false) ∧
    (found ≠ [] → Closed s.rest)

namespace Contained

variable {s t u : ParserState}

/-- What is contained in two steps is contained in each. -/
theorem both (h : Contained s u) (hfirst : Advances s t) (hsecond : Advances t u) :
    Contained s t ∧ Contained t u := by
  obtain ⟨found, hfound, hinside, hclosed⟩ := h
  obtain ⟨found₁, hfound₁⟩ := hfirst.errors
  obtain ⟨found₂, hfound₂⟩ := hsecond.errors
  obtain rfl : found = found₁ ++ found₂ := by
    rw [← hfound₂, ← hfound₁, List.append_assoc] at hfound
    exact (List.append_cancel_left hfound).symm
  obtain ⟨hinside₁, hinside₂⟩ := List.forall_mem_append.mp hinside
  exact ⟨⟨found₁, hfound₁.symm, hinside₁, fun hne => hclosed (by simp [hne])⟩,
    found₂, hfound₂.symm, hinside₂, fun hne => (hclosed (by simp [hne])).suffix hfirst.rest⟩

end Contained

/-- Nothing comes behind, or the errors of a run are contained and it has not, where `inside` asks for this, come to
the end of its tokens. -/
def Undisturbed (ahead : List Token) (inside : Bool) (s t : ParserState) : Prop :=
  ahead = [] ∨ Contained s t ∧ (inside = true → t.rest ≠ [])

/-- A parser that records an error has gone on. -/
theorem Advances.recorded {s t : ParserState} (h : Advances s t) (e : SyntaxError) :
    Advances s (t.recorded e) :=
  ⟨h.rest, h.last, h.nextId, h.errors.trans (List.prefix_append _ _)⟩

section Relation

variable {α β γ δ : Type} (V : Respelling) (before : List SyntaxError) (ahead : List Token)
  (inside : Bool)

/-- The second parser does from `s'` what the first does from `s`, as `view` sees the results, and the first reads at
least `k` tokens. An error blames the token at which it stops the first. -/
def FollowsAt (k : Nat) (view : α → β) (p p' : Parser α) (s s' : ParserState) : Prop :=
  match p s with
  | .ok a t => Advances s t ∧ t.rest.length + k ≤ s.rest.length ∧
    (Undisturbed ahead inside s t →
      ∃ a' t', p' s' = .ok a' t' ∧ view a' = view a ∧ Linked V before ahead t t')
  | .error e t => Advances s t ∧ e.token = t.rest.headD t.last ∧
    (Undisturbed ahead true s (t.recorded e) →
      ∃ e' t', p' s' = .error e' t' ∧ e'.respell V = e.respell V ∧ Linked V before ahead t t')

/-- The second parser does what the first does where at most `n` tokens are left. -/
def Follows (n k : Nat) (view : α → β) (p p' : Parser α) : Prop :=
  ∀ s s', Linked V before ahead s s' → s.rest.length ≤ n → FollowsAt V before ahead inside k view p p' s s'

end Relation

section Rules

variable {α β γ δ : Type} {V : Respelling} {before : List SyntaxError} {ahead : List Token} {inside inside₁ : Bool}
  {n k j l : Nat} {view : α → β} {view' : γ → δ} {p p' : Parser α} {f f' : α → Parser γ}
  {s s' : ParserState}

/-- Any state is linked to one with more tokens behind and more errors before. -/
theorem Linked.behind (h : s.last.kind = .eof) :
    Linked V before ahead s { s with rest := s.rest ++ ahead, errors := before ++ s.errors } :=
  ⟨rfl, rfl, h, rfl, fun _ => rfl⟩

/-- Of linked states, the second has exactly the tokens `ahead` more. -/
theorem Linked.length (h : Linked V before ahead s s') :
    s'.rest.length = s.rest.length + ahead.length := by
  have hlength := congrArg List.length h.rest
  simpa using hlength

/-- The next tokens of linked states, if there are any in the first. -/
theorem Linked.cons (h : Linked V before ahead s s') {t : Token} {rest : List Token}
    (hs : s.rest = t :: rest) :
    ∃ t' rest', s'.rest = t' :: rest' ∧ t'.respell V = t.respell V ∧
      Linked V before ahead { s with rest } { s' with rest := rest' } := by
  have hrest := h.rest
  rw [hs, List.cons_append, List.map_cons] at hrest
  obtain ⟨t', rest', hs', ht', hrest'⟩ := List.map_eq_cons_iff.mp hrest
  exact ⟨t', rest', hs', ht', hrest', h.last, h.ends, h.errors, h.numbers⟩

/-- What is left in the second state where nothing is left in the first. -/
theorem Linked.nil (h : Linked V before ahead s s') (hs : s.rest = []) :
    s'.rest.map (·.respell V) = ahead.map (·.respell V) := by
  rw [h.rest, hs, List.nil_append]

/-- Where nothing comes behind, both states are at the end of their tokens. -/
theorem Linked.rest_eq_nil (h : Linked V before [] s s') (hs : s.rest = []) : s'.rest = [] := by
  simpa [hs] using h.rest

/-- The next tokens of linked states where something is left, or nothing comes behind. -/
theorem Linked.next (h : Linked V before ahead s s') (hs : ahead = [] ∨ s.rest ≠ []) :
    (s'.rest.headD s'.last).respell V = (s.rest.headD s.last).respell V := by
  cases hrest : s.rest with
  | nil =>
    obtain rfl := hs.resolve_right fun hne => hne hrest
    rw [h.rest_eq_nil hrest]
    exact h.last
  | cons t rest =>
    obtain ⟨t', rest', hs', ht', -⟩ := h.cons hrest
    rw [hs']
    exact ht'

/-- Inside, something is left unless nothing comes behind. -/
theorem Undisturbed.next {t : ParserState} (h : Undisturbed ahead true s t) :
    ahead = [] ∨ t.rest ≠ [] := h.imp_right fun h => h.2 rfl

/-- A run that has come to the end of its tokens is undisturbed only if nothing comes behind. -/
theorem Undisturbed.of_rest_eq_nil {t : ParserState} (h : Undisturbed ahead true s t)
    (hrest : t.rest = []) : ahead = [] :=
  h.next.resolve_right fun h => h hrest

/-- If two steps are undisturbed, so is the second. -/
theorem Undisturbed.second {t u : ParserState} (h : Undisturbed ahead inside s u)
    (hfirst : Advances s t) (hsecond : Advances t u) : Undisturbed ahead inside t u :=
  h.imp_right fun h => ⟨(h.1.both hfirst hsecond).2, h.2⟩

/-- If two steps are undisturbed, so is the first, unless it comes to the end. -/
theorem Undisturbed.first {t u : ParserState} (h : Undisturbed ahead inside s u)
    (hfirst : Advances s t) (hsecond : Advances t u) (hinside : inside₁ = true → t.rest ≠ []) :
    Undisturbed ahead inside₁ s t :=
  h.imp_right fun h => ⟨(h.1.both hfirst hsecond).1, hinside⟩

/-- A parser that is followed where it stands reads on. -/
theorem FollowsAt.pure {a a' : α} (h : view a' = view a) (hlinked : Linked V before ahead s s') :
    FollowsAt V before ahead inside 0 view (Pure.pure a) (Pure.pure a') s s' :=
  ⟨.refl s, Nat.le_refl _, fun _ => ⟨a', s', rfl, h, hlinked⟩⟩

/-- Two parsers that fail for the same cause blame linked tokens. -/
theorem FollowsAt.fail (hlinked : Linked V before ahead s s') (cause : SyntaxCause) :
    FollowsAt V before ahead inside k view (Parser.fail cause) (Parser.fail cause) s s' := by
  refine ⟨.refl s, rfl, fun hundisturbed => ⟨_, s', rfl, ?_, hlinked⟩⟩
  rw [SyntaxError.respell, SyntaxError.respell, hlinked.next hundisturbed.next]

/-- Fewer tokens are read at least, and only ends inside are asked for. -/
theorem FollowsAt.weaken (h : FollowsAt V before ahead inside₁ j view p p' s s') (hk : k ≤ j)
    (hinside : inside₁ = true → inside = true) : FollowsAt V before ahead inside k view p p' s s' := by
  unfold FollowsAt at h ⊢
  split at h
  · obtain ⟨hadvances, hlength, hok⟩ := h
    refine ⟨hadvances, Nat.le_trans (Nat.add_le_add_left hk _) hlength, fun hundisturbed => hok ?_⟩
    exact hundisturbed.imp_right fun h => ⟨h.1, fun hin => h.2 (hinside hin)⟩
  · exact h

/-- One parser after another. The first may come to the end of its tokens only if the second may. -/
theorem FollowsAt.bind (hlinked : Linked V before ahead s s')
    (hp : FollowsAt V before ahead inside₁ j view p p' s s')
    (hf : ∀ a a' t t', view a' = view a → Linked V before ahead t t' →
      t.rest.length + j ≤ s.rest.length → FollowsAt V before ahead inside l view' (f a) (f' a') t t')
    (hinside : inside₁ = true → inside = true ∨ 0 < l) :
    FollowsAt V before ahead inside (j + l) view' (p >>= f) (p' >>= f') s s' := by
  unfold FollowsAt at hp ⊢
  simp only [Bind.bind, EStateM.bind]
  cases hps : p s with
  | error e t =>
    rw [hps] at hp
    obtain ⟨hadvances, hblamed, herror⟩ := hp
    refine ⟨hadvances, hblamed, fun hundisturbed => ?_⟩
    obtain ⟨e', t', hp', he', ht'⟩ := herror hundisturbed
    exact ⟨e', t', by rw [hp'], he', ht'⟩
  | ok a t =>
    rw [hps] at hp
    obtain ⟨hadvances, hlength, hok⟩ := hp
    -- the first run alone: what comes behind it does not matter
    have hends : t.last.kind = .eof := hadvances.last ▸ hlinked.ends
    have halone := hf a a t _ rfl (.behind hends) hlength
    unfold FollowsAt at halone
    cases hfa : f a t with
    | error e u =>
      rw [hfa] at halone
      simp only [hfa]
      have hsecond := halone.1.recorded e
      refine ⟨hadvances.trans halone.1, halone.2.1, fun hundisturbed => ?_⟩
      -- at the error something is left, so it was left in between
      have hleft : ahead = [] ∨ t.rest ≠ [] := hundisturbed.next.imp_right fun hne hnil =>
        hne (List.suffix_nil.mp (hnil ▸ hsecond.rest))
      obtain ⟨a', t', hp', ha', ht'⟩ : ∃ a' t', p' s' = .ok a' t' ∧ view a' = view a ∧
          Linked V before ahead t t' :=
        hleft.elim (fun hahead => hok (.inl hahead))
          fun hne => hok (hundisturbed.first hadvances hsecond fun _ => hne)
      have hboth := hf a a' t t' ha' ht' hlength
      rw [FollowsAt, hfa] at hboth
      rw [hp']
      exact hboth.2.2 (hundisturbed.second hadvances hsecond)
    | ok b u =>
      rw [hfa] at halone
      simp only [hfa]
      refine ⟨hadvances.trans halone.1, by have := halone.2.1; omega, fun hundisturbed => ?_⟩
      have hbefore : Undisturbed ahead inside₁ s t := hundisturbed.imp_right fun h => by
        refine ⟨(h.1.both hadvances halone.1).1, fun hin hnil => ?_⟩
        rcases hinside hin with hin | hk
        · have hsuffix := halone.1.rest
          rw [hnil] at hsuffix
          exact h.2 hin (List.suffix_nil.mp hsuffix)
        · have hread := halone.2.1
          rw [hnil, List.length_nil] at hread
          omega
      obtain ⟨a', t', hp', ha', ht'⟩ := hok hbefore
      have hboth := hf a a' t t' ha' ht' hlength
      rw [FollowsAt, hfa] at hboth
      rw [hp']
      exact hboth.2.2 (hundisturbed.second hadvances halone.1)

namespace Follows

/-- Two parsers that only yield values do the same if these look the same. -/
theorem pure {a a' : α} (h : view a' = view a) :
    Follows V before ahead inside n 0 view (Pure.pure a) (Pure.pure a') :=
  fun _ _ hlinked _ => .pure h hlinked

/-- What follows also does so where fewer tokens are left, and less is asked. -/
theorem weaken {n₁ : Nat} (h : Follows V before ahead inside₁ n₁ j view p p') (hn : n ≤ n₁) (hk : k ≤ j)
    (hinside : inside₁ = true → inside = true) : Follows V before ahead inside n k view p p' :=
  fun s s' hlinked hlength => (h s s' hlinked (Nat.le_trans hlength hn)).weaken hk hinside

/-- Parsers that follow each other do so where fewer tokens are left. -/
theorem fewer {n₁ : Nat} (h : Follows V before ahead inside n₁ k view p p') (hn : n ≤ n₁) :
    Follows V before ahead inside n k view p p' :=
  h.weaken hn (Nat.le_refl k) id

/-- Two parsers in a row do the same if each does, the second where fewer tokens are left. -/
theorem bind (hp : Follows V before ahead inside n j view p p') (hk : k ≤ j)
    (hf : ∀ a a', view a' = view a → j ≤ n →
      Follows V before ahead inside (n - j) 0 view' (f a) (f' a')) :
    Follows V before ahead inside n k view' (p >>= f) (p' >>= f') := by
  intro s s' hlinked hlength
  have hboth := (hp s s' hlinked hlength).bind hlinked
    (fun a a' t t' ha' ht' hread => hf a a' ha' (by omega) t t' ht' (by omega)) .inl
  exact hboth.weaken hk id

/-- One parser before another that reads a token. The first may look for more at the end, since the end
is not reached. -/
theorem bind_reads (hp : Follows V before ahead true n j view p p')
    (hf : ∀ a a', view a' = view a → j ≤ n →
      Follows V before ahead inside (n - j) 1 view' (f a) (f' a')) :
    Follows V before ahead inside n 1 view' (p >>= f) (p' >>= f') := by
  intro s s' hlinked hlength
  have hboth := (hp s s' hlinked hlength).bind hlinked
    (fun a a' t t' ha' ht' hread => hf a a' ha' (by omega) t t' ht' (by omega))
    fun _ => .inr Nat.one_pos
  exact hboth.weaken (Nat.le_add_left 1 j) id

/-- What a parser yields may be used in another form. -/
theorem map {g : α → γ} (hp : Follows V before ahead inside n k view p p')
    (hg : ∀ a a', view a' = view a → view' (g a') = view' (g a)) :
    Follows V before ahead inside n k view' (g <$> p) (g <$> p') := by
  simp only [map_eq_pure_bind]
  exact hp.bind (Nat.le_refl k) fun a a' ha _ => .pure (hg a a' ha)

end Follows

end Rules

end Parser

end Lox
