import Lox.Proofs.Grammar.Follows

/-!
# Steps that follow each other

The steps of parsers look at the kinds of tokens only, so two linked states give them the same answers
wherever the first state has a token left. Where it has none, the second may have some of those that come
behind: then a step is followed only inside, or if it would not accept them.
-/

set_option autoImplicit false

namespace Lox.Parser

variable {α β γ δ : Type} {V : Respelling} {before : List SyntaxError} {ahead : List Token} {inside : Bool}
  {n k : Nat} {view : α → β} {p p' : Parser α} {s s' : ParserState}

/-- A property of tokens depends neither on labels nor on spelling. -/
def Unaffected (V : Respelling) (P : Token → Bool) : Prop := ∀ t, P (t.respell V) = P t

/-- A property that is unaffected has the same answer for tokens that are respelled alike. -/
theorem Unaffected.eq {P : Token → Bool} (hP : Unaffected V P) {t t' : Token}
    (h : t'.respell V = t.respell V) : P t' = P t := by
  rw [← hP t', h, hP t]

/-- Tokens that are respelled alike are of the same kind. -/
theorem kind_eq {t t' : Token} (h : t'.respell V = t.respell V) : t'.kind = t.kind :=
  (congrArg Token.kind h :)

/-- Steps that only look at what comes next do the same if they see the same. -/
theorem follows_of_look {look : Parser α}
    (hlook : ∀ s, ∃ a, look s = .ok a s)
    (hview : ∀ s s' a a', Linked V before ahead s s' → ahead = [] ∨ s.rest ≠ [] → look s = .ok a s →
      look s' = .ok a' s' → view a' = view a) :
    Follows V before ahead true n 0 view look look := by
  intro s s' hlinked _
  obtain ⟨a, ha⟩ := hlook s
  obtain ⟨a', ha'⟩ := hlook s'
  rw [FollowsAt, ha]
  refine ⟨.refl s, Nat.le_refl _, fun hundisturbed => ⟨a', s', ha', ?_, hlinked⟩⟩
  exact hview s s' a a' hlinked (hundisturbed.imp_right fun h => h.2 rfl) ha ha'

/-- Both parsers look at the same next token. -/
theorem peek_follows : Follows V before ahead true n 0 (Token.respell V) peek peek := by
  refine follows_of_look (fun s => ⟨_, rfl⟩) fun s s' a a' hlinked hs ha ha' => ?_
  cases ha
  cases ha'
  exact hlinked.next hs

/-- Both parsers answer alike about the next token, if the property is unaffected. -/
theorem sees_follows {P : Token → Bool} (hP : Unaffected V P) :
    Follows V before ahead true n 0 id (sees P) (sees P) := by
  refine follows_of_look (fun s => ⟨_, rfl⟩) fun s s' a a' hlinked hs ha ha' => ?_
  cases ha
  cases ha'
  cases hrest : s.rest with
  | nil =>
    obtain rfl := hs.resolve_right fun hne => hne hrest
    rw [hlinked.rest_eq_nil hrest]
  | cons t rest =>
    obtain ⟨t', rest', hs', ht', -⟩ := hlinked.cons hrest
    rw [hs']
    simp [hP.eq ht']

/-- Only what parsers do where they stand matters. -/
theorem FollowsAt.of_eq {q q' : Parser α} (hp : p s = q s) (hp' : p' s' = q' s')
    (h : FollowsAt V before ahead inside k view q q' s s') :
    FollowsAt V before ahead inside k view p p' s s' := by
  unfold FollowsAt at h ⊢
  rwa [hp, hp']

/-- A parser goes on with another one, some tokens later. -/
theorem FollowsAt.later {j : Nat} {q q' : Parser α} {t t' : ParserState} (hp : p s = q t)
    (hp' : p' s' = q' t') (hadvances : Advances s t) (hread : t.rest.length + j ≤ s.rest.length)
    (h : FollowsAt V before ahead inside k view q q' t t') :
    FollowsAt V before ahead inside (j + k) view p p' s s' := by
  unfold FollowsAt at h ⊢
  rw [hp]
  split at h
  · obtain ⟨hadvances', hread', hok⟩ := h
    exact ⟨hadvances.trans hadvances', by omega,
      fun hundisturbed => hp' ▸ hok (hundisturbed.second hadvances hadvances')⟩
  · exact ⟨hadvances.trans h.1, h.2.1,
      fun hundisturbed => hp' ▸ h.2.2 (hundisturbed.second hadvances (h.1.recorded _))⟩

/-- Where nothing is left and something comes behind, nothing is claimed of the second parser, if the
first must end inside or read more. -/
theorem FollowsAt.alone (h : FollowsAt V before ahead inside k view p p' s s') (hs : s.rest = [])
    (hahead : ahead ≠ []) (hinside : inside = true ∨ 0 < k) (q : Parser α) :
    FollowsAt V before ahead inside k view p q s s' := by
  unfold FollowsAt at h ⊢
  split at h
  · have hrest : (_ : ParserState).rest = [] := List.suffix_nil.mp (hs ▸ h.1.rest)
    refine ⟨h.1, h.2.1, fun hundisturbed => ?_⟩
    rcases hinside with rfl | hk
    · exact absurd (hundisturbed.of_rest_eq_nil hrest) hahead
    · have hread := h.2.1
      rw [hs, List.length_nil] at hread
      omega
  · have hrest : (_ : ParserState).rest = [] := List.suffix_nil.mp (hs ▸ h.1.rest)
    exact ⟨h.1, h.2.1, fun hundisturbed => absurd (hundisturbed.of_rest_eq_nil hrest) hahead⟩

/-- A parser that reads one token has gone on. -/
theorem advances_rest {t : Token} {rest : List Token} (hs : s.rest = t :: rest) :
    Advances s { s with rest } :=
  ⟨hs ▸ List.suffix_cons t rest, rfl, Nat.le_refl _, List.prefix_refl _⟩

/-- Behind the next token, parsers do the same that do so where fewer tokens are left. -/
theorem FollowsAt.advance {t : Token} {rest : List Token} (hlinked : Linked V before ahead s s')
    (hs : s.rest = t :: rest) (hlength : s.rest.length ≤ n)
    (hp : Follows V before ahead inside (n - 1) k view p p') :
    FollowsAt V before ahead inside 1 view (do Parser.advance; p) (do Parser.advance; p') s s' := by
  obtain ⟨t', rest', hs', -, hrest⟩ := hlinked.cons hs
  have hstep {p : Parser α} {s : ParserState} {t : Token} {rest : List Token} (hs : s.rest = t :: rest) :
      (do Parser.advance; p : Parser α) s = p { s with rest } := by
    show p { s with rest := s.rest.tail } = _
    rw [hs, List.tail_cons]
  rw [hs, List.length_cons] at hlength
  have hbehind := hp _ _ hrest (Nat.le_sub_one_of_lt hlength)
  exact (hbehind.later (j := 1) (hstep hs) (hstep hs') (advances_rest hs) (by simp [hs])).weaken
    (Nat.le_add_right 1 k) id

/-- What stands behind an optional token gets the next token if this is the one, and else none. -/
theorem accept?_bind_apply (P : Token → Bool) (f : Option Token → Parser α) (s : ParserState) :
    (Parser.accept? P >>= f) s =
      match s.rest with
      | [] => f none s
      | t :: rest => if P t then f (some t) { s with rest } else f none s := by
  show EStateM.bind (Parser.accept? P) f s = _
  unfold EStateM.bind Parser.accept?
  cases s.rest with
  | nil => rfl
  | cons t rest => cases hPt : P t <;> simp [hPt]

/-- A token that must come next is read if it is there, and blamed if it is another. -/
theorem expect_apply (P : Token → Bool) (cause : SyntaxCause) (s : ParserState) :
    expect P cause s =
      match s.rest with
      | [] => Parser.fail cause s
      | t :: rest => if P t then .ok t { s with rest } else Parser.fail cause s := by
  show EStateM.bind (Parser.accept? P) _ s = _
  unfold EStateM.bind Parser.accept?
  cases s.rest with
  | nil => rfl
  | cons t rest =>
    cases hPt : P t with
    | false => simp [hPt]
    | true => simp [hPt]; rfl

/-- Parsers do the same behind an optional token if they do with it and without it. -/
theorem Follows.accept? {P : Token → Bool} (hP : Unaffected V P) {f f' : Option Token → Parser α}
    (hinside : inside = true ∨ 0 < k ∨ ahead.head?.any P = false)
    (hnone : Follows V before ahead inside n k view (f none) (f' none))
    (hsome : ∀ t t', t'.respell V = t.respell V → 0 < n →
      Follows V before ahead inside (n - 1) (k - 1) view (f (some t)) (f' (some t'))) :
    Follows V before ahead inside n k view (Parser.accept? P >>= f) (Parser.accept? P >>= f') := by
  have hstep := accept?_bind_apply (α := α) P
  intro s s' hlinked hlength
  have hkept := hnone s s' hlinked hlength
  have hsame (h : (Parser.accept? P >>= f) s = f none s) (h' : (Parser.accept? P >>= f') s' = f' none s') :
      FollowsAt V before ahead inside k view (Parser.accept? P >>= f) (Parser.accept? P >>= f') s s' :=
    hkept.of_eq h h'
  cases hs : s.rest with
  | cons t rest =>
    obtain ⟨t', rest', hs', ht', hrest⟩ := hlinked.cons hs
    cases hPt : P t with
    | false =>
      have hPt' : ¬P t' = true := by simp [hP.eq ht', hPt]
      exact hsame (by rw [hstep, hs]; simp [hPt]) (by rw [hstep, hs']; exact if_neg hPt')
    | true =>
      rw [hs, List.length_cons] at hlength
      have hread : (Parser.accept? P >>= f) s = f (some t) { s with rest } := by
        rw [hstep, hs]
        exact if_pos hPt
      have hread' : (Parser.accept? P >>= f') s' = f' (some t') { s' with rest := rest' } := by
        rw [hstep, hs']
        exact if_pos ((hP.eq ht').trans hPt)
      have hbehind := hsome t t' ht' (by omega) _ _ hrest (Nat.le_sub_one_of_lt hlength)
      exact (hbehind.later (j := 1) hread hread' (advances_rest hs) (by simp [hs])).weaken (by omega)
        fun h => h
  | nil =>
    have hfirst : (Parser.accept? P >>= f) s = f none s := by rw [hstep, hs]
    cases hs' : s'.rest with
    | nil => exact hsame hfirst (by rw [hstep, hs'])
    | cons t' rest' =>
      have hahead : ahead ≠ [] := by
        rintro rfl
        rw [hlinked.rest_eq_nil hs] at hs'
        cases hs'
      rcases or_assoc.mpr hinside with hin | hhead
      · have halone : FollowsAt V before ahead inside k view (Parser.accept? P >>= f) (f' none) s s' :=
          hkept.of_eq hfirst rfl
        exact halone.alone hs hahead hin _
      · refine hsame hfirst ?_
        have hrest := hlinked.nil hs
        rw [hs'] at hrest
        cases ahead with
        | nil => exact absurd rfl hahead
        | cons u rest =>
          have hu : t'.respell V = u.respell V := (List.cons.inj hrest).1
          have hPt' : ¬P t' = true := by
            rw [hP.eq hu]
            exact Bool.eq_false_iff.mp hhead
          rw [hstep, hs']
          exact if_neg hPt'

/-- A parser that reads the next token if it has a property, and forgets it. -/
theorem Follows.accepts {P : Token → Bool} (hP : Unaffected V P) {f f' : Bool → Parser α}
    (hinside : inside = true ∨ 0 < k ∨ ahead.head?.any P = false)
    (hfalse : Follows V before ahead inside n k view (f false) (f' false))
    (htrue : 0 < n → Follows V before ahead inside (n - 1) (k - 1) view (f true) (f' true)) :
    Follows V before ahead inside n k view (Parser.accepts P >>= f) (Parser.accepts P >>= f') := by
  simp only [Parser.accepts, bind_assoc, pure_bind]
  exact .accept? hP hinside hfalse fun _ _ _ hn => htrue hn

/-- A token that must come next is read, or both parsers fail. -/
theorem expect_follows {P : Token → Bool} (hP : Unaffected V P) (cause : SyntaxCause) :
    Follows V before ahead inside n 1 (Token.respell V) (expect P cause) (expect P cause) := by
  have hstep := expect_apply P cause
  intro s s' hlinked _
  have hfail (h : expect P cause s = Parser.fail cause s)
      (h' : ahead = [] ∨ s.rest ≠ [] → expect P cause s' = Parser.fail cause s') :
      FollowsAt V before ahead inside 1 (Token.respell V) (expect P cause) (expect P cause) s s' := by
    rw [FollowsAt, h]
    refine ⟨.refl s, rfl, fun hundisturbed => ⟨_, s', h' hundisturbed.next, ?_, hlinked⟩⟩
    rw [SyntaxError.respell, SyntaxError.respell, hlinked.next hundisturbed.next]
  cases hs : s.rest with
  | nil =>
    refine hfail (by rw [hstep, hs]) fun hnext => ?_
    obtain rfl := hnext.resolve_right fun hne => hne hs
    rw [hstep, hlinked.rest_eq_nil hs]
  | cons t rest =>
    obtain ⟨t', rest', hs', ht', hrest⟩ := hlinked.cons hs
    cases hPt : P t with
    | false =>
      refine hfail (by rw [hstep, hs]; simp [hPt]) fun _ => ?_
      rw [hstep, hs']
      exact if_neg (by simp [hP.eq ht', hPt])
    | true =>
      have hread : expect P cause s = .ok t { s with rest } := by
        rw [hstep, hs]
        exact if_pos hPt
      have hread' : expect P cause s' = .ok t' { s' with rest := rest' } := by
        rw [hstep, hs']
        exact if_pos ((hP.eq ht').trans hPt)
      rw [FollowsAt, hread]
      exact ⟨advances_rest hs, by simp [hs], fun _ => ⟨t', _, hread', ht', hrest⟩⟩

/-- Both parsers hand out the same number. -/
theorem fresh_follows : Follows V before ahead inside n 0 V.occurrence fresh fresh := by
  intro s s' hlinked _
  refine ⟨⟨List.suffix_refl _, rfl, Nat.le_succ _, List.prefix_refl _⟩, Nat.le_refl s.rest.length,
    fun _ => ⟨_, _, rfl, hlinked.numbers 0, hlinked.rest, hlinked.last, hlinked.ends, hlinked.errors,
      fun k => ?_⟩⟩
  have hnext := hlinked.numbers (1 + k)
  rwa [← Nat.add_assoc, ← Nat.add_assoc] at hnext

/-- Both parsers record the same error. -/
theorem report_follows {t t' : Token} (ht : t'.respell V = t.respell V) (cause : SyntaxCause) :
    Follows V before ahead inside n 0 id (report t cause) (report t' cause) := fun s _ hlinked _ =>
  ⟨⟨List.suffix_refl _, rfl, Nat.le_refl _, List.prefix_append _ _⟩, Nat.le_refl s.rest.length,
    fun _ => ⟨(), _, rfl, rfl, hlinked.rest, hlinked.last, hlinked.ends, by
      rw [← List.append_assoc, List.map_append, List.map_append, hlinked.errors, List.map_singleton,
        List.map_singleton, SyntaxError.respell, SyntaxError.respell, ht], hlinked.numbers⟩⟩

end Lox.Parser
