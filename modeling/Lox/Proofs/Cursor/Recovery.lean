import Mathlib
import Lox.Proofs.Cursor.Agreement
import Lox.Proofs.Grammar.RecoveryFollows

/-!
# Recovery and loops at a position

A declaration is only read where a token is left. If it fails, the token at which it failed is skipped, or,
where nothing is left any more, the one before the position is looked at: it exists, since a token has been
read by then. Either way the position moves on. So the loops over declarations and methods come to an end.
-/

set_option autoImplicit false

namespace Lox.Cursor

open Renumberable (renumber bearers)

variable {input : Input} {f : Occurrence → Occurrence} {c₀ c : Cursor} {s : ParserState}

section Recovery

/-- Behind a token, both parsers skip to the same boundary. -/
theorem skipOn_shows {previous : Token} (hshows : Shows input f c₀ c s)
    (hprevious : Reading.previous c = .ok previous c) {fuel : Nat} (hfuel : s.rest.length < fuel) :
    ∃ c', Reading.skipOn fuel c = .ok () c' ∧
      Shows input f c₀ c' { s with rest := Grammar.skipFrom previous s.rest } ∧ Later 0 c c' := by
  generalize hrest : s.rest = rest at hfuel
  induction rest generalizing s c previous fuel with
  | nil =>
    obtain ⟨fuel, rfl⟩ := Nat.exists_eq_add_of_le' (show 1 ≤ fuel by omega)
    refine ⟨c, ?_, ?_, .refl c⟩
    · refine (Reading.bind_ok hshows.atEnd_eq).trans ?_
      rw [hrest]
      rfl
    · rw [Grammar.skipFrom, ← hrest]
      exact hshows
  | cons t rest ih =>
    obtain ⟨fuel, rfl⟩ := Nat.exists_eq_add_of_le' (show 1 ≤ fuel by omega)
    have hpeek : Reading.peek c = .ok t c := by
      rw [hshows.peek_eq, hrest]
      rfl
    have hround : Reading.skipOn (fuel + 1) c =
        (if previous.isSymbol .semicolon then pure ()
        else if Grammar.startsStatement t then pure ()
        else do
          let _ ← Reading.advance
          Reading.skipOn fuel : Reading Unit) c := by
      refine (Reading.bind_ok hshows.atEnd_eq).trans ?_
      rw [hrest]
      refine (Reading.bind_ok hprevious).trans ?_
      by_cases hsemicolon : previous.isSymbol .semicolon = true
      · rw [if_pos hsemicolon, if_pos hsemicolon]
      · rw [if_neg hsemicolon, if_neg hsemicolon]
        exact Reading.bind_ok hpeek
    have hstop (h : Reading.skipOn (fuel + 1) c = .ok () c)
        (hskip : Grammar.skipFrom previous (t :: rest) = t :: rest) :
        ∃ c', Reading.skipOn (fuel + 1) c = .ok () c' ∧
          Shows input f c₀ c' { s with rest := Grammar.skipFrom previous (t :: rest) } ∧ Later 0 c c' := by
      refine ⟨c, h, ?_, .refl c⟩
      rw [hskip, ← hrest]
      exact hshows
    by_cases hsemicolon : previous.isSymbol .semicolon = true
    · rw [if_pos hsemicolon] at hround
      exact hstop hround (by simp [Grammar.skipFrom, hsemicolon])
    by_cases hstarts : Grammar.startsStatement t = true
    · rw [if_neg hsemicolon, if_pos hstarts] at hround
      exact hstop hround (by simp [Grammar.skipFrom, hstarts])
    rw [if_neg hsemicolon, if_neg hstarts] at hround
    obtain ⟨c', hc', hshows', hlater⟩ := ih (hshows.step hrest) (hshows.previous_eq hrest) rfl
      (Nat.lt_of_succ_lt_succ hfuel)
    refine ⟨c', ?_, ?_, ⟨Nat.le_trans (Nat.le_succ _) hlater.current, hlater.errors⟩⟩
    · rw [hround]
      exact (Reading.bind_ok (hshows.advance_eq hrest)).trans hc'
    · have hskip : Grammar.skipFrom previous (t :: rest) = Grammar.skipFrom t rest := by
        simp [Grammar.skipFrom, hsemicolon, hstarts]
      rw [hskip]
      exact hshows'

/-- Behind the first token there is one before the position. -/
theorem previous_of_pos (hshows : Shows input f c₀ c s) (hpos : 0 < c.current) :
    ∃ t, Reading.previous c = .ok t c := by
  obtain ⟨i, hi⟩ := Nat.exists_eq_add_of_le' hpos
  have hlt : i < c.tokens.length := by
    rw [hshows.tokens, Input.tokens, List.length_append]
    have := hshows.within
    omega
  refine ⟨c.tokens[i], ?_⟩
  unfold Reading.previous
  rw [hi]
  show Reading.tokenAt i c = _
  unfold Reading.tokenAt
  rw [List.getElem?_eq_getElem hlt]

/-- Recovery finds a token to skip or to look back at, and skips to the same boundary. -/
theorem synchronize_shows (hshows : Shows input f c₀ c s) (hread : s.rest ≠ [] ∨ 0 < c.current) {fuel : Nat}
    (hfuel : s.rest.length < fuel) :
    ∃ c', Reading.synchronize fuel c = .ok () c' ∧
      Shows input f c₀ c' { s with rest := Grammar.skip s.rest } ∧ Later 0 c c' := by
  cases hs : s.rest with
  | nil =>
    obtain ⟨t, ht⟩ := previous_of_pos hshows (hread.resolve_left fun hne => hne hs)
    obtain ⟨c', hc', hshows', hlater⟩ := skipOn_shows hshows ht hfuel
    refine ⟨c', (Reading.bind_ok ((hshows.advance_end hs).trans ht)).trans hc', ?_, hlater⟩
    rw [hs] at hshows'
    exact hshows'
  | cons t rest =>
    rw [hs, List.length_cons] at hfuel
    obtain ⟨c', hc', hshows', hlater⟩ := skipOn_shows (hshows.step hs) (hshows.previous_eq hs)
      (show rest.length < fuel by omega)
    exact ⟨c', (Reading.bind_ok (hshows.advance_eq hs)).trans hc', hshows',
      ⟨Nat.le_trans (Nat.le_succ _) hlater.current, hlater.errors⟩⟩

/-- The rules agree wherever a token is left, and fewer than `n` are. -/
def AgreesBefore (input : Input) (f : Occurrence → Occurrence) (c₀ : Cursor) (n : Nat)
    (p : Parser (Option Stmt)) (q : Reading (Option Stmt)) : Prop :=
  ∀ s c, Shows input f c₀ c s → s.rest ≠ [] → s.rest.length < n → AgreesAt input f c₀ 1 0 p q s c

variable {n : Nat}

/-- What is recovered from an error is the same, and a token has been read. -/
theorem recovering_agrees {p : Parser Stmt} {q : Reading Stmt} (h : Agrees input f c₀ n 1 0 p q) {fuel : Nat}
    (hfuel : n ≤ fuel) : AgreesBefore input f c₀ n (Grammar.recovering p) (Reading.recovering fuel q) := by
  intro s c hshows hne hlength
  have hs := h s c hshows hlength
  unfold AgreesAt at hs ⊢
  unfold Grammar.recovering Reading.recovering
  cases hp : p s with
  | ok stmt t =>
    rw [hp] at hs
    obtain ⟨c', hq, hshows', hlater, hbearers⟩ := hs
    rw [hq]
    refine ⟨c', rfl, hshows', hlater, fun hclean => ?_⟩
    have hsame := hbearers hclean
    have hone : bearers (renumber f (some stmt)) = bearers (renumber f stmt) := add_zero _
    rw [hone]
    exact hsame
  | error e t =>
    rw [hp] at hs
    obtain ⟨c', hq, hshows', hlater⟩ := hs
    rw [hq]
    have hlength₁ := hshows.length
    have hlength₂ := hshows'.length
    have hcurrent := hlater.current
    have hpos : 0 < s.rest.length := List.length_pos_iff.mpr hne
    obtain ⟨c'', hc'', hshows'', hlater''⟩ := synchronize_shows (hshows'.recorded e)
      (show t.rest ≠ [] ∨ 0 < c'.current from by
        by_cases ht : t.rest = []
        · rw [ht, List.length_nil] at hlength₂
          exact .inr (by omega)
        · exact .inl ht) (show t.rest.length < fuel by omega)
    have hlength₃ := hshows''.length
    have hskipped : (Grammar.skip t.rest).length < s.rest.length := by
      by_cases ht : t.rest = []
      · rw [ht]
        exact hpos
      · have := Grammar.length_skip_lt ht
        omega
    have herrors := hlater''.errors
    refine ⟨c'', ?_, hshows'', ⟨?_, (hlater.errors.trans (List.prefix_append _ _)).trans herrors⟩, fun hclean => ?_⟩
    · show (Reading.synchronize fuel >>= fun _ => pure none) (c'.recorded e) = _
      exact Reading.bind_ok hc''
    · dsimp only at hlength₃
      omega
    · have hle := (hlater.errors.length_le)
      have hle' := herrors.length_le
      rw [hclean] at hle'
      simp [Cursor.recorded] at hle'
      omega

/-- Where a declaration has read a token, its record says so. -/
theorem declaring_agrees {p : Parser (Option Stmt)} {q : Reading (Option Stmt)}
    (h : AgreesBefore input f c₀ n p q) : AgreesBefore input f c₀ n p (Reading.declaring q) := by
  intro s c hshows hne hlength
  have hs := h s c hshows hne hlength
  unfold AgreesAt at hs ⊢
  have hrun : Reading.declaring q c =
      (q >>= fun result => do modify (·.declaring c.current); return result) c := rfl
  cases hp : p s with
  | ok stmt t =>
    rw [hp] at hs
    obtain ⟨c', hq, hshows', hlater, hbearers⟩ := hs
    refine ⟨c'.declaring c.current, hrun.trans (Reading.bind_ok hq), ?_, ⟨hlater.current, hlater.errors⟩, hbearers⟩
    exact ⟨hshows'.since.declaring hlater.current, hshows'.tokens, hshows'.within, hshows'.rest,
      hshows'.last, hshows'.errors, hshows'.numbers⟩
  | error e t =>
    rw [hp] at hs
    obtain ⟨c', hq, hshows', hlater⟩ := hs
    refine ⟨c', ?_, hshows', hlater⟩
    rw [hrun]
    show EStateM.bind q _ c = _
    rw [EStateM.bind, hq]

end Recovery

section Loops

variable {n : Nat}

/-- Renumbering applies to an optional statement and to those behind it alike. -/
theorem renumber_toList_append (first : Option Stmt) (others : List Stmt) :
    (renumber f first).toList ++ renumber f others = renumber f (first.toList ++ others) := by
  cases first with
  | none => rfl
  | some stmt => rfl

/-- Declarations agree as long as there are more. -/
theorem declarationsUntil_agrees {stop : Token → Bool} {more : Reading Bool}
    (hmore : ∀ {s c}, Shows input f c₀ c s → more c = .ok (!(s.rest.isEmpty || s.rest.head?.any stop)) c)
    {d : Parser (Option Stmt)} {d' : Reading (Option Stmt)} (hd : AgreesBefore input f c₀ n d d') {m : Nat}
    (hm : m ≤ n) {bound fuel : Nat} (hbound : m ≤ bound + 1) (hfuel : m ≤ fuel) :
    Agrees input f c₀ m 0 0 (Grammar.declarationsUntil stop d bound)
      (Reading.declarationsWhile more d' fuel) := by
  induction m generalizing bound fuel with
  | zero => exact fun _ _ _ hlength => absurd hlength (Nat.not_lt_zero _)
  | succ m ih =>
    obtain ⟨fuel, rfl⟩ := Nat.exists_eq_add_of_le' (show 1 ≤ fuel by omega)
    intro s c hshows hlength
    have hempty : AgreesAt input f c₀ 0 0 (pure ([] : List Stmt)) (pure []) s c := .pure hshows rfl rfl
    have hround := Reading.bind_ok (r := fun b => if b then do
        let first ← d'
        let others ← Reading.declarationsWhile more d' fuel
        return first.toList ++ others
      else return []) (hmore hshows)
    cases hs : s.rest with
    | nil =>
      rw [hs] at hround
      exact hempty.of_eq (Grammar.declarationsUntil_end stop d bound s hs) hround
    | cons t rest =>
      rw [hs] at hround
      rw [hs, List.length_cons] at hlength
      obtain ⟨bound, rfl⟩ := Nat.exists_eq_add_of_le' (show 1 ≤ bound by omega)
      have hlist := Grammar.declarationsUntil_cons stop d bound hs
      simp only [List.isEmpty_cons, Bool.false_or, List.head?_cons, Option.any_some] at hround
      cases hstop : stop t with
      | true =>
        rw [hstop] at hlist hround
        exact hempty.of_eq hlist hround
      | false =>
        rw [hstop] at hlist hround
        have hne : s.rest ≠ [] := hs ▸ List.cons_ne_nil t rest
        refine AgreesAt.of_eq hlist hround ((hd s c hshows hne (by rw [hs]; simp; omega)).bind
          fun first u c' hu hlater => ?_)
        have hothers : Agrees input f c₀ m 0 (0 + bearers (renumber f first))
            (do
              let others ← Grammar.declarationsUntil stop d bound
              return first.toList ++ others)
            (do
              let others ← Reading.declarationsWhile more d' fuel
              return (renumber f first).toList ++ others) := by
          refine (ih (by omega) (by omega) (by omega)).bind fun others =>
            .pure (renumber_toList_append first others) ?_
          rw [zero_add]
          exact Stmt.bearersAll_append _ _
        refine hothers u c' hu ?_
        · have h₁ := hshows.length
          have h₂ := hu.length
          have h₃ := hlater.current
          rw [hs, List.length_cons] at h₁
          omega

/-- A brace and the end stop loops. -/
theorem beforeBrace_eq (hshows : Shows input f c₀ c s) :
    Reading.beforeBrace c = .ok (!(s.rest.isEmpty || s.rest.head?.any (·.isSymbol .rightBrace))) c := by
  refine (Reading.bind_ok (hshows.check_eq _)).trans ?_
  cases hs : s.rest with
  | nil =>
    refine (Reading.bind_ok hshows.atEnd_eq).trans ?_
    rw [hs]
    rfl
  | cons t rest =>
    rw [List.head?_cons, Option.any_some]
    cases t.isSymbol .rightBrace with
    | true => rfl
    | false =>
      refine (Reading.bind_ok hshows.atEnd_eq).trans ?_
      rw [hs]
      rfl

/-- The loop over the methods of a class agrees if a method does. -/
theorem methods_agrees {method : Parser FunctionDecl} {method' : Reading FunctionDecl}
    (hmethod : Agrees input f c₀ n 1 0 method method') {m : Nat} (hm : m ≤ n) {bound fuel : Nat}
    (hbound : m ≤ bound + 1) (hfuel : m ≤ fuel) :
    Agrees input f c₀ m 0 0 (Grammar.methods method bound) (Reading.methods method' fuel) := by
  induction m generalizing bound fuel with
  | zero => exact fun _ _ _ hlength => absurd hlength (Nat.not_lt_zero _)
  | succ m ih =>
    obtain ⟨fuel, rfl⟩ := Nat.exists_eq_add_of_le' (show 1 ≤ fuel by omega)
    intro s c hshows hlength
    have hempty : AgreesAt input f c₀ 0 0 (pure ([] : List FunctionDecl)) (pure []) s c :=
      .pure hshows rfl rfl
    have hround := Reading.bind_ok (r := fun b => if b then do
        let first ← method'
        return first :: (← Reading.methods method' fuel)
      else return []) (beforeBrace_eq hshows)
    cases hs : s.rest with
    | nil =>
      rw [hs] at hround
      exact hempty.of_eq (Grammar.methods_end method bound s hs) hround
    | cons t rest =>
      rw [hs] at hround
      have hpos : s.rest.length = rest.length + 1 := by rw [hs, List.length_cons]
      obtain ⟨bound, rfl⟩ := Nat.exists_eq_add_of_le' (show 1 ≤ bound by omega)
      have hlist := Grammar.methods_cons method bound hs
      simp only [List.isEmpty_cons, Bool.false_or, List.head?_cons, Option.any_some] at hround
      cases hstop : t.isSymbol .rightBrace with
      | true =>
        rw [hstop] at hlist hround
        exact hempty.of_eq hlist hround
      | false =>
        rw [hstop] at hlist hround
        refine AgreesAt.of_eq hlist hround (((hmethod.fewer hm).bind fun first => ?_) s c hshows hlength)
        refine ((ih (by omega) (show m ≤ bound + 1 by omega) (show m ≤ fuel by omega)).fewer (by omega)).bind
          fun others => .pure rfl ?_
        rw [zero_add]
        rfl

end Loops

end Lox.Cursor
