import Mathlib
import Lox.Proofs.Grammar.Positions

/-!
# Tokens are blamed once

The errors at which declarations are given up blame positions that increase until the end is reached. The invariant
ties the last of them to the token that comes next: it stands before this token, or both are the end. An error that
unwinds through several declarations is recorded once, at the token that comes next, and recovery goes on behind
this token; so a block or class around the declaration may raise an error of its own where recovery stopped.
-/

set_option autoImplicit false

namespace Lox.Grammar

/-- The first position stands before the second, or both are the end. -/
def Precedes (stop i j : ℕ) : Prop := i < j ∨ i = stop ∧ j = stop

namespace Precedes

variable {stop i j k : ℕ}

/-- Positions that precede one another do so in a row. -/
theorem trans (h : Precedes stop i j) (h' : Precedes stop j k) : Precedes stop i k := by
  unfold Precedes at *
  omega

/-- Going on towards the end keeps the order. -/
theorem mono (h : Precedes stop i j) (hjk : j ≤ k) (hk : k ≤ stop) : Precedes stop i k := by
  unfold Precedes at *
  omega

/-- What precedes a position up to the end is not behind the end. -/
theorem le_stop (h : Precedes stop i j) (hj : j ≤ stop) : i ≤ stop := by
  unfold Precedes at h
  omega

/-- What is in order has everything but the end at most once. -/
theorem count_le_one {positions : List ℕ} (h : positions.Pairwise (Precedes stop)) (hi : i ≠ stop) :
    positions.count i ≤ 1 := by
  have hnodup : (positions.filter (· ≠ stop)).Nodup := by
    refine (h.filter _).imp_of_mem fun {j k} hj _ hjk => ?_
    have hj : j ≠ stop := by simpa using (List.mem_filter.mp hj).2
    rcases hjk with hlt | ⟨hstop, -⟩
    · exact hlt.ne
    · exact absurd hstop hj
  have hcount := List.nodup_iff_count_le_one.mp hnodup i
  rwa [List.count_filter (by simpa using hi)] at hcount

end Precedes

/-- The lines of the errors at which declarations are given up, in their order. -/
def givenUp (errors : List SyntaxError) : List ℕ := (errors.filter (·.cause.unwinds)).map (·.token.line)

/-- An error adds its position only if it gives up a declaration. -/
theorem givenUp_append (errors : List SyntaxError) (e : SyntaxError) :
    givenUp (errors ++ [e]) = givenUp errors ++ if e.cause.unwinds then [e.token.line] else [] := by
  rw [givenUp, List.filter_append, List.map_append, givenUp, List.filter_singleton]
  cases e.cause.unwinds <;> rfl

/-- The line of the token that comes next. -/
def nextLine (s : ParserState) : ℕ := (s.rest.headD s.last).line

/-- The tokens that are left are on consecutive lines, up to the one that ends the input. -/
def Consecutive (s : ParserState) : Prop :=
  ∀ t rest, t :: rest <:+ s.rest → t.line + (rest.length + 1) = s.last.line

namespace Consecutive

variable {s : ParserState}

/-- The lines that are left are counted by the tokens. -/
theorem nextLine_add (h : Consecutive s) : nextLine s + s.rest.length = s.last.line := by
  unfold nextLine
  cases hs : s.rest with
  | nil => rfl
  | cons t rest => exact h t rest (hs ▸ List.suffix_refl _)

/-- Tokens remain on consecutive lines when some of them are read. -/
theorem read {rest : List Token} (h : Consecutive s) (hrest : rest <:+ s.rest) : Consecutive { s with rest } :=
  fun t others hothers => h t others (hothers.trans hrest)

end Consecutive

/-- The errors at which declarations were given up precede each other and the token that comes next. -/
structure InOrder (s : ParserState) : Prop where
  consecutive : Consecutive s
  order : (givenUp s.errors ++ [nextLine s]).Pairwise (Precedes s.last.line)

namespace InOrder

variable {s : ParserState}

/-- The errors at which declarations were given up precede each other. -/
theorem pairwise (h : InOrder s) : (givenUp s.errors).Pairwise (Precedes s.last.line) :=
  (List.pairwise_append.mp h.order).1

/-- The errors at which declarations were given up precede the next token. -/
theorem precedes (h : InOrder s) {i : ℕ} (hi : i ∈ givenUp s.errors) : Precedes s.last.line i (nextLine s) :=
  (List.pairwise_append.mp h.order).2.2 i hi _ (List.mem_singleton_self _)

/-- What is read only moves the next token towards the end. -/
theorem read (h : InOrder s) {rest : List Token} (hrest : rest <:+ s.rest) : InOrder { s with rest } where
  consecutive := h.consecutive.read hrest
  order := by
    have hbefore := h.consecutive.nextLine_add
    have hbehind := (h.consecutive.read hrest).nextLine_add
    dsimp only at hbehind
    have hlength := hrest.length_le
    refine List.pairwise_append.mpr ⟨h.pairwise, List.pairwise_singleton _ _, fun i hi j hj => ?_⟩
    rw [List.mem_singleton.mp hj]
    exact (h.precedes hi).mono (by omega) (by omega)

/-- The other errors stand wherever they are found. -/
theorem reported (h : InOrder s) {e : SyntaxError} (he : e.cause.unwinds = false) : InOrder (s.recorded e) where
  consecutive := h.consecutive
  order := by
    have hsame : givenUp (s.recorded e).errors = givenUp s.errors := by
      rw [ParserState.recorded, givenUp_append, he]
      exact List.append_nil _
    rw [hsame]
    exact h.order

/-- Recovery goes on behind the token that is blamed, unless it is the end. -/
theorem nextLine_skip (h : Consecutive s) :
    Precedes s.last.line (nextLine s) (nextLine { s with rest := skip s.rest }) := by
  have hbefore := h.nextLine_add
  have hbehind := (h.read (skip_suffix s.rest)).nextLine_add
  dsimp only at hbehind
  by_cases hs : s.rest = []
  · rw [hs] at hbefore hbehind ⊢
    exact .inr ⟨hbefore, hbehind⟩
  · have hlength := length_skip_lt hs
    exact .inl (by omega)

/-- Recovery skips at least the token that was blamed, so the next one is behind it. -/
theorem recovered (h : InOrder s) {cause : SyntaxCause} (hcause : cause.unwinds = true) :
    InOrder { s.recorded ⟨s.rest.headD s.last, cause⟩ with rest := skip s.rest } where
  consecutive := h.consecutive.read (skip_suffix s.rest)
  order := by
    have hskip := nextLine_skip h.consecutive
    have hone : givenUp (s.errors ++ [⟨s.rest.headD s.last, cause⟩]) = givenUp s.errors ++ [nextLine s] := by
      rw [givenUp_append, hcause]
      rfl
    show (givenUp (s.errors ++ [⟨s.rest.headD s.last, cause⟩]) ++ _).Pairwise _
    rw [hone]
    refine List.pairwise_append.mpr ⟨h.order, List.pairwise_singleton _ _, fun i hi j hj => ?_⟩
    rw [List.mem_singleton.mp hj]
    rcases List.mem_append.mp hi with hi | hi
    · exact (h.precedes hi).trans hskip
    · rw [List.mem_singleton.mp hi]
      exact hskip

end InOrder

/-- Order is an invariant of the parser: an error that unwinds blames the next token, and recovery skips it. -/
theorem inOrder_stable : Stable (fun _ => True) InOrder where
  seen _ _ _ := trivial
  read h hrest := h.read hrest
  numbered h := ⟨h.consecutive, h.order⟩
  reported h _ hcause := h.reported hcause
  recovered h hcause := h.recovered hcause

variable {tokens : List Token}

/-- Placed tokens are on consecutive lines, and the one that ends the input is on the line of its position. -/
theorem start_placed (hlast : tokens.getLast?.any (·.isEof) = true) (firstId : Occurrence) :
    Consecutive (start (placed tokens) firstId) ∧
      (start (placed tokens) firstId).last.line = tokens.findIdx (·.isEof) := by
  obtain ⟨input, hinput⟩ := Input.exists_tokens (getLast?_placed hlast)
  have hline {i : ℕ} {t : Token} (ht : input.tokens[i]? = some t) : t.line = i := by
    rw [hinput, getElem?_placed] at ht
    obtain ⟨_, -, rfl⟩ := Option.map_eq_some_iff.mp ht
    rfl
  have hend : input.last.line = input.front.length := hline (by simp [Input.tokens])
  rw [← findIdx_placed, ← hinput, input.start_tokens, input.findIdx_tokens]
  refine ⟨fun t rest hsuffix => ?_, hend⟩
  obtain ⟨before, hfront⟩ := hsuffix
  dsimp only at hfront ⊢
  have ht : t.line = before.length := hline (by simp [Input.tokens, ← hfront])
  rw [ht, hend, ← hfront]
  simp

/-- The positions of the tokens that the errors blame at which a parse gives up declarations, in the order in which
they are recorded. -/
def givenUpAt (tokens : List Token) (firstId : Occurrence) : List ℕ :=
  givenUp (parse (placed tokens) firstId).errors

/-- Where the last token ends the input, the errors of a parse are those of the parse that shows their positions. The
positions of those at which declarations are given up increase until the first token that ends the input is reached.
So each token in front of it is blamed by at most one of them. -/
theorem blames_in_order (hlast : tokens.getLast?.any (·.isEof) = true) (firstId : Occurrence) :
    (parse tokens firstId).errors.map (fun e => (some e.token, e.cause)) =
        (parse (placed tokens) firstId).errors.map (fun e => (tokens[e.token.line]?, e.cause)) ∧
      (givenUpAt tokens firstId).Pairwise
        (fun i j => i < j ∨ i = tokens.findIdx (·.isEof) ∧ j = tokens.findIdx (·.isEof)) ∧
      (∀ i ∈ givenUpAt tokens firstId, i ≤ tokens.findIdx (·.isEof)) ∧
      ∀ i, i ≠ tokens.findIdx (·.isEof) → (givenUpAt tokens firstId).count i ≤ 1 := by
  obtain ⟨hconsecutive, hstop⟩ := start_placed hlast firstId
  have hstart : InOrder (start (placed tokens) firstId) := ⟨hconsecutive, List.pairwise_singleton _ _⟩
  obtain ⟨t, hinOrder, herrors, hend⟩ := inOrder_stable.parse hstart
  have hline : t.last.line = tokens.findIdx (·.isEof) := (congrArg Token.line hend).trans hstop
  have hpairwise := hinOrder.pairwise
  rw [herrors, hline] at hpairwise
  refine ⟨errors_placed hlast firstId, hpairwise, fun i hi => ?_, fun i hi => Precedes.count_le_one hpairwise hi⟩
  have hprecedes := hinOrder.precedes (i := i) (by rwa [herrors])
  have hnext := hinOrder.consecutive.nextLine_add
  rw [hline] at hprecedes hnext
  exact hprecedes.le_stop (by omega)

/-- The tokens of `{ { class A { m() { ); } ;`, where every declaration is given up. -/
def unfinishedTokens : List Token :=
  [⟨.symbol .leftBrace, "\x7b", 1⟩, ⟨.symbol .leftBrace, "\x7b", 1⟩, ⟨.keyword .class, "class", 1⟩,
    ⟨.identifier, "A", 1⟩, ⟨.symbol .leftBrace, "\x7b", 1⟩, ⟨.identifier, "m", 1⟩, ⟨.symbol .leftParen, "(", 1⟩,
    ⟨.symbol .rightParen, ")", 1⟩, ⟨.symbol .leftBrace, "\x7b", 1⟩, ⟨.symbol .rightParen, ")", 1⟩,
    ⟨.symbol .semicolon, ";", 1⟩, ⟨.symbol .rightBrace, "\x7d", 1⟩, ⟨.symbol .semicolon, ";", 1⟩, .eofAt 1]

/-- The first two errors blame a parenthesis and a semicolon that each stand twice; both blocks blame the end. -/
theorem blames_in_order_unfinished :
    unfinishedTokens.getLast?.any (·.isEof) = true ∧
      (parse unfinishedTokens 0).errors.map (·.cause) =
        [.noExpression, .noFunctionName .method, .noBlockEnd, .noBlockEnd] ∧
      givenUpAt unfinishedTokens 0 = [9, 12, 13, 13] ∧
      (givenUpAt unfinishedTokens 0).Pairwise (fun i j => i < j ∨ i = 13 ∧ j = 13) ∧
      ∀ i, i ≠ 13 → (givenUpAt unfinishedTokens 0).count i ≤ 1 := by
  have hlast : unfinishedTokens.getLast?.any (·.isEof) = true := rfl
  obtain ⟨-, hpairwise, -, hcount⟩ := blames_in_order hlast 0
  exact ⟨hlast, by decide +kernel, by decide +kernel, hpairwise, hcount⟩

end Lox.Grammar
