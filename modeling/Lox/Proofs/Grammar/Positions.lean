import Mathlib
import Lox.Proofs.Cursor.Programs
import Lox.Proofs.Grammar.Invariants

/-!
# Positions of errors

Errors blame tokens that were given to the parser, which does not look at their lines. So each token may be given
its position for a line: the errors of this parse tell where the tokens stand that the errors of the other blame,
also if several tokens look alike.
-/

set_option autoImplicit false

namespace Lox

/-- Moves lines, and takes away the occurrence numbers. -/
def Relabeling.lines (f : ℕ → ℕ) : Relabeling := ⟨fun _ => 0, f⟩

/-- A token whose line is mapped to itself is left alone. -/
theorem Token.relabel_lines_eq_self {f : ℕ → ℕ} {t : Token} (h : f t.line = t.line) : t.relabel (.lines f) = t := by
  obtain ⟨kind, lexeme, line⟩ := t
  exact congrArg (Token.mk kind lexeme) h

namespace Grammar

section Among

/-- The tokens that a state has left, and those that its errors blame, are among the given ones. -/
structure Among (tokens : List Token) (s : ParserState) : Prop where
  seen : ∀ t ∈ s.last :: s.rest, t ∈ tokens
  blamed : ∀ e ∈ s.errors, e.token ∈ tokens

variable {tokens : List Token} {s : ParserState}

/-- What is left of tokens after reading is among them. -/
theorem Among.read {rest : List Token} (h : Among tokens s) (hrest : rest <:+ s.rest) :
    Among tokens { s with rest } where
  seen := List.forall_mem_cons.mpr ⟨h.seen _ (List.mem_cons_self ..),
    fun t ht => h.seen t (List.mem_cons_of_mem _ (hrest.subset ht))⟩
  blamed := h.blamed

/-- An error that blames one of the tokens leaves the state among them. -/
theorem Among.recorded {e : SyntaxError} (h : Among tokens s) (he : e.token ∈ tokens) :
    Among tokens (s.recorded e) where
  seen := h.seen
  blamed := List.forall_mem_append.mpr ⟨h.blamed, List.forall_mem_singleton.mpr he⟩

/-- It is stable that what a parser sees and blames is among its tokens. -/
theorem among_stable (tokens : List Token) : Stable (· ∈ tokens) (Among tokens) where
  seen h := h.seen
  read h hrest := h.read hrest
  numbered h := ⟨h.seen, h.blamed⟩
  reported h ht _ := h.recorded ht
  recovered {s} _ h _ := by
    have hnext : s.rest.headD s.last ∈ s.last :: s.rest := by cases s.rest <;> simp
    exact (h.recorded (h.seen _ hnext)).read (skip_suffix s.rest)

/-- What is stable and holds where a parse begins holds where it has recorded its errors. -/
theorem Stable.parse {P : Token → Prop} {I : ParserState → Prop} (h : Stable P I) {firstId : Occurrence}
    (hstart : I (start tokens firstId)) :
    ∃ t, I t ∧ t.errors = (parse tokens firstId).errors ∧ t.last = (start tokens firstId).last := by
  obtain ⟨t, hrun, herrors, -, hadvances⟩ := program_run tokens firstId
  have hprogram := h.program (start tokens firstId).rest.length (start tokens firstId) hstart
  rw [hrun] at hprogram
  exact ⟨t, hprogram, herrors, hadvances.last⟩

/-- Errors blame tokens that were given to the parser. -/
theorem blamed_mem (hlast : tokens.getLast?.any (·.isEof) = true) (firstId : Occurrence) :
    ∀ e ∈ (parse tokens firstId).errors, e.token ∈ tokens := by
  obtain ⟨input, rfl⟩ := Input.exists_tokens hlast
  have hstart : Among input.tokens (start input.tokens firstId) := by
    rw [input.start_tokens]
    exact ⟨List.forall_mem_cons.mpr ⟨by simp [Input.tokens], fun t ht => List.mem_append_left _ ht⟩, nofun⟩
  obtain ⟨t, hamong, herrors, -⟩ := (among_stable input.tokens).parse hstart
  rw [← herrors]
  exact hamong.blamed

end Among

section Lines

variable {tokens : List Token}

/-- Tokens that are moved to other lines still end with the one that ends the input. -/
theorem getLast?_lines (hlast : tokens.getLast?.any (·.isEof) = true) (f : ℕ → ℕ) :
    (tokens.map (·.relabel (.lines f))).getLast?.any (·.isEof) = true := by
  rw [List.getLast?_map, Option.any_map]
  exact hlast

/-- Errors stay on their lines if the tokens do. -/
theorem errors_lines_eq_self (hlast : tokens.getLast?.any (·.isEof) = true) {f : ℕ → ℕ}
    (hf : ∀ t ∈ tokens, f t.line = t.line) (firstId : Occurrence) :
    (parse tokens firstId).errors.map (·.relabel (.lines f)) = (parse tokens firstId).errors := by
  refine (List.map_congr_left fun e he => ?_).trans (List.map_id' _)
  rw [SyntaxError.relabel, Token.relabel_lines_eq_self (hf _ (blamed_mem hlast firstId e he))]

/-- Lines below a limit stay, and those beyond are moved as they were below it. -/
def beyond (limit : ℕ) (f : ℕ → ℕ) (n : ℕ) : ℕ := if n < limit then n else f (n - limit)

/-- Lines before the limit stay where they are. -/
theorem beyond_of_lt {limit n : ℕ} (f : ℕ → ℕ) (h : n < limit) : beyond limit f n = n := if_pos h

/-- Lines from the limit on are mapped by the function. -/
theorem beyond_add (limit : ℕ) (f : ℕ → ℕ) (n : ℕ) : beyond limit f (limit + n) = f n := by
  rw [beyond, if_neg (by omega), Nat.add_sub_cancel_left]

/-- A parse does not look at lines: on other lines, the same errors blame the same tokens. -/
theorem parse_lines (hlast : tokens.getLast?.any (·.isEof) = true) (f : ℕ → ℕ) (firstId : Occurrence) :
    (parse (tokens.map (·.relabel (.lines f))) firstId).errors =
      (parse tokens firstId).errors.map (·.relabel (.lines f)) := by
  obtain ⟨bound, hbound⟩ := (List.finite_toSet (tokens.map fun t => max t.line (f t.line))).bddAbove
  have hlimit (t : Token) (ht : t ∈ tokens) : t.line < bound + 1 ∧ f t.line < bound + 1 := by
    have hle : max t.line (f t.line) ≤ bound := hbound (List.mem_map.mpr ⟨t, ht, rfl⟩)
    omega
  -- the lines of the marked tokens lie beyond those of the others, so that both can be found from them
  set marked := tokens.map (·.relabel (.lines (bound + 1 + ·))) with hmarked
  have hmarks (g : ℕ → ℕ) (hg : ∀ t ∈ tokens, g t.line < bound + 1) :
      (parse marked firstId).errors.map (·.relabel (.lines (beyond (bound + 1) g))) =
        (parse (tokens.map (·.relabel (.lines g))) firstId).errors := by
    have hstay : ∀ t ∈ tokens.map (·.relabel (.lines g)), beyond (bound + 1) g t.line = t.line :=
      List.forall_mem_map.mpr fun t ht => beyond_of_lt g (hg t ht)
    have hsame : marked.map (·.relabel (.lines (beyond (bound + 1) g))) =
        (tokens.map (·.relabel (.lines g))).map (·.relabel (.lines (beyond (bound + 1) g))) := by
      rw [hmarked, List.map_map, List.map_map]
      refine List.map_congr_left fun t ht => ?_
      simp [Token.relabel, Relabeling.lines, beyond_add, beyond_of_lt g (hg t ht)]
    rw [(parse_alike (fun _ _ => rfl) hsame firstId firstId).1]
    exact errors_lines_eq_self (getLast?_lines hlast g) hstay firstId
  have hplain : tokens.map (·.relabel (.lines id)) = tokens := List.map_id' _
  calc (parse (tokens.map (·.relabel (.lines f))) firstId).errors
      = (parse marked firstId).errors.map (·.relabel (.lines (beyond (bound + 1) f))) :=
        (hmarks f fun t ht => (hlimit t ht).2).symm
    _ = ((parse marked firstId).errors.map (·.relabel (.lines (beyond (bound + 1) id)))).map
          (·.relabel (.lines f)) := by
        rw [List.map_map]
        refine List.map_congr_left fun e he => ?_
        obtain ⟨t, -, ht⟩ := List.mem_map.mp (blamed_mem (getLast?_lines hlast _) firstId e he)
        simp [SyntaxError.relabel, ← ht, Token.relabel, Relabeling.lines, beyond_add]
    _ = (parse tokens firstId).errors.map (·.relabel (.lines f)) := by
        rw [hmarks id fun t ht => (hlimit t ht).1, hplain]

end Lines

section Positions

/-- The tokens with their positions for lines. -/
def placed (tokens : List Token) : List Token := tokens.mapIdx fun i t => { t with line := i }

variable {tokens : List Token}

/-- A token that is placed stands on the line of its position, and is the same otherwise. -/
theorem getElem?_placed (i : ℕ) : (placed tokens)[i]? = tokens[i]?.map fun t => { t with line := i } := by
  rw [placed, List.getElem?_mapIdx]

/-- Placed tokens are the tokens again when they are given back their own lines. -/
theorem placed_lines (tokens : List Token) :
    (placed tokens).map (·.relabel (.lines fun i => (tokens[i]?.map (·.line)).getD 0)) = tokens := by
  refine List.ext_getElem? fun i => ?_
  rw [List.getElem?_map, getElem?_placed]
  cases htoken : tokens[i]? with
  | none => rfl
  | some t => simp [Token.relabel, Relabeling.lines, htoken]

/-- Tokens that are placed still end with the one that ends the input. -/
theorem getLast?_placed (hlast : tokens.getLast?.any (·.isEof) = true) :
    (placed tokens).getLast?.any (·.isEof) = true := by
  rw [← placed_lines tokens, List.getLast?_map, Option.any_map] at hlast
  exact hlast

/-- The input ends at the same position when its tokens are placed. -/
theorem findIdx_placed : (placed tokens).findIdx (·.isEof) = tokens.findIdx (·.isEof) := by
  conv_rhs => rw [← placed_lines tokens, List.findIdx_map]
  rfl

/-- The errors of a parse are found in the parse of the placed tokens, where each names a position. -/
theorem errors_placed (hlast : tokens.getLast?.any (·.isEof) = true) (firstId : Occurrence) :
    (parse tokens firstId).errors.map (fun e => (some e.token, e.cause)) =
      (parse (placed tokens) firstId).errors.map fun e => (tokens[e.token.line]?, e.cause) := by
  have hlines := parse_lines (getLast?_placed hlast) (fun i => (tokens[i]?.map (·.line)).getD 0) firstId
  rw [placed_lines] at hlines
  rw [hlines, List.map_map]
  refine List.map_congr_left fun e he => ?_
  obtain ⟨i, hi⟩ := List.mem_iff_getElem?.mp (blamed_mem (getLast?_placed hlast) firstId e he)
  rw [getElem?_placed] at hi
  obtain ⟨t, ht, htoken⟩ := Option.map_eq_some_iff.mp hi
  simp [SyntaxError.relabel, ← htoken, Token.relabel, Relabeling.lines, ht]

end Positions

end Grammar

end Lox
