import Mathlib
import Lox.Proofs.Cursor.Statements
import Lox.Proofs.Grammar.Programs

/-!
# Programs at a position

Where a list of tokens ends with one that ends the input, the parser at a position comes to its end with what
the parser that runs yields. On its way it visits every position up to the first token that ends the input
once, one after the other, and looks at no token out of range; a declaration that begins before this end
moves it on, whether it is given up or not.
-/

set_option autoImplicit false

namespace Lox

namespace Input

/-- Tokens of which the last ends the input have a first one that does. -/
theorem exists_tokens {tokens : List Token} (h : tokens.getLast?.any (·.isEof) = true) :
    ∃ input : Input, input.tokens = tokens := by
  obtain ⟨t, hlast, heof⟩ := (Option.any_eq_true _ _).mp h
  have hsome : (tokens.find? (·.isEof)).isSome = true :=
    List.find?_isSome.mpr ⟨t, List.mem_of_getLast? hlast, heof⟩
  obtain ⟨last, hfound⟩ := Option.isSome_iff_exists.mp hsome
  obtain ⟨hends, front, behind, htokens, hinside⟩ := List.find?_eq_some_iff_append.mp hfound
  exact ⟨⟨front, last, behind, fun u hu => by simpa using hinside u hu, hends⟩, htokens.symm⟩

variable (input : Input)

/-- There is at least the token that ends the input. -/
theorem front_lt_tokens : input.front.length < input.tokens.length := by
  rw [Input.tokens, List.length_append, List.length_cons]
  omega

/-- The first token that ends the input stands behind the front. -/
theorem findIdx_tokens : input.tokens.findIdx (·.isEof) = input.front.length := by
  rw [Input.tokens, List.findIdx_append]
  have hfront : input.front.findIdx (·.isEof) = input.front.length :=
    List.findIdx_eq_length.mpr input.inside
  rw [hfront, if_neg (Nat.lt_irrefl _), List.findIdx_cons, input.ends, cond_true, Nat.zero_add]

/-- A parse starts with the front. -/
theorem start_tokens (firstId : Occurrence) :
    Grammar.start input.tokens firstId = ⟨input.front, input.last, firstId, []⟩ := by
  have hrest : input.tokens.takeWhile (!·.isEof) = input.front := by
    rw [Input.tokens, List.takeWhile_append_of_pos fun t ht => by simpa using input.inside t ht,
      List.takeWhile_cons, input.ends]
    exact List.append_nil _
  have hlast : input.tokens.find? (·.isEof) = some input.last := by
    rw [Input.tokens, List.find?_append, List.find?_eq_none.mpr fun t ht => by simp [input.inside t ht],
      List.find?_cons, input.ends]
    rfl
  rw [Grammar.start, hrest, hlast]
  rfl

end Input

namespace Cursor

open Renumberable (renumber bearers)

/-- At the start, no numbers have been given out. -/
@[simp] theorem noted_start (tokens : List Token) (firstId : Occurrence) : (start tokens firstId).noted = 0 := rfl

/-- A look at the position leaves the cursor where it is. -/
theorem atEnd_stays {c c' : Cursor} {b : Bool} (h : Reading.atEnd c = .ok b c') : c' = c := by
  obtain ⟨t, c₁, hpeek, hpure⟩ := Reading.of_bind_ok h
  cases hpure
  simp only [Reading.peek, Reading.tokenAt] at hpeek
  split at hpeek <;> cases hpeek
  rfl

/-- A loop over all declarations ends where nothing is left. -/
theorem atEnd_of_declarationsWhile {c c' : Cursor} {d : Reading (Option Stmt)} {fuel : Nat} {ss : List Stmt}
    (h : Reading.declarationsWhile (do return !(← Reading.atEnd)) d fuel c = .ok ss c') :
    Reading.atEnd c' = .ok true c' := by
  induction fuel generalizing c ss with
  | zero => cases h
  | succ fuel ih =>
    obtain ⟨goesOn, c₁, hmore, hround⟩ := Reading.of_bind_ok h
    obtain ⟨ends, c₂, hends, hpure⟩ := Reading.of_bind_ok hmore
    cases hpure
    cases ends with
    | true =>
      cases hround
      rwa [← atEnd_stays hends] at hends
    | false =>
      obtain ⟨first, c₂, -, hrest⟩ := Reading.of_bind_ok hround
      obtain ⟨others, c₃, hothers, hpure⟩ := Reading.of_bind_ok hrest
      cases hpure
      exact ih hothers

variable {input : Input} {f : Occurrence → Occurrence} {i j : Occurrence}

/-- A parse starts at the first position. -/
theorem start_shows (hids : ∀ k, j + k = f (i + k)) :
    Shows input f (start input.tokens j) (start input.tokens j) (Grammar.start input.tokens i) := by
  rw [input.start_tokens]
  exact ⟨.refl _, rfl, Nat.zero_le _, rfl, rfl, rfl, hids⟩

/-- The parser at a position parses what the parser that runs does. -/
theorem program_agrees (hids : ∀ k, j + k = f (i + k)) {fuel : Nat} (hfuel : input.front.length < fuel) :
    ∃ c t, Reading.program fuel (start input.tokens j) =
        .ok (renumber f (Grammar.parse input.tokens i).statements) c ∧
      Shows input f (start input.tokens j) c t ∧ t.rest = [] ∧
      t.errors = (Grammar.parse input.tokens i).errors ∧ t.nextId = (Grammar.parse input.tokens i).nextId ∧
      (t.errors = [] → bearers (renumber f (Grammar.parse input.tokens i).statements) = c.noted) := by
  obtain ⟨t, hrun, herrors, hnext, -⟩ := Grammar.program_run input.tokens i
  have hshows : Shows input f (start input.tokens j) (start input.tokens j) (Grammar.start input.tokens i) :=
    start_shows hids
  have hdeclaration : AgreesBefore input f (start input.tokens j) (input.front.length + 1)
      (Grammar.declaration input.front.length) (Reading.declaration fuel) :=
    (statement_and_declaration_agree (Nat.le_refl (input.front.length + 1)) hfuel).2
  have hmore {s c} (h : Shows input f (start input.tokens j) c s) :
      (do return !(← Reading.atEnd) : Reading Bool) c =
        .ok (!(s.rest.isEmpty || s.rest.head?.any fun _ => false)) c := by
    refine (Reading.bind_ok h.atEnd_eq).trans ?_
    cases s.rest <;> rfl
  have hlength : (Grammar.start input.tokens i).rest.length = input.front.length := by rw [input.start_tokens]
  have hprogram := declarationsUntil_agrees hmore hdeclaration (Nat.le_refl _) (Nat.le_refl _) hfuel _ _ hshows
    (by rw [hlength]; exact Nat.lt_succ_self _)
  rw [hlength] at hrun
  rw [AgreesAt, show Grammar.declarationsUntil _ _ _ _ = _ from hrun] at hprogram
  obtain ⟨c, hq, hshows', -, hbearers⟩ := hprogram
  refine ⟨c, t, hq, hshows', ?_, herrors, hnext, fun hclean => ?_⟩
  · have hend := atEnd_of_declarationsWhile hq
    rw [hshows'.atEnd_eq] at hend
    cases hs : t.rest with
    | nil => rfl
    | cons u rest =>
      rw [hs] at hend
      cases hend
  · have hnoted := hbearers (hshows'.errors.trans hclean)
    rwa [zero_add, noted_start, add_zero] at hnoted

/-- Wherever a token is left, a declaration comes to its end behind it. -/
theorem declaration_moves {c : Cursor} (htokens : c.tokens = input.tokens) (hinside : c.current < input.front.length)
    {fuel : Nat} (hfuel : input.front.length < fuel) :
    ∃ result c', Reading.declaration fuel c = .ok result c' ∧ c.current < c'.current ∧
      c'.current ≤ input.front.length ∧
      c'.path = c.path ++ List.range' (c.current + 1) (c'.current - c.current) := by
  have hshows : Shows input id c c ⟨input.front.drop c.current, input.last, c.nextId, c.errors⟩ :=
    ⟨.refl c, htokens, Nat.le_of_lt hinside, rfl, rfl, rfl, fun _ => rfl⟩
  have hne : input.front.drop c.current ≠ [] := by
    rw [Ne, List.drop_eq_nil_iff]
    omega
  have hagrees := (statement_and_declaration_agree (Nat.le_refl (input.front.length + 1)) hfuel).2 _ c hshows hne
    (Nat.lt_succ_of_le (by rw [List.length_drop]; omega))
  obtain ⟨result, t, hrun⟩ := Grammar.declaration_ok input.front.length
    ⟨input.front.drop c.current, input.last, c.nextId, c.errors⟩
  rw [AgreesAt, hrun] at hagrees
  obtain ⟨c', hq, hshows', hlater, -⟩ := hagrees
  exact ⟨_, c', hq, hlater.current, hshows'.within, hshows'.since.path⟩

/-- Where the last token ends the input, the parser at a position always comes to its end, where the first
token stands that ends the input: no token is looked at out of range, since that would have stopped it. It goes
from each position to the next one, and every declaration moves it on; so does one that is read at any other
position before that end. It finds what the parser that runs does. -/
theorem program_comes_to_end {tokens : List Token} (hlast : tokens.getLast?.any (·.isEof) = true) :
    (∀ firstId fuel, tokens.length ≤ fuel → ∃ c, Reading.program fuel (start tokens firstId) =
        .ok (Grammar.parse tokens firstId).statements c ∧
      c.errors = (Grammar.parse tokens firstId).errors ∧ c.nextId = (Grammar.parse tokens firstId).nextId ∧
      c.current = tokens.findIdx (·.isEof) ∧ c.path = List.range (c.current + 1) ∧
      ∀ d ∈ c.declared, d.1 < d.2) ∧
    ∀ (c : Cursor) fuel, c.tokens = tokens → c.current < tokens.findIdx (·.isEof) → tokens.length ≤ fuel →
      ∃ result c', Reading.declaration fuel c = .ok result c' ∧ c.current < c'.current ∧
        c'.current ≤ tokens.findIdx (·.isEof) ∧
        c'.path = c.path ++ List.range' (c.current + 1) (c'.current - c.current) := by
  obtain ⟨input, rfl⟩ := Input.exists_tokens hlast
  have hfront := input.front_lt_tokens
  rw [input.findIdx_tokens]
  refine ⟨fun firstId fuel hfuel => ?_, fun c fuel htokens hinside hfuel =>
    declaration_moves htokens hinside (Nat.lt_of_lt_of_le hfront hfuel)⟩
  obtain ⟨c, t, hrun, hshows, hrest, herrors, hnext, -⟩ :=
    program_agrees (f := id) (fun k => rfl) (Nat.lt_of_lt_of_le hfront hfuel)
  have hcurrent : c.current = input.front.length := by
    have hlength := hshows.length
    rwa [hrest, List.length_nil, Nat.add_zero] at hlength
  obtain ⟨declared, hdeclared, hforward⟩ := hshows.since.declared
  have hsame : renumber id (Grammar.parse input.tokens firstId).statements =
      (Grammar.parse input.tokens firstId).statements := Stmt.relabelAll_id _
  rw [hsame] at hrun
  refine ⟨c, hrun, hshows.errors.trans herrors, (hshows.numbers 0).trans hnext, hcurrent, ?_, ?_⟩
  · rw [hshows.since.path, List.range_eq_range', List.range'_succ]
    rfl
  · rw [hdeclared]
    exact hforward

/-- A block that is never closed. -/
def unclosedBlock : List Token := [⟨.symbol .leftBrace, "\x7b", 1⟩, .eofAt 1]

/-- The error at the end leaves nothing to skip: recovery looks back at the brace. -/
theorem unclosedBlock_comes_to_end :
    (∃ c, Reading.program 2 (start unclosedBlock 0) = .ok [] c ∧ c.errors = [⟨.eofAt 1, .noBlockEnd⟩] ∧
      c.path = [0, 1] ∧ ∀ d ∈ c.declared, d.1 < d.2) ∧
    ∃ result c', Reading.declaration 2 (start unclosedBlock 0) = .ok result c' ∧ c'.current = 1 := by
  have hlast : unclosedBlock.getLast?.any (·.isEof) = true := rfl
  have hparse : Grammar.parse unclosedBlock 0 = ⟨[], [⟨.eofAt 1, .noBlockEnd⟩], 0⟩ := rfl
  obtain ⟨c, hrun, herrors, -, hcurrent, hpath, hdeclared⟩ := (program_comes_to_end hlast).1 0 2 (Nat.le_refl 2)
  obtain ⟨result, c', hdeclaration, hmoved, hinside, -⟩ :=
    (program_comes_to_end hlast).2 (start unclosedBlock 0) 2 rfl Nat.one_pos (Nat.le_refl 2)
  rw [hparse] at hrun herrors
  refine ⟨⟨c, hrun, herrors, ?_, hdeclared⟩, result, c', hdeclaration, Nat.le_antisymm hinside hmoved⟩
  rw [hpath, hcurrent]
  rfl

section Numbers

variable {tokens : List Token} (hlast : tokens.getLast?.any (·.isEof) = true)
include hlast

/-- A parse numbers the operands that are read at a position, in their order; if it finds no error, the tree
bears these numbers and no others, each once. -/
theorem numbers_of_parse (firstId : Occurrence) :
    ∃ c, Reading.program tokens.length (start tokens firstId) = .ok (Grammar.parse tokens firstId).statements c ∧
      Operand.InOrder tokens firstId 0 (tokens.findIdx (·.isEof)) c.operands ∧
      (Grammar.parse tokens firstId).nextId = firstId + c.operands.length ∧
      ((Grammar.parse tokens firstId).errors = [] →
        Stmt.bearersAll (Grammar.parse tokens firstId).statements = (c.operands.map Operand.use : List _)) := by
  obtain ⟨input, rfl⟩ := Input.exists_tokens hlast
  obtain ⟨c, t, hrun, hshows, hrest, herrors, hnext, hbearers⟩ :=
    program_agrees (f := id) (i := firstId) (fun k => rfl) input.front_lt_tokens
  have hsame : renumber id (Grammar.parse input.tokens firstId).statements =
      (Grammar.parse input.tokens firstId).statements := Stmt.relabelAll_id _
  rw [hsame] at hrun hbearers
  have hcurrent : c.current = input.front.length := by
    have hlength := hshows.length
    rwa [hrest, List.length_nil, Nat.add_zero] at hlength
  obtain ⟨new, hnew, hid, horder⟩ := hshows.since.operands
  rw [show (start input.tokens firstId).operands = [] from rfl, List.nil_append] at hnew
  rw [hshows.tokens, hcurrent, ← input.findIdx_tokens, ← hnew] at horder
  rw [← hnew] at hid
  exact ⟨c, hrun, horder, hnext.symm.trans ((hshows.numbers 0).symm.trans hid),
    fun hclean => hbearers (herrors.trans hclean)⟩

/-- From another first number, a parse finds the same errors, and gives out as many numbers and yields the
same trees from there. -/
theorem parse_shifted (i j : Occurrence) :
    (Grammar.parse tokens j).errors = (Grammar.parse tokens i).errors ∧
      (Grammar.parse tokens j).statements =
        Stmt.relabelAll (.renumbering fun id => j + (id - i)) (Grammar.parse tokens i).statements ∧
      (Grammar.parse tokens j).nextId = j + ((Grammar.parse tokens i).nextId - i) := by
  obtain ⟨input, rfl⟩ := Input.exists_tokens hlast
  obtain ⟨c, t, hrun, hshows, -, herrors, hnext, -⟩ := program_agrees (f := fun id => j + (id - i)) (i := i) (j := j)
    (fun k => by rw [Nat.add_sub_cancel_left]) input.front_lt_tokens
  obtain ⟨c', t', hrun', hshows', -, herrors', hnext', -⟩ :=
    program_agrees (f := id) (i := j) (fun k => rfl) input.front_lt_tokens
  rw [hrun] at hrun'
  obtain ⟨hstatements, rfl⟩ := EStateM.Result.ok.inj hrun'
  refine ⟨?_, (hstatements.trans (Stmt.relabelAll_id _)).symm, ?_⟩
  · rw [← herrors, ← herrors', ← hshows.errors, ← hshows'.errors]
  · rw [← hnext, ← hnext']
    exact (hshows'.numbers 0).symm.trans (hshows.numbers 0)

end Numbers

end Cursor

end Lox
