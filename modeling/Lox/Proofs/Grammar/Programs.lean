import Lox.Proofs.Grammar.StatementFollows

/-!
# Programs in a row

Two parses of the same tokens, seen through a respelling, find the same errors and yield the same
statements. And tokens may be followed by others: the errors and the statements of both stand in a row, as
if each had been parsed on its own. For this the others must not begin with `else`, and the first tokens
must be parsed without errors, or end with a semicolon and have no error at their end.
-/

set_option autoImplicit false

namespace Lox.Grammar

open Lox.Parser

/-- The state in which a parse of tokens starts. -/
def start (tokens : List Token) (firstId : Occurrence) : ParserState :=
  ⟨tokens.takeWhile (!·.isEof), (tokens.find? (·.isEof)).getD (.eofAt 1), firstId, []⟩

/-- The parse of tokens, from what the program of these tokens is. -/
theorem parse_eq_start (tokens : List Token) (firstId : Occurrence) :
    parse tokens firstId =
      match program (start tokens firstId).rest.length (start tokens firstId) with
      | .ok statements s => ⟨statements, s.errors, s.nextId⟩
      | .error e s => ⟨[], s.errors ++ [e], s.nextId⟩ := rfl

section Runs

/-- A statement in which an error is recovered from always has a result, if only none. -/
theorem recovering_ok (p : Parser Stmt) (s : ParserState) : ∃ a t, recovering p s = .ok a t := by
  unfold recovering
  cases p s with
  | ok stmt t => exact ⟨_, _, rfl⟩
  | error e t => exact ⟨_, _, rfl⟩

/-- A declaration always has a result, since its errors are recovered from. -/
theorem declaration_ok (bound : Nat) (s : ParserState) : ∃ a t, declaration bound s = .ok a t := by
  cases bound with
  | zero => exact recovering_ok _ s
  | succ bound => exact recovering_ok _ s

/-- A loop over declarations does not fail, since each of them recovers. -/
theorem declarationsUntil_ok (stop : Token → Bool) (n bound : Nat) (s : ParserState) :
    ∃ ss t, declarationsUntil stop (declaration n) bound s = .ok ss t := by
  induction bound generalizing s with
  | zero => exact ⟨_, _, rfl⟩
  | succ bound ih =>
    cases hs : s.rest with
    | nil => exact ⟨_, _, declarationsUntil_end stop _ _ s hs⟩
    | cons t rest =>
      rw [declarationsUntil_cons stop _ bound hs]
      cases stop t with
      | true => exact ⟨_, _, rfl⟩
      | false =>
        obtain ⟨first, s₁, hfirst⟩ := declaration_ok n s
        obtain ⟨others, s₂, hothers⟩ := ih s₁
        simp only [Bool.false_eq_true, if_false, bind, EStateM.bind, hfirst, hothers]
        exact ⟨_, _, rfl⟩

/-- A parse is a run of the program to the state that it leaves. -/
theorem program_run (tokens : List Token) (i : Occurrence) :
    ∃ t, program (start tokens i).rest.length (start tokens i) = .ok (parse tokens i).statements t ∧
      t.errors = (parse tokens i).errors ∧ t.nextId = (parse tokens i).nextId ∧
      Advances (start tokens i) t := by
  have hyields := program_yields (start tokens i).rest.length (start tokens i)
  obtain ⟨ss, t, hrun⟩ := declarationsUntil_ok (fun _ => false) (start tokens i).rest.length
    (start tokens i).rest.length (start tokens i)
  change program (start tokens i).rest.length (start tokens i) = .ok ss t at hrun
  rw [parse_eq_start, hrun]
  rw [hrun] at hyields
  exact ⟨t, rfl, rfl, rfl, hyields.1⟩

/-- A parse without errors ends at the end of the program. -/
theorem program_of_clean {tokens : List Token} {i : Occurrence} (h : (parse tokens i).errors = []) :
    ∃ t, program (start tokens i).rest.length (start tokens i) = .ok (parse tokens i).statements t ∧
      t.errors = [] ∧ Advances (start tokens i) t := by
  obtain ⟨t, hrun, herrors, -, hadvances⟩ := program_run tokens i
  exact ⟨t, hrun, herrors.trans h, hadvances⟩

end Runs

variable {V : Respelling}

/-- The tokens at the start, respelled, are the respelled tokens up to the end of the input. -/
theorem start_rest_map (tokens : List Token) (firstId : Occurrence) :
    (start tokens firstId).rest.map (·.respell V) =
      (tokens.map (·.respell V)).takeWhile (!·.isEof) := by
  rw [List.takeWhile_map]
  rfl

/-- The last token at the start, respelled, is the respelled token that ends the input. -/
theorem start_last (tokens : List Token) (firstId : Occurrence) :
    (start tokens firstId).last.respell V =
      ((tokens.map (·.respell V)).find? (·.isEof)).getD ((Token.eofAt 1).respell V) := by
  rw [List.find?_map]
  show ((tokens.find? (·.isEof)).getD (.eofAt 1)).respell V =
    ((tokens.find? (·.isEof)).map (·.respell V)).getD _
  cases tokens.find? (·.isEof) <;> rfl

/-- The last token at the start ends the input. -/
theorem start_ends (tokens : List Token) (firstId : Occurrence) :
    (start tokens firstId).last.kind = .eof := by
  show ((tokens.find? (·.isEof)).getD (.eofAt 1)).kind = .eof
  cases hfound : tokens.find? (·.isEof) with
  | none => rfl
  | some t =>
    have ht : t.kind.isEof = true := (List.find?_some hfound :)
    rw [Option.getD_some]
    cases hkind : t.kind with
    | eof => rfl
    | _ =>
      rw [hkind] at ht
      cases ht

/-- The same tokens start in linked states, if the numbers are the same too. -/
theorem start_linked {tokens tokens' : List Token} {i j : Occurrence}
    (h : tokens'.map (·.respell V) = tokens.map (·.respell V))
    (hids : ∀ k, V.occurrence (j + k) = V.occurrence (i + k)) :
    Linked V [] [] (start tokens i) (start tokens' j) where
  rest := by rw [List.append_nil, start_rest_map, start_rest_map, h]
  last := by rw [start_last, start_last, h]
  ends := start_ends tokens i
  errors := rfl
  numbers := hids

/-- Declarations to the end of the input are parsed alike, if nothing comes behind. -/
theorem declarations_follow {before : List SyntaxError} {s s' : ParserState}
    (hlinked : Linked V before [] s s') {n n' bound bound' : Nat}
    (hn : s.rest.length ≤ n) (hn' : s.rest.length ≤ n') (hbound : s.rest.length ≤ bound)
    (hbound' : s.rest.length ≤ bound') :
    FollowsAt V before [] true 0 (Stmt.respellAll V)
      (declarationsUntil (fun _ => false) (declaration n) bound)
      (declarationsUntil (fun _ => false) (declaration n') bound') s s' :=
  declarationsUntil_follows (fun _ => rfl) (statement_and_declaration_follow rfl hn hn').2
    (Nat.le_refl _) hbound hbound' s s' hlinked (Nat.le_refl _)

/-- Parses of the same tokens, from the same numbers, find the same errors and yield the same statements. -/
theorem parse_respelled {tokens tokens' : List Token} {i j : Occurrence}
    (h : tokens'.map (·.respell V) = tokens.map (·.respell V))
    (hids : ∀ k, V.occurrence (j + k) = V.occurrence (i + k)) :
    (parse tokens' j).errors.map (·.respell V) = (parse tokens i).errors.map (·.respell V) ∧
      Stmt.respellAll V (parse tokens' j).statements =
        Stmt.respellAll V (parse tokens i).statements := by
  have hlinked : Linked V [] [] (start tokens i) (start tokens' j) := start_linked h hids
  have hlength : (start tokens i).rest.length = (start tokens' j).rest.length := by
    simpa using hlinked.length.symm
  have hprogram : FollowsAt V [] [] true 0 (Stmt.respellAll V) (program (start tokens i).rest.length)
      (program (start tokens' j).rest.length) (start tokens i) (start tokens' j) :=
    declarations_follow hlinked (Nat.le_refl _) (Nat.le_of_eq hlength) (Nat.le_refl _)
      (Nat.le_of_eq hlength)
  obtain ⟨t, hrun, herrors, -, -⟩ := program_run tokens i
  obtain ⟨t', hrun', herrors', -, -⟩ := program_run tokens' j
  rw [FollowsAt, hrun] at hprogram
  obtain ⟨ss', t', hp', hss, ht⟩ := hprogram.2.2 (.inl rfl)
  rw [hp'] at hrun'
  cases hrun'
  exact ⟨by rw [← herrors, ← herrors', ht.errors, List.nil_append], hss⟩

/-- Parses of tokens that differ in their labels find the same errors and yield the same statements. -/
theorem parse_alike {V : Relabeling} (hV : ∀ i j, V.occurrence i = V.occurrence j)
    {tokens tokens' : List Token} (h : tokens'.map (·.relabel V) = tokens.map (·.relabel V))
    (i j : Occurrence) :
    (parse tokens' j).errors.map (·.relabel V) = (parse tokens i).errors.map (·.relabel V) ∧
      Stmt.relabelAll V (parse tokens' j).statements =
        Stmt.relabelAll V (parse tokens i).statements := by
  simpa using parse_respelled (V := V.respelling) h fun _ => hV _ _

/-- A parse does not depend on the first number, but for the numbers it gives out. -/
theorem parse_renumber (tokens : List Token) (i j : Occurrence) :
    (parse tokens j).errors = (parse tokens i).errors ∧
      Stmt.relabelAll .anonymous (parse tokens j).statements =
        Stmt.relabelAll .anonymous (parse tokens i).statements := by
  have h := parse_alike (V := .anonymous) (fun _ _ => rfl) (rfl : tokens.map _ = tokens.map _) i j
  have hsame : (fun e : SyntaxError => e.relabel .anonymous) = id := rfl
  rw [hsame, List.map_id, List.map_id] at h
  exact h

section Append

/-- A loop over declarations yields `ss` first, as `V` sees it, and then goes on with what comes behind `t`. -/
def GoesOn (V : Respelling) (before : List SyntaxError) (ahead : List Token) (n bound : Nat)
    (s : ParserState) (ss : List Stmt) (t : ParserState) : Prop :=
  ∃ ss' rest u, Stmt.respellAll V ss' = Stmt.respellAll V ss ∧ Linked V before ahead t u ∧
    t.rest = [] ∧ ahead.length ≤ rest ∧
    declarationsUntil (fun _ => false) (declaration n) bound s =
      match declarationsUntil (fun _ => false) (declaration n) rest u with
      | .ok more v => .ok (ss' ++ more) v
      | .error e v => .error e v

variable {before : List SyntaxError} {ahead : List Token} {n n' bound' : Nat} {s s' t : ParserState}
  {ss : List Stmt}

/-- Nothing is read where nothing is left. -/
theorem goesOn_end {bound : Nat} {d : Parser (Option Stmt)} (hlinked : Linked V before ahead s s')
    (hs : s.rest = []) (hbound' : s.rest.length + ahead.length ≤ bound')
    (h : declarationsUntil (fun _ => false) d bound s = .ok ss t) :
    GoesOn V before ahead n' bound' s' ss t := by
  rw [declarationsUntil_end _ _ _ s hs] at h
  cases h
  refine ⟨[], bound', s', rfl, hlinked, hs, by omega, ?_⟩
  split <;> assumption

/-- Behind declarations whose errors are contained, the second run goes on with what comes behind. -/
theorem declarations_append (helse : ahead.head?.any (·.isKeyword .else) = false) (bound : Nat)
    (hlinked : Linked V before ahead s s') (hn : s.rest.length ≤ n)
    (hn' : s.rest.length + ahead.length ≤ n') (hbound : s.rest.length ≤ bound)
    (hbound' : s.rest.length + ahead.length ≤ bound')
    (h : declarationsUntil (fun _ => false) (declaration n) bound s = .ok ss t)
    (hcontained : Contained s t) : GoesOn V before ahead n' bound' s' ss t := by
  induction bound generalizing s s' ss bound' with
  | zero => exact goesOn_end hlinked (List.length_eq_zero_iff.mp (Nat.le_zero.mp hbound)) hbound' h
  | succ bound ih =>
    cases hs : s.rest with
    | nil => exact goesOn_end hlinked hs hbound' h
    | cons t₀ rest₀ =>
      have hne : s.rest ≠ [] := hs ▸ List.cons_ne_nil t₀ rest₀
      have hlength : 1 ≤ s.rest.length := List.length_pos_iff.mpr hne
      obtain ⟨bound', rfl⟩ := Nat.exists_eq_add_of_le' (show 1 ≤ bound' by omega)
      obtain ⟨t₀', rest₀', hs', -, -⟩ := hlinked.cons hs
      obtain ⟨first, s₁, hfirst⟩ := declaration_ok n s
      obtain ⟨others, s₂, hothers⟩ := declarationsUntil_ok (fun _ => false) n bound s₁
      rw [declarationsUntil_cons _ _ _ hs] at h
      simp only [Bool.false_eq_true, if_false, bind, EStateM.bind, hfirst, hothers] at h
      cases h
      have hrest := declarationsUntil_yields (statement_and_declaration_yield n).2 (fun _ => false) bound s₁
      have hd := (statement_and_declaration_follow helse hn hn').2 s s' hlinked hne (Nat.le_refl _)
      rw [hothers] at hrest
      rw [FollowsAt, hfirst] at hd
      obtain ⟨hadvances, hread, hok⟩ := hd
      -- the errors of the first declaration alone are contained, since all errors are
      obtain ⟨hcontained₁, hcontained₂⟩ := hcontained.both hadvances hrest.1
      obtain ⟨first', s₁', hfirst', hview, hlinked₁⟩ := hok (.inr ⟨hcontained₁, by simp⟩)
      obtain ⟨ss', rest, u, hss, hu, hempty, hle, hloop⟩ : GoesOn V before ahead n' bound' s₁' others t :=
        ih hlinked₁ (by omega) (by omega) (by omega) (by omega) hothers hcontained₂
      refine ⟨first'.toList ++ ss', rest, u, respellAll_toList_append hview hss, hu, hempty, hle, ?_⟩
      rw [declarationsUntil_cons _ _ _ hs']
      simp only [Bool.false_eq_true, if_false, bind, EStateM.bind, hfirst', hloop]
      cases declarationsUntil (fun _ => false) (declaration n') rest u with
      | ok more v => simp only [List.append_assoc]; rfl
      | error e v => rfl

/-- Tokens that are parsed one after the other are parsed together as each for itself, if the errors of the
first are contained and the second do not begin with `else`. -/
theorem parse_row_respelled {tokens₁ tokens₂ tokens : List Token} {i j k : Occurrence}
    (hrest : (start tokens k).rest.map (·.respell V) =
      ((start tokens₁ i).rest ++ (start tokens₂ j).rest).map (·.respell V))
    (hlast : (start tokens k).last.respell V = (start tokens₁ i).last.respell V)
    (hlast' : (start tokens₁ i).last.respell V = (start tokens₂ j).last.respell V)
    (hids : ∀ n, V.occurrence (k + n) = V.occurrence (i + n))
    (hids' : ∀ n, V.occurrence ((parse tokens₁ i).nextId + n) = V.occurrence (j + n))
    (helse : (start tokens₂ j).rest.head?.any (·.isKeyword .else) = false)
    (hinside : ∀ e ∈ (parse tokens₁ i).errors, e.token.isEof = false)
    (hclosed : (parse tokens₁ i).errors ≠ [] → Closed (start tokens₁ i).rest) :
    (parse tokens k).errors.map (·.respell V) =
        ((parse tokens₁ i).errors ++ (parse tokens₂ j).errors).map (·.respell V) ∧
      Stmt.respellAll V (parse tokens k).statements =
        Stmt.respellAll V ((parse tokens₁ i).statements ++ (parse tokens₂ j).statements) ∧
      ∀ n, V.occurrence ((parse tokens k).nextId + n) =
        V.occurrence ((parse tokens₂ j).nextId + n) := by
  obtain ⟨t, hrun, herrors, hnext, hadvances⟩ := program_run tokens₁ i
  obtain ⟨t₂, hrun₂, herrors₂, hnext₂, -⟩ := program_run tokens₂ j
  obtain ⟨w, hrunBoth, herrorsBoth, hnextBoth, -⟩ := program_run tokens k
  have hlinked : Linked V [] (start tokens₂ j).rest (start tokens₁ i) (start tokens k) :=
    ⟨hrest, hlast, start_ends tokens₁ i, rfl, hids⟩
  have hlength := hlinked.length
  have hcontained : Contained (start tokens₁ i) t :=
    ⟨(parse tokens₁ i).errors, herrors, hinside, hclosed⟩
  obtain ⟨ss', rest, u, hss, hu, hempty, hle, hloop⟩ : GoesOn V [] (start tokens₂ j).rest
      (start tokens k).rest.length (start tokens k).rest.length (start tokens k)
      (parse tokens₁ i).statements t :=
    declarations_append helse _ hlinked (Nat.le_refl _) (by omega) (Nat.le_refl _) (by omega) hrun
      hcontained
  -- behind the first tokens, the parse is where the parse of the second tokens starts
  have hbehind : Linked V (parse tokens₁ i).errors [] (start tokens₂ j) u :=
    { rest := by rw [hu.nil hempty, List.append_nil]
      last := by rw [hu.last, hadvances.last, hlast']
      ends := start_ends tokens₂ j
      errors := by rw [hu.errors, herrors, List.nil_append]; exact congrArg _ (List.append_nil _).symm
      numbers := fun n => by rw [hu.numbers, hnext]; exact hids' n }
  have hsecond : FollowsAt V (parse tokens₁ i).errors [] true 0 (Stmt.respellAll V)
      (program (start tokens₂ j).rest.length)
      (declarationsUntil (fun _ => false) (declaration (start tokens k).rest.length) rest)
      (start tokens₂ j) u :=
    declarations_follow hbehind (Nat.le_refl _) (by omega) (Nat.le_refl _) hle
  rw [FollowsAt, hrun₂] at hsecond
  obtain ⟨more, v, hmore, hmores, hv⟩ := hsecond.2.2 (.inl rfl)
  rw [program, hloop, hmore] at hrunBoth
  obtain ⟨hstatements, rfl⟩ : ss' ++ more = (parse tokens k).statements ∧ v = w :=
    EStateM.Result.ok.inj hrunBoth
  refine ⟨?_, ?_, fun n => ?_⟩
  · rw [← herrorsBoth, ← herrors₂, hv.errors]
  · rw [← hstatements]
    simp only [Stmt.respellAll_eq_map, List.map_append] at hss hmores ⊢
    rw [hss, hmores]
  · rw [← hnextBoth, ← hnext₂, hv.numbers]

/-- Tokens in a row that differ in their labels are parsed one after the other. -/
theorem parse_row {V : Relabeling} {tokens₁ tokens₂ tokens : List Token} {i j k : Occurrence}
    (hrest : (start tokens k).rest.map (·.relabel V) =
      ((start tokens₁ i).rest ++ (start tokens₂ j).rest).map (·.relabel V))
    (hlast : (start tokens k).last.relabel V = (start tokens₁ i).last.relabel V)
    (hlast' : (start tokens₁ i).last.relabel V = (start tokens₂ j).last.relabel V)
    (hids : ∀ n, V.occurrence (k + n) = V.occurrence (i + n))
    (hids' : ∀ n, V.occurrence ((parse tokens₁ i).nextId + n) = V.occurrence (j + n))
    (helse : (start tokens₂ j).rest.head?.any (·.isKeyword .else) = false)
    (hinside : ∀ e ∈ (parse tokens₁ i).errors, e.token.isEof = false)
    (hclosed : (parse tokens₁ i).errors ≠ [] → Closed (start tokens₁ i).rest) :
    (parse tokens k).errors.map (·.relabel V) =
        ((parse tokens₁ i).errors ++ (parse tokens₂ j).errors).map (·.relabel V) ∧
      Stmt.relabelAll V (parse tokens k).statements =
        Stmt.relabelAll V ((parse tokens₁ i).statements ++ (parse tokens₂ j).statements) ∧
      ∀ n, V.occurrence ((parse tokens k).nextId + n) =
        V.occurrence ((parse tokens₂ j).nextId + n) := by
  simpa using parse_row_respelled (V := V.respelling) hrest hlast hlast' hids hids' helse hinside hclosed

end Append

/-- No declaration begins with `else`, so an error is recorded. -/
theorem declaration_else {s : ParserState} (h : (s.rest.headD s.last).kind = .keyword .else)
    (bound : Nat) : ∃ t e, declaration bound s = .ok none t ∧ t.errors = s.errors ++ [e] := by
  have hrecovered {p : Parser Stmt} (hp : FailsOn (.keyword .else) p) :
      ∃ t e, recovering p s = .ok none t ∧ t.errors = s.errors ++ [e] := by
    unfold recovering
    rw [hp s h]
    exact ⟨_, _, rfl, rfl⟩
  cases bound with
  | zero => exact hrecovered (.fail _)
  | succ bound =>
    refine hrecovered (.peek fun t ht => ?_)
    simp only [ht]
    exact statementWith_failsOn (.inr rfl) _ _ _

/-- What is parsed without errors does not begin with `else`. -/
theorem head_not_else {tokens : List Token} {i : Occurrence} (h : (parse tokens i).errors = []) :
    (start tokens i).rest.head?.any (·.isKeyword .else) = false := by
  obtain ⟨t, hrun, hclean, -⟩ := program_of_clean h
  refine Bool.eq_false_iff.mpr fun helse => ?_
  cases hs : (start tokens i).rest with
  | nil =>
    rw [hs] at helse
    cases helse
  | cons u rest =>
    rw [hs, List.head?_cons, Option.any_some] at helse
    have hkind : u.kind = .keyword .else := Token.isKeyword_iff.mp helse
    have hnext : ((start tokens i).rest.headD (start tokens i).last).kind = .keyword .else := by
      rw [hs]
      exact hkind
    obtain ⟨t₁, e, hfirst, herrors⟩ := declaration_else hnext (rest.length + 1)
    have hothers := declarationsUntil_yields (statement_and_declaration_yield (rest.length + 1)).2
      (fun _ => false) rest.length t₁
    rw [program, hs, List.length_cons, declarationsUntil_cons _ _ _ hs] at hrun
    simp only [Bool.false_eq_true, if_false, bind, EStateM.bind, hfirst] at hrun
    cases hmore : declarationsUntil (fun _ => false) (declaration (rest.length + 1)) rest.length t₁ with
    | error e t₂ =>
      rw [hmore] at hrun
      cases hrun
    | ok ss t₂ =>
      rw [hmore] at hrun hothers
      cases hrun
      have hreported := hothers.1.errors
      rw [hclean, herrors] at hreported
      simpa using List.prefix_nil.mp hreported

/-- Tokens that are parsed without errors, one after the other, are parsed without errors together. -/
theorem parse_append {V : Relabeling} (hV : ∀ i j, V.occurrence i = V.occurrence j)
    {tokens₁ tokens₂ tokens : List Token} {i j : Occurrence} (k : Occurrence)
    (hrest : (start tokens k).rest.map (·.relabel V) =
      ((start tokens₁ i).rest ++ (start tokens₂ j).rest).map (·.relabel V))
    (hlast : (start tokens k).last.relabel V = (start tokens₁ i).last.relabel V)
    (hlast' : (start tokens₁ i).last.relabel V = (start tokens₂ j).last.relabel V)
    (h₁ : (parse tokens₁ i).errors = []) (h₂ : (parse tokens₂ j).errors = []) :
    (parse tokens k).errors = [] ∧
      Stmt.relabelAll V (parse tokens k).statements =
        Stmt.relabelAll V ((parse tokens₁ i).statements ++ (parse tokens₂ j).statements) := by
  obtain ⟨herrors, hstatements, -⟩ := parse_row hrest hlast hlast' (fun _ => hV _ _) (fun _ => hV _ _)
    (head_not_else h₂) (by simp [h₁]) (fun hne => absurd h₁ hne)
  rw [h₁, h₂] at herrors
  exact ⟨List.map_eq_nil_iff.mp herrors, hstatements⟩

end Lox.Grammar
