import Lox.Proofs.Grammar.FollowsEnd
import Lox.Proofs.Grammar.StatementYields

/-!
# Loops and recovery that follow each other

A loop over declarations or methods stops inside the first input at the token that ends it, and there the
second stops too. What is skipped after an error may reach the end of the first input. The second run stops
skipping there too if a semicolon stands before what comes behind.
-/

set_option autoImplicit false

namespace Lox.Grammar

open Lox.Parser

variable {V : Respelling} {before : List SyntaxError} {ahead : List Token} {n : Nat}

section Recovery

/-- Whether a statement boundary is found depends neither on labels nor on spelling. -/
theorem skipFrom_respell (previous : Token) (tokens : List Token) :
    skipFrom (previous.respell V) (tokens.map (·.respell V)) =
      (skipFrom previous tokens).map (·.respell V) := by
  induction tokens generalizing previous with
  | nil => rfl
  | cons t rest ih =>
    rw [List.map_cons, skipFrom, skipFrom]
    have hboundary : ((previous.respell V).isSymbol .semicolon || startsStatement (t.respell V)) =
        (previous.isSymbol .semicolon || startsStatement t) := rfl
    rw [hboundary]
    split
    · rfl
    · exact ih t

/-- Recovery skips the same tokens when these are respelled. -/
theorem skip_respell (tokens : List Token) :
    skip (tokens.map (·.respell V)) = (skip tokens).map (·.respell V) := by
  cases tokens with
  | nil => rfl
  | cons t rest => exact skipFrom_respell t rest

/-- Recovery behind tokens that end with a semicolon skips nothing of what comes behind them. -/
theorem skipFrom_append {previous : Token} {tokens : List Token} (h : Closed (previous :: tokens)) :
    skipFrom previous (tokens ++ ahead) = skipFrom previous tokens ++ ahead := by
  induction tokens generalizing previous with
  | nil =>
    have hsemicolon : previous.isSymbol .semicolon = true := h previous rfl
    cases ahead with
    | nil => rfl
    | cons t rest => simp [skipFrom, hsemicolon]
  | cons t rest ih =>
    rw [List.cons_append, skipFrom, skipFrom]
    split
    · rfl
    · exact ih (h.suffix (List.suffix_cons previous _))

/-- Behind tokens that a semicolon closes, nothing more is skipped. -/
theorem skip_append {tokens : List Token} (h : ahead = [] ∨ tokens ≠ [] ∧ Closed tokens) :
    skip (tokens ++ ahead) = skip tokens ++ ahead := by
  rcases h with rfl | ⟨hne, hclosed⟩
  · rw [List.append_nil, List.append_nil]
  · cases tokens with
    | nil => exact absurd rfl hne
    | cons t rest => exact skipFrom_append hclosed

/-- Recovery reads at least one token. -/
theorem length_skip_lt {tokens : List Token} (h : tokens ≠ []) :
    (skip tokens).length < tokens.length := by
  cases tokens with
  | nil => exact absurd rfl h
  | cons t rest => exact Nat.lt_succ_of_le (skipFrom_suffix t rest).length_le

/-- The second parser does what the first does, wherever a token is left. -/
def FollowsBefore {α β : Type} (V : Respelling) (before : List SyntaxError) (ahead : List Token)
    (n : Nat) (view : α → β) (p p' : Parser α) : Prop :=
  ∀ s s', Linked V before ahead s s' → s.rest ≠ [] → s.rest.length ≤ n →
    FollowsAt V before ahead false 1 view p p' s s'

/-- What is recovered from an error is the same. -/
theorem recovering_follows {p p' : Parser Stmt}
    (h : Follows V before ahead false n 1 (Stmt.respell V) p p') :
    FollowsBefore V before ahead n (Option.map (Stmt.respell V)) (recovering p) (recovering p') := by
  intro s s' hlinked hne hlength
  have hs := h s s' hlinked hlength
  unfold FollowsAt at hs ⊢
  unfold recovering
  cases hp : p s with
  | ok a t =>
    rw [hp] at hs
    refine ⟨hs.1, hs.2.1, fun hundisturbed => ?_⟩
    obtain ⟨a', t', hp', ha', ht'⟩ := hs.2.2 hundisturbed
    exact ⟨some a', t', by rw [hp'], congrArg some ha', ht'⟩
  | error e t =>
    rw [hp] at hs
    obtain ⟨hadvances, hblamed, herror⟩ := hs
    have hrecorded := hadvances.recorded e
    have hskipped : Advances (t.recorded e) { t.recorded e with rest := skip t.rest } :=
      ⟨skip_suffix _, rfl, Nat.le_refl _, List.prefix_refl _⟩
    refine ⟨hrecorded.trans hskipped, ?_, fun hundisturbed => ?_⟩
    · cases htokens : t.rest with
      | nil => exact List.length_pos_iff.mpr hne
      | cons u rest =>
        have hskip := length_skip_lt (htokens ▸ List.cons_ne_nil u rest : t.rest ≠ [])
        rw [htokens] at hskip
        exact Nat.le_trans hskip (htokens ▸ hadvances.rest.length_le)
    · -- the error blames a token, which is left, and a semicolon closes what is left
      have hleft : ahead = [] ∨ t.rest ≠ [] ∧ Closed t.rest := hundisturbed.imp_right fun h => by
        obtain ⟨found, hfound, hinside, hclosed⟩ := (h.1.both hrecorded hskipped).1
        obtain ⟨earlier, hearlier⟩ := hadvances.errors
        obtain rfl : found = earlier ++ [e] := by
          have hboth : s.errors ++ (earlier ++ [e]) = s.errors ++ found := by
            rw [← List.append_assoc, hearlier]
            exact hfound
          exact (List.append_cancel_left hboth).symm
        refine ⟨fun hnil => ?_, (hclosed (by simp)).suffix hadvances.rest⟩
        have heof := hinside e (by simp)
        rw [hblamed, hnil, List.headD_nil, hadvances.last, Token.isEof, hlinked.ends] at heof
        cases heof
      obtain ⟨e', t', hp', he', ht'⟩ := herror (hundisturbed.elim .inl fun h =>
        hleft.imp_right fun hleft => ⟨(h.1.both hrecorded hskipped).1, fun _ => hleft.1⟩)
      refine ⟨none, { t' with rest := skip t'.rest, errors := t'.errors ++ [e'] }, by rw [hp'], rfl, ?_,
        ht'.last, ht'.ends, ?_, ht'.numbers⟩
      · show (skip t'.rest).map _ = (skip t.rest ++ ahead).map _
        rw [← skip_respell, ht'.rest, skip_respell, skip_append hleft]
      · show (t'.errors ++ [e']).map _ = (before ++ (t.errors ++ [e])).map _
        rw [← List.append_assoc, List.map_append, List.map_append, ht'.errors, List.map_singleton,
          List.map_singleton, he']

end Recovery

section Loops

/-- At the end of the tokens, there are no more declarations. -/
theorem declarationsUntil_end (stop : Token → Bool) (d : Parser (Option Stmt)) (bound : Nat)
    (s : ParserState) (h : s.rest = []) : declarationsUntil stop d bound s = .ok [] s := by
  cases bound with
  | zero => rfl
  | succ bound => simp [declarationsUntil, bind, EStateM.bind, atEnd, sees, h]; rfl

/-- Where a token is left, the loop over declarations stops at it or reads one declaration more. -/
theorem declarationsUntil_cons (stop : Token → Bool) (d : Parser (Option Stmt)) (bound : Nat)
    {s : ParserState} {t : Token} {rest : List Token} (h : s.rest = t :: rest) :
    declarationsUntil stop d (bound + 1) s =
      (if stop t then return [] else do
        let first ← d
        let others ← declarationsUntil stop d bound
        return first.toList ++ others : Parser (List Stmt)) s := by
  rw [declarationsUntil]
  simp only [bind, EStateM.bind, atEnd, sees, h, List.isEmpty_cons, List.head?_cons, Option.any_some,
    Bool.false_or]

/-- At the end of the tokens, there are no more methods. -/
theorem methods_end (method : Parser FunctionDecl) (bound : Nat) (s : ParserState)
    (h : s.rest = []) : methods method bound s = .ok [] s := by
  cases bound with
  | zero => rfl
  | succ bound => simp [methods, bind, EStateM.bind, atEnd, sees, h]; rfl

/-- Where a token is left, the loop over methods stops at it or reads one method more. -/
theorem methods_cons (method : Parser FunctionDecl) (bound : Nat) {s : ParserState} {t : Token}
    {rest : List Token} (h : s.rest = t :: rest) :
    methods method (bound + 1) s =
      (if t.isSymbol .rightBrace then return [] else do
        let first ← method
        return first :: (← methods method bound) : Parser (List FunctionDecl)) s := by
  rw [methods]
  simp only [bind, EStateM.bind, atEnd, sees, h, List.isEmpty_cons, List.head?_cons, Option.any_some,
    Bool.false_or]

/-- Optional statements that look the same can be put in front of statements that do. -/
theorem respellAll_toList_append {s? s'? : Option Stmt} {ss ss' : List Stmt}
    (h : s'?.map (·.respell V) = s?.map (·.respell V))
    (hs : Stmt.respellAll V ss' = Stmt.respellAll V ss) :
    Stmt.respellAll V (s'?.toList ++ ss') = Stmt.respellAll V (s?.toList ++ ss) := by
  simp only [Stmt.respellAll_eq_map, List.map_append] at hs ⊢
  rw [hs, ← Option.toList_map, ← Option.toList_map, h]

/-- Declarations are parsed alike up to a token that ends them. -/
theorem declarationsUntil_follows {stop : Token → Bool} (hstop : Unaffected V stop)
    {d d' : Parser (Option Stmt)}
    (hd : FollowsBefore V before ahead n (Option.map (Stmt.respell V)) d d') {m : Nat} (hm : m ≤ n)
    {bound bound' : Nat} (hbound : m ≤ bound) (hbound' : m + ahead.length ≤ bound') :
    Follows V before ahead true m 0 (Stmt.respellAll V) (declarationsUntil stop d bound)
      (declarationsUntil stop d' bound') := by
  induction m generalizing bound bound' with
  | zero =>
    exact follows_at_end (declarationsUntil_end stop d bound) (declarationsUntil_end stop d' bound') rfl
  | succ m ih =>
    obtain ⟨bound, rfl⟩ := Nat.exists_eq_add_of_le' (show 1 ≤ bound by omega)
    obtain ⟨bound', rfl⟩ := Nat.exists_eq_add_of_le' (show 1 ≤ bound' by omega)
    intro s s' hlinked hlength
    cases hs : s.rest with
    | nil =>
      exact follows_at_end (declarationsUntil_end stop d _) (declarationsUntil_end stop d' _) rfl s s'
        hlinked (by simp [hs])
    | cons t rest =>
      obtain ⟨t', rest', hs', ht', -⟩ := hlinked.cons hs
      refine .of_eq (declarationsUntil_cons stop d bound hs) (declarationsUntil_cons stop d' bound' hs') ?_
      rw [hstop.eq ht']
      cases stop t with
      | true => exact .pure rfl hlinked
      | false =>
        refine ((hd s s' hlinked (hs ▸ List.cons_ne_nil t rest) (by omega)).bind (l := 0) hlinked
          (fun first first' u u' hfirst hu hread => ?_) nofun).weaken (by omega) id
        refine (ih (by omega) (by omega) (by omega)).bind (Nat.le_refl _) (fun ss ss' hss _ => .pure ?_)
          u u' hu (by omega)
        exact respellAll_toList_append hfirst hss

/-- The loop over methods does the same if a method does. -/
theorem methods_follow {method method' : Parser FunctionDecl}
    (hmethod : Follows V before ahead false n 1 (FunctionDecl.respell V) method method') {m : Nat}
    (hm : m ≤ n) {bound bound' : Nat} (hbound : m ≤ bound) (hbound' : m + ahead.length ≤ bound') :
    Follows V before ahead true m 0 (FunctionDecl.respellAll V) (methods method bound)
      (methods method' bound') := by
  induction m generalizing bound bound' with
  | zero => exact follows_at_end (methods_end method bound) (methods_end method' bound') rfl
  | succ m ih =>
    obtain ⟨bound, rfl⟩ := Nat.exists_eq_add_of_le' (show 1 ≤ bound by omega)
    obtain ⟨bound', rfl⟩ := Nat.exists_eq_add_of_le' (show 1 ≤ bound' by omega)
    intro s s' hlinked hlength
    cases hs : s.rest with
    | nil =>
      exact follows_at_end (methods_end method _) (methods_end method' _) rfl s s' hlinked
        (by simp [hs])
    | cons t rest =>
      obtain ⟨t', rest', hs', ht', -⟩ := hlinked.cons hs
      refine .of_eq (methods_cons method bound hs) (methods_cons method' bound' hs') ?_
      rw [show t'.isSymbol .rightBrace = t.isSymbol .rightBrace by
        rw [Token.isSymbol, Token.isSymbol, kind_eq ht']]
      cases t.isSymbol .rightBrace with
      | true => exact .pure rfl hlinked
      | false =>
        refine (hmethod.weaken hm (Nat.le_refl 1) nofun).bind (Nat.zero_le _) (fun d d' hd _ => ?_) s s'
          hlinked hlength
        refine ((ih (by omega) (by omega) (by omega)).fewer (by omega)).bind (Nat.le_refl _)
          fun ds ds' hds _ => .pure ?_
        simp only [FunctionDecl.respellAll, hd, hds]

end Loops

end Lox.Grammar
