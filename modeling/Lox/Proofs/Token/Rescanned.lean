import Mathlib
import Lox.Proofs.Token.Coverage
import Lox.Proofs.Token.Lines
import Lox.Proofs.Tree.Written

/-!
# Tokens are scanned again

A piece is cut in the same way in front of any characters that do not go on it, and so also in front of none: the
text of a token is one piece by itself, of the same kind. So tokens that were scanned, and those that are written for
symbols and reserved words, are scanned again from a text in which a blank stands behind each.
-/

set_option autoImplicit false

namespace Lox

namespace Scan

/-- A number alone is the same number. -/
theorem numberPiece_alone (c : Char) (rest : List Char) :
    numberPiece c (numberPiece c rest).1.text.tail = ((numberPiece c rest).1, []) := by
  simpa using numberPiece_behind c rest (.nil (numberPiece c rest).1 _)

/-- A piece alone is the same piece. -/
theorem firstPiece_alone (c : Char) (rest : List Char) :
    firstPiece c (firstPiece c rest).1.text.tail = ((firstPiece c rest).1, []) := by
  simpa using firstPiece_behind c rest (.nil _ _)

/-- The text of a piece is one piece by itself. -/
theorem pieces_alone {text : List Char} {p : Piece} (hp : p ∈ pieces text) : pieces p.text = [p] := by
  induction text using pieces.induct with
  | case1 =>
    rw [pieces] at hp
    cases hp
  | case2 c rest ih =>
    rw [pieces] at hp
    rcases List.mem_cons.mp hp with rfl | hp
    · rw [firstPiece_text, pieces, firstPiece_alone, pieces]
    · exact ih hp

/-- The text of a token, by itself, is one piece of the kind of the token. -/
def Alone (t : Token) : Prop := pieces t.lexeme.toList = [⟨.token t.kind, t.lexeme.toList⟩]

/-- The tokens of a source can be scanned alone. -/
theorem alone_of_mem_tokensBefore {source : String} {t : Token} (ht : t ∈ tokensBefore source) : Alone t := by
  obtain ⟨item, hitem, htoken⟩ := List.mem_filterMap.mp ht
  obtain ⟨p, hp, line, hpiece⟩ := exists_piece_of_mem hitem
  cases item with
  | error e => cases htoken
  | token t' =>
    obtain rfl : t' = t := Option.some.inj htoken
    unfold item? at hpiece
    cases hshape : p.shape with
    | token kind =>
      simp only [hshape, Option.some.injEq, Item.token.injEq] at hpiece
      subst hpiece
      have halone := pieces_alone hp
      rw [Alone, String.toList_ofList, halone, ← hshape]
    | _ => simp [hshape] at hpiece

/-- A symbol by itself is one piece. -/
theorem alone_symbol (s : Symbol) : Alone s.token := by
  cases s <;> cbv

/-- A reserved word by itself is one piece. -/
theorem alone_keyword (k : Keyword) : Alone k.token := by
  cases k <;> cbv

/-- The texts of tokens, with a blank behind each. -/
def spaced (tokens : List Token) : List Char := tokens.flatMap fun t => t.lexeme.toList ++ [' ']

/-- Tokens with blanks between them are scanned one after the other. -/
theorem pieces_spaced_cons {t : Token} (ht : Alone t) (rest : List Token) :
    pieces (spaced (t :: rest)) =
      ⟨.token t.kind, t.lexeme.toList⟩ :: ⟨.blank, [' ']⟩ :: pieces (spaced rest) := by
  have hends : ∀ piece ∈ pieces t.lexeme.toList, EndsBefore ' ' piece := by
    rw [ht]
    exact List.forall_mem_singleton.mpr ⟨nofun, nofun⟩
  have htext : spaced (t :: rest) = t.lexeme.toList ++ ' ' :: spaced rest := by
    rw [spaced, List.flatMap_cons, List.append_assoc]
    rfl
  rw [htext, pieces_append rfl hends, ht]
  rfl

/-- Tokens that can be scanned alone are the tokens of their texts with blanks behind them, but for their
lines. -/
theorem scanned_spaced {tokens : List Token} (h : ∀ t ∈ tokens, Alone t) (line : Nat) :
    errorsOf (itemsBefore line (pieces (spaced tokens))) = [] ∧
      (tokensOf (itemsBefore line (pieces (spaced tokens)))).map (·.relabel .bare) =
        tokens.map (·.relabel .bare) := by
  induction tokens generalizing line with
  | nil =>
    rw [spaced, List.flatMap_nil, pieces]
    exact ⟨rfl, rfl⟩
  | cons t rest ih =>
    obtain ⟨ht, hrest⟩ := List.forall_mem_cons.mp h
    obtain ⟨herrors, htokens⟩ := ih hrest (endLine (endLine line ⟨.token t.kind, t.lexeme.toList⟩) ⟨.blank, [' ']⟩)
    have htext : String.ofList t.lexeme.toList = t.lexeme := String.ofList_toList
    rw [pieces_spaced_cons ht, itemsBefore, itemsBefore, errorsOf_append, errorsOf_append, tokensOf_append,
      tokensOf_append, herrors, List.map_append, List.map_append, htokens]
    refine ⟨rfl, ?_⟩
    simp [item?, tokensOf, Token.relabel, Relabeling.bare, htext]

/-- Tokens that can be scanned alone are the tokens of some text, but for their lines. -/
theorem exists_source {tokens : List Token} (h : ∀ t ∈ tokens, Alone t) :
    ∃ source, errors source = [] ∧
      (tokensBefore source).map (·.relabel .bare) = tokens.map (·.relabel .bare) := by
  obtain ⟨herrors, htokens⟩ := scanned_spaced h 1
  exact ⟨String.ofList (spaced tokens), by rw [errors_eq, String.toList_ofList, herrors],
    by rw [tokensBefore, String.toList_ofList, htokens]⟩

end Scan

end Lox
