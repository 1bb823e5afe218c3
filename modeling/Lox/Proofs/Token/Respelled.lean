import Mathlib
import Lox.Proofs.Grammar.Respelled
import Lox.Proofs.Token.Longest

/-!
# Sources with another name

In a source, some of the tokens that are a name may be replaced by another name, each in its place. No piece goes on
over a letter, so the new source is cut in the same places, and its tokens are the old ones with the new name in
these places, on the same lines. The other way round, any tokens with the new name in some places are those of a
source that was changed in this way.
-/

set_option autoImplicit false

namespace Lox

/-- A text is a name. -/
structure IsName (x : String) : Prop where
  nonempty : x ≠ ""
  letters : x.toList.all Char.isAlpha = true
  unreserved : Keyword.ofSpelling? x = none

namespace IsName

variable {x : String} (h : IsName x)
include h

/-- A name is not the word `this`. -/
theorem ne_this : x ≠ thisName := by
  rintro rfl
  exact absurd h.unreserved (by decide)

/-- A name has a first letter. -/
theorem exists_cons : ∃ c rest, x.toList = c :: rest ∧ c.isAlpha = true ∧ ∀ d ∈ rest, d.isAlpha = true := by
  have hletters := List.all_eq_true.mp h.letters
  cases hx : x.toList with
  | nil => exact absurd (String.toList_eq_nil_iff.mp hx) h.nonempty
  | cons c rest =>
    rw [hx] at hletters
    exact ⟨c, rest, rfl, List.forall_mem_cons.mp hletters⟩

/-- A name does not contain a newline. -/
theorem newline_not_mem : '\n' ∉ x.toList :=
  fun hmem => absurd (List.all_eq_true.mp h.letters '\n' hmem) (by decide)

/-- A name is no reserved word. -/
theorem wordKind_eq : Scan.wordKind x.toList = .identifier := by
  rw [Scan.wordKind, String.ofList_toList, h.unreserved]

end IsName

/-- The name of a token of a source is a name. -/
theorem isName_of_mem_tokens {source : String} {t : Token} (ht : t ∈ Scan.tokens source)
    (hidentifier : t.isIdentifier = true) : IsName t.lexeme := by
  have hkind := Token.isIdentifier_iff.mp hidentifier
  rw [Scan.tokens_eq] at ht
  rcases List.mem_append.mp ht with ht | ht
  · have hlexeme := Scan.alone_iff_lexeme.mp (Scan.alone_of_mem_tokensBefore ht)
    rw [hkind] at hlexeme
    generalize htext : t.lexeme.toList = text at hlexeme
    cases hlexeme with
    | identifier hne hletters hkeyword =>
      subst htext
      refine ⟨fun hempty => hne (String.toList_eq_nil_iff.mpr hempty), List.all_eq_true.mpr hletters, ?_⟩
      exact List.find?_eq_none.mpr fun k _ hspelling => hkeyword k (by rw [beq_iff_eq.mp hspelling])
  · obtain rfl := List.mem_singleton.mp ht
    cases hkind

/-- A piece is the same, or the name `old`, in whose place there is the name `new`. -/
def Piece.Renamed (old new : String) (p p' : Piece) : Prop :=
  p' = p ∨ p = ⟨.token .identifier, old.toList⟩ ∧ p' = ⟨.token .identifier, new.toList⟩

/-- A token is the same, or is spelled `old`, and then `new`. -/
def Token.Renamed (old new : String) (t t' : Token) : Prop :=
  t' = t ∨ t.lexeme = old ∧ t' = { t with lexeme := new }

/-- A token that is renamed differs in spelling only. -/
theorem Token.renamed_spellingOnly (old new : String) : Token.SpellingOnly (Token.Renamed old new) := by
  rintro t t' (rfl | ⟨-, rfl⟩) <;> rfl

namespace Scan

/-- A source is another one, in which the name `old` is replaced by `new` in some places. -/
def Respelled (old new source source' : String) : Prop :=
  ∃ ps, List.Forall₂ (Piece.Renamed old new) (pieces source.toList) ps ∧ source'.toList = ps.flatMap (·.text)

section Pieces

variable {old new : String}

/-- A name is one piece, in front of anything but a letter. -/
theorem pieces_name {x : String} (h : IsName x) {behind : List Char}
    (hbehind : behind.head?.any Char.isAlpha = false) :
    pieces (x.toList ++ behind) = ⟨.token .identifier, x.toList⟩ :: pieces behind := by
  obtain ⟨c, rest, hx, hc, hrest⟩ := h.exists_cons
  have hkind := h.wordKind_eq
  rw [hx] at hkind ⊢
  rw [List.cons_append, pieces, firstPiece_letter hc, takeWhile_run hrest hbehind, dropWhile_run hrest hbehind,
    hkind]

/-- Where a piece is a name, the text begins with a letter, and no letter follows the name. -/
theorem isAlpha_of_firstPiece {x : String} (h : IsName x) {c : Char} {rest : List Char}
    (hfirst : (firstPiece c rest).1 = ⟨.token .identifier, x.toList⟩) :
    c.isAlpha = true ∧ (firstPiece c rest).2.head?.any Char.isAlpha = false := by
  obtain ⟨d, others, hx, hd, -⟩ := h.exists_cons
  have htext := firstPiece_text c rest
  rw [hfirst, hx] at htext
  obtain rfl := (List.cons.inj htext).1
  rw [firstPiece_letter hd]
  exact ⟨hd, head?_dropWhile_any _ _⟩

/-- The text that is put together from pieces with another name goes on no piece that ended before. -/
theorem endsAlike_renamed (hold : IsName old) (hnew : IsName new) {text : List Char} {ps : List Piece}
    (h : List.Forall₂ (Piece.Renamed old new) (pieces text) ps) (piece : Piece) :
    EndsAlike piece text (ps.flatMap (·.text)) := by
  induction text using pieces.induct generalizing ps with
  | case1 =>
    rw [pieces] at h
    cases h
    exact .nil _ _
  | case2 c rest ih =>
    rw [pieces] at h
    obtain ⟨_, ps, hfirst, hothers, rfl⟩ := List.forall₂_cons_left_iff.mp h
    rw [List.flatMap_cons]
    rcases hfirst with rfl | ⟨hfirst, rfl⟩
    · rw [firstPiece_text]
      refine .of_head (fun d hd => .inl hd) fun hnone => ?_
      by_cases hpoint : c = '.'
      · subst hpoint
        exact takeWhile_eq_nil_iff.mpr ((ih hothers).head_isDigit (takeWhile_eq_nil_iff.mp hnone))
      · exact fractionDigits_of_ne hpoint _
    · obtain ⟨d, new', hnew', hd, -⟩ := hnew.exists_cons
      have hc := (isAlpha_of_firstPiece hold hfirst).1
      rw [hnew']
      refine .of_head (fun d' hd' => .inr ⟨?_, hc⟩) fun _ => fractionDigits_of_ne ?_ _
      · obtain rfl := Option.some.inj hd'
        exact hd
      · rintro rfl
        cases hd

/-- A source with another name in some places is cut in the same places. -/
theorem pieces_renamed (hold : IsName old) (hnew : IsName new) {text : List Char} {ps : List Piece}
    (h : List.Forall₂ (Piece.Renamed old new) (pieces text) ps) : pieces (ps.flatMap (·.text)) = ps := by
  induction text using pieces.induct generalizing ps with
  | case1 =>
    rw [pieces] at h
    cases h
    rw [List.flatMap_nil, pieces]
  | case2 c rest ih =>
    rw [pieces] at h
    obtain ⟨_, ps, hfirst, hothers, rfl⟩ := List.forall₂_cons_left_iff.mp h
    have hends := endsAlike_renamed hold hnew hothers (firstPiece c rest).1
    rw [List.flatMap_cons]
    rcases hfirst with rfl | ⟨hfirst, rfl⟩
    · rw [firstPiece_text, List.cons_append, pieces, firstPiece_behind c rest hends, ih hothers]
    · rw [pieces_name hnew (hends.head_isAlpha (isAlpha_of_firstPiece hold hfirst).2), ih hothers]

end Pieces

section Tokens

variable {old new : String}

/-- Pieces end on the same line when names are replaced. -/
theorem endLine_renamed (hold : IsName old) (hnew : IsName new) {p p' : Piece} (h : p.Renamed old new p')
    (line : Nat) : endLine line p' = endLine line p := by
  rcases h with rfl | ⟨rfl, rfl⟩
  · rfl
  · rw [endLine, endLine, List.count_eq_zero.mpr hnew.newline_not_mem, List.count_eq_zero.mpr hold.newline_not_mem]

/-- A piece has the one token that it spells, or none. -/
theorem tokensOf_item? (line : Nat) (p : Piece) : tokensOf (item? line p).toList =
    match p.shape with
    | .token kind => [⟨kind, String.ofList p.text, line⟩]
    | _ => [] := by
  unfold item?
  cases p.shape <;> rfl

/-- What is reported of a name is the token of this name. -/
theorem item?_name (line : Nat) (x : String) :
    item? line ⟨.token .identifier, x.toList⟩ = some (.token ⟨.identifier, x, line⟩) := by
  rw [item?, String.ofList_toList]

/-- Pieces with another name have the same errors and the same tokens, but for this name. -/
theorem itemsBefore_renamed (hold : IsName old) (hnew : IsName new) {ps ps' : List Piece}
    (h : List.Forall₂ (Piece.Renamed old new) ps ps') (line : Nat) :
    errorsOf (itemsBefore line ps') = errorsOf (itemsBefore line ps) ∧
      Token.AllRespelled (Token.Renamed old new) (tokensOf (itemsBefore line ps)) (tokensOf (itemsBefore line ps')) ∧
      ps'.foldl endLine line = ps.foldl endLine line := by
  induction h generalizing line with
  | nil => exact ⟨rfl, .nil, rfl⟩
  | @cons p p' ps ps' hfirst _ ih =>
    have hline := endLine_renamed hold hnew hfirst line
    obtain ⟨herrors, htokens, hlines⟩ := ih (endLine line p)
    rw [itemsBefore, itemsBefore, hline, List.foldl_cons, List.foldl_cons, hline, errorsOf_append, errorsOf_append,
      tokensOf_append, tokensOf_append, herrors]
    refine ⟨?_, List.rel_append ?_ htokens, hlines⟩
    · rcases hfirst with rfl | ⟨rfl, rfl⟩
      · rfl
      · rw [item?_name, item?_name]
        rfl
    · rcases hfirst with rfl | ⟨rfl, rfl⟩
      · exact List.forall₂_same.mpr fun _ _ => .inl rfl
      · rw [item?_name, item?_name]
        exact .cons (.inr ⟨rfl, .inr ⟨rfl, rfl⟩⟩) .nil

/-- The token of a piece, with another name, is that of a piece with this name. -/
theorem exists_piece_renamed {p : Piece} {line : Nat} {tokens' : List Token}
    (h : Token.AllRespelled (Token.Renamed old new) (tokensOf (item? line p).toList) tokens') :
    ∃ p', p.Renamed old new p' ∧ tokensOf (item? line p').toList = tokens' := by
  rw [tokensOf_item?] at h
  cases hshape : p.shape with
  | token kind =>
    rw [hshape] at h
    have hsame : tokensOf (item? line p).toList = [⟨kind, String.ofList p.text, line⟩] := by
      rw [tokensOf_item?, hshape]
    obtain ⟨t', _, hfirst, hnone, rfl⟩ := List.forall₂_cons_left_iff.mp h
    obtain rfl := List.forall₂_nil_left_iff.mp hnone
    rcases hfirst with rfl | ⟨hidentifier, rfl | ⟨hlexeme, rfl⟩⟩
    · exact ⟨p, .inl rfl, hsame⟩
    · exact ⟨p, .inl rfl, hsame⟩
    · have hkind : kind = .identifier := Token.isIdentifier_iff.mp hidentifier
      have htext : p.text = old.toList := by rw [← hlexeme, String.toList_ofList]
      have hp : p = ⟨.token .identifier, old.toList⟩ := by rw [← htext, ← hkind, ← hshape]
      refine ⟨⟨.token .identifier, new.toList⟩, .inr ⟨hp, rfl⟩, ?_⟩
      rw [item?_name, hkind]
      rfl
  | _ =>
    rw [hshape] at h
    obtain rfl := List.forall₂_nil_left_iff.mp h
    exact ⟨p, .inl rfl, by rw [tokensOf_item?, hshape]⟩

/-- Tokens with another name are those of pieces with this name. -/
theorem exists_pieces_renamed (hold : IsName old) (hnew : IsName new) {ps : List Piece} {line : Nat}
    {tokens' : List Token}
    (h : Token.AllRespelled (Token.Renamed old new) (tokensOf (itemsBefore line ps)) tokens') :
    ∃ ps', List.Forall₂ (Piece.Renamed old new) ps ps' ∧ tokensOf (itemsBefore line ps') = tokens' := by
  induction ps generalizing line tokens' with
  | nil =>
    cases h
    exact ⟨[], .nil, rfl⟩
  | cons p rest ih =>
    rw [itemsBefore, tokensOf_append] at h
    obtain ⟨p', hp, hfirst⟩ := exists_piece_renamed (List.forall₂_take_append _ _ _ h.flip).flip
    obtain ⟨ps', hps, hothers⟩ := ih (List.forall₂_drop_append _ _ _ h.flip).flip
    refine ⟨p' :: ps', .cons hp hps, ?_⟩
    rw [itemsBefore, tokensOf_append, endLine_renamed hold hnew hp, hfirst, hothers, List.take_append_drop]

/-- A source with another name in some places has the same errors, and the same tokens but for this name. -/
theorem Respelled.tokens (hold : IsName old) (hnew : IsName new) {source source' : String}
    (h : Respelled old new source source') :
    errors source' = errors source ∧
      Token.AllRespelled (Token.Renamed old new) (Scan.tokens source) (Scan.tokens source') := by
  obtain ⟨ps, hps, htext⟩ := h
  obtain ⟨herrors, htokens, hlines⟩ := itemsBefore_renamed hold hnew hps 1
  have hpieces : pieces source'.toList = ps := by rw [htext, pieces_renamed hold hnew hps]
  rw [errors_eq, errors_eq, tokens_eq, tokens_eq, tokensBefore, tokensBefore, hpieces, hlines]
  exact ⟨herrors, List.rel_append htokens (.cons (.inl rfl) .nil)⟩

/-- Tokens of a source with another name in some places are those of a source with this name. -/
theorem exists_respelled (hold : IsName old) (hnew : IsName new) {source : String} {tokens' : List Token}
    (h : Token.AllRespelled (Token.Renamed old new) (tokensBefore source) tokens') :
    ∃ source', Respelled old new source source' ∧
      Scan.tokens source' = tokens' ++ [.eofAt ((pieces source.toList).foldl endLine 1)] := by
  obtain ⟨ps, hps, rfl⟩ := exists_pieces_renamed hold hnew h
  have htext : (String.ofList (ps.flatMap (·.text))).toList = ps.flatMap (·.text) := String.toList_ofList
  have hrespelled : Respelled old new source (String.ofList (ps.flatMap (·.text))) := ⟨ps, hps, htext⟩
  refine ⟨_, hrespelled, ?_⟩
  rw [tokens_eq, tokensBefore, htext, pieces_renamed hold hnew hps, (itemsBefore_renamed hold hnew hps 1).2.2]

end Tokens

end Scan

end Lox
