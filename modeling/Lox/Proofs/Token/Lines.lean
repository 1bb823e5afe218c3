import Lox.Proofs.Token.Pieces
import Lox.Proofs.Token.Spelling
import Lox.Proofs.Grammar.Programs

/-!
# Texts in a row

A text that ends in no open string may be followed by a new line and another text: it is cut into the
same pieces as on its own, and so is the other one. Any other blank does as well, if no comment goes on
behind it. So the tokens of both stand in a row, those of the second on later lines, and if both are parsed
without errors, so are they together.
-/

set_option autoImplicit false

namespace Lox

namespace Scan

section Pieces

variable {stop : Char}

/-- A piece ends where the blank `stop` follows it. An open string goes on, and so does a comment on its line. -/
def EndsBefore (stop : Char) (piece : Piece) : Prop :=
  piece.shape ≠ .unterminated ∧ (piece.shape = .comment → stop = '\n')

/-- A blank goes on no number, no word and no symbol. -/
theorem not_goesOn_of_isBlank (h : isBlank stop = true) : stop ≠ '.' ∧ ∀ p ∈ continuations, p stop = false := by
  have hblanks : stop = ' ' ∨ stop = '\r' ∨ stop = '\t' ∨ stop = '\n' := by
    simpa [isBlank, or_assoc] using h
  rcases hblanks with rfl | rfl | rfl | rfl <;> decide

/-- A blank behind what follows a piece does not go on the piece. -/
theorem endsAlike_append (hstop : isBlank stop = true) {piece : Piece} (h : EndsBefore stop piece)
    (after t : List Char) : EndsAlike piece after (after ++ stop :: t) := by
  obtain ⟨hpoint, hgoesOn⟩ := not_goesOn_of_isBlank hstop
  obtain ⟨hcloses, hcomment⟩ := h
  cases after with
  | nil =>
    refine ⟨fun p hp _ => hgoesOn p hp, fun _ => fractionDigits_of_ne hpoint t, fun hshape _ => ?_,
      fun hshape => absurd hshape hcloses⟩
    rw [hcomment hshape]
    rfl
  | cons d after =>
    refine ⟨fun _ _ => id, fun hnone => ?_, fun _ => id, fun hshape => absurd hshape hcloses⟩
    by_cases hd : d = '.'
    · subst hd
      exact (takeWhile_append_stop (hgoesOn _ (by simp [continuations])) after t).trans hnone
    · exact fractionDigits_of_ne hd _

/-- The first piece of a text is the same if a blank and more text follow, where the piece ends before the
blank. -/
theorem firstPiece_append {c : Char} {rest : List Char} (hstop : isBlank stop = true)
    (h : EndsBefore stop (firstPiece c rest).1) (t : List Char) :
    firstPiece c (rest ++ stop :: t) = ((firstPiece c rest).1, (firstPiece c rest).2 ++ stop :: t) := by
  have hbehind := firstPiece_behind c rest (endsAlike_append hstop h _ t)
  rwa [← List.append_assoc, firstPiece_tail_append_rest] at hbehind

/-- Of two texts with a blank between them, the pieces stand in a row, where those of the first one end before
the blank. -/
theorem pieces_append (hstop : isBlank stop = true) {s : List Char}
    (h : ∀ piece ∈ pieces s, EndsBefore stop piece) (t : List Char) :
    pieces (s ++ stop :: t) = pieces s ++ ⟨.blank, [stop]⟩ :: pieces t := by
  induction s using pieces.induct with
  | case1 =>
    rw [List.nil_append, pieces, pieces, firstPiece, if_pos hstop]
    rfl
  | case2 c rest ih =>
    rw [pieces] at h
    obtain ⟨hfirst, hrest⟩ := List.forall_mem_cons.mp h
    rw [List.cons_append, pieces, firstPiece_append hstop hfirst, ih hrest, pieces, List.cons_append]

end Pieces

end Scan

/-- The token, some lines further down. -/
def Token.later (lines : Nat) (t : Token) : Token := { t with line := t.line + lines }

/-- The item, some lines further down. -/
def Item.later (lines : Nat) : Item → Item
  | .token t => .token (t.later lines)
  | .error e => .error { e with line := e.line + lines }

namespace Scan

section Items

/-- The items of pieces that begin on line `line`, without the end of the input. -/
def itemsBefore (line : Nat) : List Piece → List Item
  | [] => []
  | p :: rest => (item? (endLine line p) p).toList ++ itemsBefore (endLine line p) rest

/-- The end of the input comes behind all other items, on the line on which the last piece ends. -/
theorem itemsFrom_eq (line : Nat) (ps : List Piece) :
    itemsFrom line ps = itemsBefore line ps ++ [.token (.eofAt (ps.foldl endLine line))] := by
  induction ps generalizing line with
  | nil => rfl
  | cons p rest ih => rw [itemsFrom_cons, ih, itemsBefore, List.append_assoc, List.foldl_cons]

/-- The items of pieces in a row are those of the first pieces and then, on later lines, of the others. -/
theorem itemsBefore_append (line : Nat) (ps qs : List Piece) :
    itemsBefore line (ps ++ qs) =
      itemsBefore line ps ++ itemsBefore (ps.foldl endLine line) qs := by
  induction ps generalizing line with
  | nil => rfl
  | cons p rest ih =>
    rw [List.cons_append, itemsBefore, ih, itemsBefore, List.append_assoc, List.foldl_cons]

/-- Pieces that begin further down have the same items further down. -/
theorem itemsBefore_later (line lines : Nat) (ps : List Piece) :
    itemsBefore (line + lines) ps = (itemsBefore line ps).map (Item.later lines) := by
  induction ps generalizing line with
  | nil => rfl
  | cons p rest ih =>
    have hline : endLine (line + lines) p = endLine line p + lines := Nat.add_right_comm ..
    have hitem : item? (endLine line p + lines) p = (item? (endLine line p) p).map (.later lines) := by
      unfold item?
      split <;> rfl
    rw [itemsBefore, hline, hitem, ih, itemsBefore, List.map_append, Option.toList_map]

/-- The line on which pieces end, if they begin further down. -/
theorem foldl_endLine (line : Nat) (ps : List Piece) :
    ps.foldl endLine line = line + ps.foldl endLine 0 := by
  induction ps generalizing line with
  | nil => rfl
  | cons p rest ih =>
    rw [List.foldl_cons, List.foldl_cons, ih, ih (endLine 0 p), endLine, endLine]
    omega

/-- Of two texts with a new line between them, the items stand in a row. -/
theorem itemsBefore_pieces_append {s : List Char}
    (h : ∀ piece ∈ pieces s, piece.shape ≠ .unterminated) (line : Nat) (t : List Char) :
    itemsBefore line (pieces (s ++ '\n' :: t)) = itemsBefore line (pieces s) ++
      (itemsBefore line (pieces t)).map (.later ((pieces s).foldl endLine 0 + 1)) := by
  have hblank (l : Nat) (ps : List Piece) :
      itemsBefore l (⟨.blank, ['\n']⟩ :: ps) = itemsBefore (l + 1) ps := rfl
  rw [pieces_append rfl fun piece hpiece => ⟨h piece hpiece, fun _ => rfl⟩, itemsBefore_append, hblank,
    foldl_endLine line, Nat.add_assoc, itemsBefore_later]

end Items

section Tokens

/-- The tokens among items. -/
def tokensOf (items : List Item) : List Token :=
  items.filterMap fun
    | .token t => some t
    | .error _ => none

/-- The lexical errors among items. -/
def errorsOf (items : List Item) : List LexicalError :=
  items.filterMap fun
    | .token _ => none
    | .error e => some e

/-- The tokens among items in a row are those of one list after the other. -/
theorem tokensOf_append (items items' : List Item) :
    tokensOf (items ++ items') = tokensOf items ++ tokensOf items' := List.filterMap_append

/-- The errors among items in a row are those of one list after the other. -/
theorem errorsOf_append (items items' : List Item) :
    errorsOf (items ++ items') = errorsOf items ++ errorsOf items' := List.filterMap_append

/-- Items on later lines have the same tokens, on later lines. -/
theorem tokensOf_later (lines : Nat) (items : List Item) :
    tokensOf (items.map (.later lines)) = (tokensOf items).map (.later lines) := by
  unfold tokensOf
  rw [List.filterMap_map, List.map_filterMap]
  congr 1
  funext item
  cases item <;> rfl

/-- Items that are moved down have no new errors. -/
theorem errorsOf_later_eq_nil {items : List Item} (h : errorsOf items = []) (lines : Nat) :
    errorsOf (items.map (.later lines)) = [] := by
  unfold errorsOf at h ⊢
  rw [List.filterMap_map]
  rw [List.filterMap_eq_nil_iff] at h ⊢
  intro item hitem
  have hnone := h item hitem
  cases item with
  | token t => rfl
  | error e => cases hnone

/-- The tokens of a source without the one that ends it. -/
def tokensBefore (source : String) : List Token := tokensOf (itemsBefore 1 (pieces source.toList))

/-- The tokens of a source end with the end of the input. -/
theorem tokens_eq (source : String) :
    tokens source = tokensBefore source ++ [.eofAt ((pieces source.toList).foldl endLine 1)] := by
  show tokensOf (itemsFrom 1 (pieces source.toList)) = _
  rw [itemsFrom_eq, tokensOf_append]
  rfl

/-- The errors of a source are those among the items of its pieces. -/
theorem errors_eq (source : String) :
    errors source = errorsOf (itemsBefore 1 (pieces source.toList)) := by
  show errorsOf (itemsFrom 1 (pieces source.toList)) = _
  rw [itemsFrom_eq, errorsOf_append]
  exact List.append_nil _

end Tokens

section Ends

/-- No piece of a source ends the input. -/
theorem firstPiece_shape_ne_eof (c : Char) (rest : List Char) :
    (firstPiece c rest).1.shape ≠ .token .eof := by
  unfold firstPiece
  split
  · simp
  split
  · unfold stringPiece
    split <;> simp
  split
  · unfold numberPiece
    dsimp only
    split <;> simp
  split
  · unfold wordKind
    dsimp only
    split <;> simp
  split
  · split <;> simp
  split
  · simp
  · split <;> simp
  · simp

/-- No piece of a text is the token that ends the input. -/
theorem shape_ne_eof_of_mem {text : List Char} {p : Piece} (hp : p ∈ pieces text) :
    p.shape ≠ .token .eof := by
  induction text using pieces.induct with
  | case1 =>
    rw [pieces] at hp
    cases hp
  | case2 c rest ih =>
    rw [pieces] at hp
    rcases List.mem_cons.mp hp with rfl | hp
    · exact firstPiece_shape_ne_eof c rest
    · exact ih hp

/-- An item is that of one of the pieces. -/
theorem exists_piece_of_mem {line : Nat} {ps : List Piece} {item : Item}
    (h : item ∈ itemsBefore line ps) : ∃ p ∈ ps, ∃ l, item? l p = some item := by
  induction ps generalizing line with
  | nil => cases h
  | cons p rest ih =>
    rcases List.mem_append.mp h with h | h
    · exact ⟨p, List.mem_cons_self .., endLine line p, Option.mem_toList.mp h⟩
    · obtain ⟨q, hq, hitem⟩ := ih h
      exact ⟨q, List.mem_cons_of_mem p hq, hitem⟩

/-- Only the last token of a source ends the input. -/
theorem isEof_of_mem_tokensBefore {source : String} {t : Token} (ht : t ∈ tokensBefore source) :
    t.isEof = false := by
  obtain ⟨item, hitem, htoken⟩ := List.mem_filterMap.mp ht
  obtain ⟨p, hp, line, hpiece⟩ := exists_piece_of_mem hitem
  have hne := shape_ne_eof_of_mem hp
  cases item with
  | error e => cases htoken
  | token t' =>
    obtain rfl : t' = t := Option.some.inj htoken
    unfold item? at hpiece
    cases hshape : p.shape with
    | token kind =>
      simp only [hshape, Option.some.injEq, Item.token.injEq] at hpiece
      subst hpiece
      cases kind with
      | eof => exact absurd hshape hne
      | _ => rfl
    | _ => simp [hshape] at hpiece

/-- Open strings are found among pieces or among the errors that these report. -/
theorem unterminatedString_iff (line : Nat) (ps : List Piece) :
    (∀ e ∈ errorsOf (itemsBefore line ps), e.cause ≠ .unterminatedString) ↔
      ∀ p ∈ ps, p.shape ≠ .unterminated := by
  induction ps generalizing line with
  | nil => exact iff_of_true nofun nofun
  | cons p rest ih =>
    have hfirst : (∀ e ∈ errorsOf (item? (endLine line p) p).toList, e.cause ≠ .unterminatedString) ↔
        p.shape ≠ .unterminated := by
      unfold item?
      cases p.shape <;> simp [errorsOf]
    rw [itemsBefore, errorsOf_append, List.forall_mem_append, ih, hfirst, List.forall_mem_cons]

end Ends

end Scan

namespace Grammar

open Scan

/-- At the start, the parser has all tokens of a source, and the one that ends the input on its last line. -/
theorem start_tokens (source : String) (firstId : Occurrence) :
    start (tokens source) firstId =
      ⟨tokensBefore source, .eofAt ((pieces source.toList).foldl endLine 1), firstId, []⟩ := by
  have hbefore (t : Token) (ht : t ∈ tokensBefore source) : (!t.isEof) = true := by
    rw [isEof_of_mem_tokensBefore ht]
    rfl
  have hrest : (tokens source).takeWhile (!·.isEof) = tokensBefore source := by
    rw [tokens_eq, List.takeWhile_append_of_pos hbefore]
    exact List.append_nil _
  have hlast : (tokens source).find? (·.isEof) =
      some (.eofAt ((pieces source.toList).foldl endLine 1)) := by
    rw [tokens_eq, List.find?_append, List.find?_eq_none.mpr fun t ht => by
      simp [isEof_of_mem_tokensBefore ht]]
    rfl
  rw [start, hrest, hlast]
  rfl

end Grammar

end Lox
