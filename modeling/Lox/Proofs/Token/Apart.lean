import Mathlib
import Lox.Proofs.Token.Rescanned

/-!
# Texts that stand apart

A text is scanned as it is on its own, whatever stands in front of it and behind it, if it is set apart. A new
line does this for every text without an open string, and for no other: an open string goes on over the line and
ends the later, so the place at which it is reported moves. A single blank does it for a single lexeme, and so
the lexemes of a source can be scanned again from a text that has nothing but these.
-/

set_option autoImplicit false

namespace Lox.Scan

section Lines

/-- An open string is the rest of the text. -/
theorem firstPiece_unterminated {c : Char} {rest : List Char}
    (h : (firstPiece c rest).1.shape = .unterminated) :
    c = '"' ∧ '"' ∉ rest ∧ firstPiece c rest = (⟨.unterminated, c :: rest⟩, []) := by
  have hshaped := firstPiece_shaped c rest
  have htext := firstPiece_append_rest c rest
  generalize firstPiece c rest = first at h hshaped htext
  obtain ⟨⟨shape, text⟩, after⟩ := first
  cases h
  obtain ⟨rfl, body, hbody, rfl⟩ := hshaped
  obtain ⟨rfl, rfl⟩ := List.cons.inj ((List.append_nil _).symm.trans htext)
  exact ⟨rfl, hbody, rfl⟩

/-- An open string is the last piece, and goes on over a new line. -/
theorem pieces_append_of_open {s : List Char} (h : ∃ p ∈ pieces s, p.shape = .unterminated) :
    ∃ ps text, pieces s = ps ++ [⟨.unterminated, text⟩] ∧
      pieces (s ++ ['\n']) = ps ++ [⟨.unterminated, text ++ ['\n']⟩] := by
  induction s using pieces.induct with
  | case1 =>
    rw [pieces] at h
    obtain ⟨p, hp, -⟩ := h
    cases hp
  | case2 c rest ih =>
    by_cases hfirst : (firstPiece c rest).1.shape = .unterminated
    · obtain ⟨rfl, hquote, heq⟩ := firstPiece_unterminated hfirst
      have hopen : ∀ d ∈ rest ++ ['\n'], (d != '"') = true := by
        intro d hd
        rcases List.mem_append.mp hd with hd | hd
        · exact bne_iff_ne.mpr fun heq => hquote (heq ▸ hd)
        · rw [List.mem_singleton.mp hd]
          rfl
      have hlonger : firstPiece '"' (rest ++ ['\n']) = (⟨.unterminated, '"' :: (rest ++ ['\n'])⟩, []) := by
        show stringPiece (rest ++ ['\n']) = _
        rw [stringPiece, List.dropWhile_eq_nil_iff.mpr hopen]
      refine ⟨[], '"' :: rest, ?_, ?_⟩
      · rw [pieces, heq, pieces]
        rfl
      · rw [List.cons_append, pieces, hlonger, pieces]
        rfl
    · have hrest : ∃ p ∈ pieces (firstPiece c rest).2, p.shape = .unterminated := by
        obtain ⟨p, hp, hshape⟩ := h
        rw [pieces] at hp
        rcases List.mem_cons.mp hp with rfl | hp
        · exact absurd hshape hfirst
        · exact ⟨p, hp, hshape⟩
      obtain ⟨ps, text, hshort, hlong⟩ := ih hrest
      refine ⟨(firstPiece c rest).1 :: ps, text, ?_, ?_⟩
      · rw [pieces, hshort, List.cons_append]
      · rw [List.cons_append, pieces, firstPiece_append rfl ⟨hfirst, fun _ => rfl⟩, hlong, List.cons_append]

/-- The items of a source before its end are all but the last one. -/
theorem dropLast_items (source : String) :
    (items source).dropLast = itemsBefore 1 (pieces source.toList) := by
  rw [items, itemsFrom_eq, List.dropLast_concat]

/-- The items of two texts with a new line between them are those of the first one without its end, and those
of the second one further down by the lines of the first, for every second text exactly if the first one has no
open string. -/
theorem items_newline_iff (s : String) :
    (∀ e ∈ errors s, e.cause ≠ .unterminatedString) ↔
      ∀ t : String, items (s ++ "\n" ++ t) =
        (items s).dropLast ++ (items t).map (.later (1 + s.toList.count '\n')) := by
  have hlist (t : String) : (s ++ "\n" ++ t).toList = s.toList ++ '\n' :: t.toList := by
    rw [String.toList_append, String.toList_append, List.append_assoc]
    rfl
  rw [errors_eq, unterminatedString_iff]
  constructor
  · intro hclosed t
    have hlines : (pieces s.toList).foldl endLine 0 + 1 = 1 + s.toList.count '\n' := by
      rw [foldl_endLine_pieces, Nat.zero_add, Nat.add_comm]
    have heof : Token.later (1 + s.toList.count '\n') (.eofAt (1 + t.toList.count '\n')) =
        .eofAt (1 + (s.toList ++ '\n' :: t.toList).count '\n') := by
      show Token.eofAt (1 + t.toList.count '\n' + (1 + s.toList.count '\n')) = _
      rw [List.count_append, List.count_cons_self]
      congr 1
      omega
    rw [dropLast_items, items, itemsFrom_eq, hlist, itemsBefore_pieces_append hclosed, hlines, items,
      itemsFrom_eq, List.map_append, List.append_assoc, foldl_endLine_pieces, foldl_endLine_pieces, ← heof]
    rfl
  · intro hjoined
    by_contra hopen
    simp only [ne_eq, not_forall, not_not, exists_prop] at hopen
    obtain ⟨ps, text, hshort, hlong⟩ := pieces_append_of_open hopen
    -- with nothing behind the new line, all that has moved is the line of the open string
    have hbefore : itemsBefore 1 (pieces (s.toList ++ ['\n'])) = itemsBefore 1 (pieces s.toList) := by
      have hall := hjoined ""
      have hempty : items "" = [.token (.eofAt 1)] := by
        show itemsFrom 1 (pieces []) = _
        rw [pieces, itemsFrom]
      rw [items, itemsFrom_eq, hlist, dropLast_items, hempty] at hall
      exact (List.append_inj' hall rfl).1
    rw [hshort, hlong, itemsBefore_append, itemsBefore_append] at hbefore
    have hline := List.append_cancel_left hbefore
    simp [itemsBefore, item?, endLine] at hline

end Lines

section Lexemes

/-- Parts with a separator between them, the last of them empty, are parts with the separator behind each. -/
theorem intercalate_concat_nil (separator : List Char) (parts : List (List Char)) :
    separator.intercalate (parts ++ [[]]) = parts.flatMap (· ++ separator) := by
  induction parts with
  | nil => rfl
  | cons part rest ih =>
    rw [List.cons_append, List.intercalate_cons_of_ne_nil (by simp), ih, List.flatMap_cons]

/-- The lexemes of a source with blanks between them are the texts of its tokens with a blank behind each, since
the last lexeme is the empty one of the end. -/
theorem toList_intercalate_lexemes (source : String) :
    (" ".intercalate ((tokens source).map (·.lexeme))).toList = spaced (tokensBefore source) := by
  rw [String.toList_intercalate, tokens_eq, List.map_append, List.map_append, List.map_map]
  refine (intercalate_concat_nil _ _).trans ?_
  rw [List.flatMap_map]
  rfl

/-- Lexemes need no more than a blank between them: the lexemes of a source, also of one with lexical errors, are
scanned without an error, and as the same tokens but for their lines. -/
theorem lexemes_rescanned (source : String) :
    errors (" ".intercalate ((tokens source).map (·.lexeme))) = [] ∧
      (tokens (" ".intercalate ((tokens source).map (·.lexeme)))).map (·.relabel .bare) =
        (tokens source).map (·.relabel .bare) := by
  have halone : ∀ t ∈ tokensBefore source, Alone t := fun _ => alone_of_mem_tokensBefore
  obtain ⟨herrors, htokens⟩ := scanned_spaced halone 1
  rw [← toList_intercalate_lexemes] at herrors htokens
  refine ⟨by rw [errors_eq, herrors], ?_⟩
  generalize " ".intercalate ((tokens source).map (·.lexeme)) = text at htokens
  rw [tokens_eq text, tokens_eq source, List.map_append, List.map_append, tokensBefore, htokens]
  rfl

end Lexemes

end Lox.Scan
