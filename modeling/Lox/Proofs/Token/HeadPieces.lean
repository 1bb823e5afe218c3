import Mathlib
import Lox.Proofs.Token.HeadSteps
import Lox.Proofs.Token.Longest

/-!
# Pieces under the head

Between two pieces a head stands between whole characters. From there it goes over the bytes of the first piece of the
text behind it, whatever this piece is, and comes to stand between whole characters again. Slices are only cut where
it stands or has stood, or one byte of a quote away from there.
-/

set_option autoImplicit false

namespace Lox

/-- The kind of a piece that is a token. -/
def Piece.kind? (p : Piece) : Option Kind :=
  match p.shape with
  | .token kind => some kind
  | _ => none

/-- The error of a piece that ends on a line. -/
def Piece.error? (line : ℕ) (p : Piece) : Option LexicalError :=
  match p.shape with
  | .unexpected => some ⟨line, .unexpectedCharacter⟩
  | .unterminated => some ⟨line, .unterminatedString⟩
  | _ => none

/-- The part of a number that begins with a point. -/
def pointAndDigits (text : List Char) : List Char :=
  if (Scan.fractionDigits text).isEmpty then [] else '.' :: Scan.fractionDigits text

/-- A word can be looked up by its bytes. -/
theorem wordOf_utf8Encode (word : List Char) : wordOf word.utf8Encode = Scan.wordKind word := by
  have hsame (k : Keyword) :
      decide (k.spelling.toUTF8 = word.utf8Encode) = (k.spelling == String.ofList word) := by
    rw [← String.toByteArray_ofList, Bool.eq_iff_iff, decide_eq_true_eq, beq_iff_eq]
    exact String.toByteArray_inj
  have hfind : Keyword.all.find? (fun k => decide (k.spelling.toUTF8 = word.utf8Encode)) =
      Keyword.ofSpelling? (String.ofList word) := congrArg Keyword.all.find? (funext hsame)
  cases hkeyword : Keyword.ofSpelling? (String.ofList word) with
  | none => simp only [wordOf, Scan.wordKind, hfind, hkeyword]
  | some k => simp only [wordOf, Scan.wordKind, hfind, hkeyword]

namespace Head

/-- The head behind a piece that was cut off. -/
def past (h : Head) (p : Piece) : Head :=
  { h with curr := h.curr + (octets p.text).length, line := Scan.endLine h.line p, pending := p.kind? }

/-- A head stands between these characters. -/
structure At (h : Head) (before behind : List Char) : Prop where
  text : h.source.toList = before ++ behind
  curr : h.curr = (octets before).length

namespace At

open Scanning Scan

variable {h h' : Head} {before behind text : List Char} {c : Char} {rest : List Char}

/-- A head between characters is one between their bytes. -/
theorem between (hat : h.At before behind) : h.Between (octets before) (octets behind) where
  bytes := by rw [Head.bytes, toList_toUTF8, hat.text, octets_append]
  curr := hat.curr

/-- The head that has gone over some of the characters. -/
theorem move (hat : h.At before behind) {after : List Char} (htext : text ++ after = behind)
    (hsource : h'.source = h.source) (hcurr : h'.curr = h.curr + (octets text).length) :
    h'.At (before ++ text) after where
  text := by rw [hsource, hat.text, ← htext, List.append_assoc]
  curr := by rw [hcurr, hat.curr, octets_append, List.length_append]

/-- The bytes behind a head are no more than those of the source. -/
theorem length_behind (hat : h.At before behind) : (octets behind).length < h.bytes.size + 1 := by
  rw [hat.between.size]
  omega

section Slices

variable {after : List Char} (hat : h.At before behind) (htext : text ++ after = behind)
  (hsource : h'.source = h.source) {first stop : ℕ} (hfirst : first = h.curr)
  (hstop : stop = h.curr + (octets text).length)
include hat htext hsource hfirst hstop

/-- The characters that the head has gone over can be cut out. -/
theorem slice_eq : slice first stop h' = .ok (String.ofList text) h' := by
  have hwhole : h'.source.toList = before ++ text ++ after := by rw [hsource, hat.text, ← htext, List.append_assoc]
  have hslice := textBetween?_octets hwhole
  rw [octets_append, List.length_append, ← hat.curr] at hslice
  rw [slice, hfirst, hstop, hslice]

/-- The bytes between two characters are those of the text between them. -/
theorem byteSlice_eq : byteSlice first stop h' = .ok text.utf8Encode h' := by
  have hbytes : h'.bytes = (before ++ text ++ after).utf8Encode := by
    rw [Head.bytes, String.toUTF8, ← String.utf8Encode_toList, hsource, hat.text, ← htext, List.append_assoc]
  have hcut := extract_between before text after
  rw [← hbytes, size_utf8Encode, size_utf8Encode, octets_append, List.length_append, ← hat.curr] at hcut
  have hsize : h'.bytes.size = h.curr + (octets text).length + (octets after).length := by
    rw [hbytes, size_utf8Encode, octets_append, octets_append, List.length_append, List.length_append, hat.curr]
  rw [byteSlice, if_pos (by omega), hfirst, hstop, hcut]

end Slices

/-- A loop over bytes goes over the characters that have a property of ASCII. -/
theorem advanceWhile_eq (hat : h.At before behind) {p : Char → Bool} (hp : Bytewise p) (hzero : byteIs p 0 = false) :
    advanceWhile (byteIs p) (h.bytes.size + 1) h =
      .ok () { h with curr := h.curr + (octets (behind.takeWhile p)).length } := by
  rw [hat.between.advanceWhile_eq hzero hat.length_behind, hp.takeWhile_octets]

/-- A character that is looked for is read if it comes next, and left otherwise. -/
theorem matchByte_eq (hat : h.At before behind) (hc : c.toNat < 128) :
    matchByte c h =
      if behind.head? == some c then .ok true { h with curr := h.curr + 1 } else .ok false h := by
  have hnext : behind.head?.any (· == c) = (behind.head? == some c) := by cases behind <;> rfl
  rw [hat.between.matchByte_eq, (Bytewise.beq hc).any_head?_octets, hnext]

section Numbers

/-- Reading digits leads behind all that come next. -/
theorem digits_eq (hat : h.At before behind) :
    digits h = .ok () { h with curr := h.curr + (octets (behind.takeWhile Char.isDigit)).length } :=
  hat.advanceWhile_eq .isDigit rfl

/-- Digits are taken if there is one. -/
theorem isEmpty_takeWhile_isDigit (text : List Char) :
    (text.takeWhile Char.isDigit).isEmpty = !text.head?.any Char.isDigit := by
  cases text with
  | nil => rfl
  | cons c rest => cases hc : c.isDigit <;> simp [hc]

/-- A point and digits are read as far as they belong to a number. -/
theorem fraction_eq (hat : h.At before behind) :
    fraction h = .ok () { h with curr := h.curr + (octets (pointAndDigits behind)).length } := by
  refine (bind_ok hat.between.peek_eq).trans ((bind_ok hat.between.peekNext_eq).trans ?_)
  rw [Bytewise.byteIs_headD (.beq (by decide)) rfl]
  cases behind with
  | nil => rfl
  | cons c rest =>
    by_cases hc : c = '.'
    · subst hc
      have hpoint : At { h with curr := h.curr + 1 } (before ++ ['.']) rest := hat.move rfl rfl rfl
      have hnext : byteIs Char.isDigit ((octets ('.' :: rest)).tail.headD 0) = rest.head?.any Char.isDigit :=
        Bytewise.isDigit.byteIs_headD rfl rest
      rw [hnext, pointAndDigits, fractionDigits, isEmpty_takeWhile_isDigit]
      cases rest.head?.any Char.isDigit with
      | false => rfl
      | true =>
        refine (bind_ok hat.between.advance_eq).trans (hpoint.digits_eq.trans ?_)
        rw [if_neg (by decide), length_octets_cons (by decide), Nat.add_right_comm, Nat.add_assoc]
    · have hother : (c == '.') = false := beq_false_of_ne hc
      have hnone : pointAndDigits (c :: rest) = [] := by
        unfold pointAndDigits fractionDigits
        split <;> simp_all
      rw [hnone, List.head?_cons, Option.any_some, hother]
      rfl

/-- The text of a number is its digits, and its point with the digits behind it. -/
theorem numberPiece_text (c : Char) (rest : List Char) : (numberPiece c rest).1.text =
    c :: (rest.takeWhile Char.isDigit ++ pointAndDigits (rest.dropWhile Char.isDigit)) := by
  unfold numberPiece pointAndDigits
  dsimp only
  split <;> simp

/-- The value of a number can be told from its text. -/
theorem numberPiece_shape (hc : c.isDigit = true) (rest : List Char) : (numberPiece c rest).1.shape =
    .token (.number (numberOf (String.ofList (numberPiece c rest).1.text))) := by
  have halone := congrArg (·.1.shape) (numberPiece_alone c rest)
  have hshape (digits : List Char) : (numberPiece c digits).1.shape =
      .token (.number (numberOf (String.ofList (c :: digits)))) := by
    unfold numberPiece numberOf
    simp only [String.toList_ofList, List.takeWhile_cons_of_pos hc, List.dropWhile_cons_of_pos hc]
    split <;> rfl
  rw [← halone, hshape, numberPiece_text, List.tail_cons]

/-- A number does not contain a newline. -/
theorem newline_not_mem_numberPiece (hc : c.isDigit = true) (rest : List Char) :
    '\n' ∉ (numberPiece c rest).1.text := by
  have hdigit (d : Char) (hd : d.isDigit = true) : d ≠ '\n' := by
    rintro rfl
    cases hd
  have hpoint : ∀ d ∈ pointAndDigits (rest.dropWhile Char.isDigit), d ≠ '\n' := by
    unfold pointAndDigits
    split
    · simp
    · exact List.forall_mem_cons.mpr ⟨by decide, fun d hd => hdigit d (isDigit_of_mem_fractionDigits d hd)⟩
  rw [numberPiece_text]
  intro hmem
  rcases List.mem_cons.mp hmem with h | hmem
  · exact hdigit c hc h.symm
  rcases List.mem_append.mp hmem with h | h
  · exact hdigit _ (List.mem_takeWhile_imp h) rfl
  · exact hpoint _ h rfl

end Numbers

/-- Behind a token that has no new line, only its end and its kind are noted. -/
theorem past_eq {p : Piece} {kind : Kind} (hshape : p.shape = .token kind) (hline : '\n' ∉ p.text) :
    h.past p = { h with curr := h.curr + (octets p.text).length, pending := some kind } := by
  rw [past, Piece.kind?, hshape, endLine, List.count_eq_zero.mpr hline]
  rfl

/-- A piece that is a token reports no error. -/
theorem error?_eq_none {p : Piece} {kind : Kind} (hshape : p.shape = .token kind) (line : ℕ) :
    p.error? line = none := by
  rw [Piece.error?, hshape]

/-- The head behind the first character, which is one of ASCII. -/
theorem read (hat : h.At before (c :: rest)) (hc : c.toNat < 128) :
    At { h with curr := h.curr + 1 } (before ++ [c]) rest :=
  hat.move rfl rfl (by rw [length_octets_cons hc]; rfl)

/-- A head in front of a digit reads the number that begins there. -/
theorem number_eq (hat : h.At before (c :: rest)) (hstart : h.start = h.curr) (hc : c.isDigit = true) :
    number { h with curr := h.curr + 1 } = .ok none (h.past (numberPiece c rest).1) := by
  have hascii := toNat_lt_of_isDigit hc
  have hfirst := hat.read hascii
  have hdigits : At { h with curr := h.curr + 1 + (octets (rest.takeWhile Char.isDigit)).length }
      (before ++ [c] ++ rest.takeWhile Char.isDigit) (rest.dropWhile Char.isDigit) :=
    hfirst.move List.takeWhile_append_dropWhile rfl rfl
  have hcurr : h.curr + 1 + (octets (rest.takeWhile Char.isDigit)).length +
      (octets (pointAndDigits (rest.dropWhile Char.isDigit))).length =
        h.curr + (octets (numberPiece c rest).1.text).length := by
    rw [numberPiece_text, length_octets_cons hascii, octets_append, List.length_append]
    omega
  refine (bind_ok hfirst.digits_eq).trans ((bind_ok hdigits.fraction_eq).trans ?_)
  rw [past_eq (numberPiece_shape hc rest) (newline_not_mem_numberPiece hc rest), ← hcurr]
  rw [get_bind]
  exact bind_ok (hat.slice_eq (numberPiece_append_rest c rest) (by rfl) hstart hcurr)

/-- A head in front of a letter reads the word that begins there. -/
theorem word_eq (hat : h.At before (c :: rest)) (hstart : h.start = h.curr) (hc : c.isAlpha = true) :
    word { h with curr := h.curr + 1 } = .ok none (h.past ⟨.token (wordKind (c :: rest.takeWhile Char.isAlpha)),
      c :: rest.takeWhile Char.isAlpha⟩) := by
  have hascii := toNat_lt_of_isAlpha hc
  have hletters : ∀ d ∈ c :: rest.takeWhile Char.isAlpha, d.isAlpha = true :=
    List.forall_mem_cons.mpr ⟨hc, fun _ => List.mem_takeWhile_imp⟩
  have hline : '\n' ∉ c :: rest.takeWhile Char.isAlpha := fun hmem => absurd (hletters _ hmem) (by decide)
  have hcurr : h.curr + 1 + (octets (rest.takeWhile Char.isAlpha)).length =
      h.curr + (octets (c :: rest.takeWhile Char.isAlpha)).length := by
    rw [length_octets_cons hascii]
    omega
  refine (bind_ok ((hat.read hascii).advanceWhile_eq .isAlpha rfl)).trans ?_
  rw [past_eq rfl hline, ← hcurr]
  rw [get_bind]
  have hword : c :: rest.takeWhile Char.isAlpha ++ rest.dropWhile Char.isAlpha = c :: rest :=
    congrArg (c :: ·) List.takeWhile_append_dropWhile
  refine (bind_ok (hat.byteSlice_eq hword (by rfl) hstart hcurr)).trans ?_
  rw [wordOf_utf8Encode]
  rfl

/-- A string goes to the next quote, or to the end if there is none. -/
theorem string_eq (hat : h.At before ('"' :: rest)) (hstart : h.start = h.curr) (hpending : h.pending = none) :
    string { h with curr := h.curr + 1 } =
      .ok ((stringPiece rest).1.error? (endLine h.line (stringPiece rest).1)) (h.past (stringPiece rest).1) := by
  have hquote : Bytewise (· != '"') := .bne (by decide)
  have hfirst := hat.read (by decide)
  have hloop := hfirst.between.toQuote_eq hfirst.length_behind
  rw [hquote.takeWhile_octets, countP_octets] at hloop
  have hbody : At { h with
      curr := h.curr + 1 + (octets (rest.takeWhile (· != '"'))).length
      line := h.line + (rest.takeWhile (· != '"')).count '\n' }
      (before ++ ['"'] ++ rest.takeWhile (· != '"')) (rest.dropWhile (· != '"')) :=
    hfirst.move List.takeWhile_append_dropWhile rfl rfl
  refine (bind_ok hloop).trans ((bind_ok hbody.between.atEnd_eq).trans ?_)
  have hrest := List.takeWhile_append_dropWhile (p := (· != '"')) (l := rest)
  unfold stringPiece
  rcases head?_dropWhile_ne '"' rest with hnone | hquote
  · rw [hnone, List.append_nil] at hrest
    have hline : endLine h.line ⟨.unterminated, '"' :: rest⟩ = h.line + rest.count '\n' := by
      rw [endLine, List.count_cons_of_ne (by decide)]
    have hpast : h.past ⟨.unterminated, '"' :: rest⟩ =
        { h with curr := h.curr + 1 + (octets rest).length, line := h.line + rest.count '\n' } := by
      rw [past, hline, length_octets_cons (by decide), Nat.add_right_comm, Nat.add_assoc, Piece.kind?]
      simp only [hpending]
    rw [hnone, hrest, hpast, hline]
    rfl
  · obtain ⟨after, hafter⟩ := List.head?_eq_some_iff.mp hquote
    rw [hafter] at hrest hbody ⊢
    generalize rest.takeWhile (· != '"') = body at hrest hbody ⊢
    have hline : endLine h.line ⟨.token (.string (String.ofList body)), '"' :: body ++ ['"']⟩ =
        h.line + body.count '\n' := by
      rw [endLine, List.cons_append, List.count_cons_of_ne (by decide), List.count_append]
      rfl
    have hlength : (octets ('"' :: body ++ ['"'])).length = (octets body).length + 2 := by
      rw [List.cons_append, length_octets_cons (by decide), octets_append, List.length_append]
      rfl
    have hpast : h.past ⟨.token (.string (String.ofList body)), '"' :: body ++ ['"']⟩ =
        { h with curr := h.curr + 1 + (octets body).length + 1, line := h.line + body.count '\n',
                 pending := some (.string (String.ofList body)) } := by
      rw [past, hline, hlength, Piece.kind?]
      simp only [Nat.add_assoc, Nat.add_comm 1]
    refine (bind_ok hbody.between.advance_eq).trans ?_
    rw [get_bind, hpast, error?_eq_none rfl]
    exact bind_ok (hfirst.slice_eq hrest (by rfl) (congrArg (· + 1) hstart) (Nat.add_sub_cancel ..))

/-- A comment goes to the next new line, or to the end if there is none. -/
theorem comment_eq (hat : h.At before ('/' :: '/' :: rest)) (hpending : h.pending = none) :
    comment { h with curr := h.curr + 1 + 1 } =
      .ok none (h.past ⟨.comment, '/' :: '/' :: rest.takeWhile (· != '\n')⟩) := by
  have hsecond : At { h with curr := h.curr + 1 + 1 } (before ++ ['/'] ++ ['/']) rest :=
    (hat.read (by decide)).read (by decide)
  have hsize : h.bytes.size = h.curr + 1 + 1 + (octets rest).length := hsecond.between.size
  have hrest : (octets rest).takeWhile (fun b => !byteIs (· == '\n') b) = octets (rest.takeWhile (· != '\n')) :=
    Bytewise.takeWhile_octets (p := (· != '\n')) (.bne (by decide)) rest
  have hline : endLine h.line ⟨.comment, '/' :: '/' :: rest.takeWhile (· != '\n')⟩ = h.line := by
    rw [endLine, List.count_cons_of_ne (by decide), List.count_cons_of_ne (by decide),
      List.count_eq_zero.mpr (not_mem_takeWhile_ne '\n' rest), Nat.add_zero]
  have hpast : h.past ⟨.comment, '/' :: '/' :: rest.takeWhile (· != '\n')⟩ =
      { h with curr := h.curr + 1 + 1 + (octets (rest.takeWhile (· != '\n'))).length } := by
    rw [past, hline, length_octets_cons (by decide), length_octets_cons (by decide), Piece.kind?]
    simp only [hpending, Nat.add_assoc, Nat.add_comm 1]
  have hbytes : rest.utf8Encode.data.toList = octets rest := by
    rw [List.utf8Encode, List.data_toByteArray]
    rfl
  unfold comment
  rw [get_bind, hpast]
  refine (bind_ok (hsecond.byteSlice_eq (List.append_nil rest) (by rfl) (by rfl) hsize)).trans ?_
  have hlength : ((octets rest).takeWhile fun b => !byteIs (· == '\n') b).length =
      ((octets rest).findIdx? (byteIs (· == '\n'))).getD (octets rest).length := by
    rw [List.takeWhile_eq_take_findIdx_not, ← List.findIdx_eq_getD_findIdx?, List.length_take]
    simp only [Bool.not_not]
    exact Nat.min_eq_left List.findIdx_le_length
  rw [hbytes, ← hrest, hlength]
  cases (octets rest).findIdx? (byteIs (· == '\n')) with
  | none =>
    rw [Option.getD_none, ← hsize]
    rfl
  | some i => rfl

/-- A character that begins no token is skipped with all its bytes. -/
theorem unexpected_eq (hat : h.At before (c :: rest)) (hstart : h.start = h.curr) (i : ℕ) :
    unexpected { h with curr := i } =
      .ok (some ⟨h.line, .unexpectedCharacter⟩) { h with curr := h.curr + (octets [c]).length } := by
  have hlength : (octets [c]).length = c.utf8Size := by
    rw [octets_cons, octets_nil, List.append_nil, String.length_utf8EncodeChar]
  unfold unexpected
  rw [get_bind]
  refine (bind_ok (hat.slice_eq (List.append_nil (c :: rest)) (by rfl) hstart hat.between.size)).trans ?_
  rw [String.toList_ofList, hlength, ← hstart]
  rfl

end At

end Head

namespace Scan

variable {c : Char} {rest : List Char}

/-- A character begins no piece but an unexpected one. -/
structure BeginsNothing (c : Char) : Prop where
  punctuation : punctuation? c = none
  comparison : comparison? c = none
  blank : isBlank c = false
  quote : (c == '"') = false
  slash : (c == '/') = false
  digit : c.isDigit = false
  letter : c.isAlpha = false

/-- A character that begins nothing is a piece by itself, which is not expected. -/
theorem BeginsNothing.firstPiece_eq (h : BeginsNothing c) (rest : List Char) :
    firstPiece c rest = (⟨.unexpected, [c]⟩, rest) := by
  simp [firstPiece, h.punctuation, h.comparison, h.blank, h.quote, h.slash, h.digit, h.letter]

/-- A head that has read a character that begins nothing reports it. -/
theorem BeginsNothing.scanFrom_eq (h : BeginsNothing c) : Scanning.scanFrom c = Scanning.unexpected := by
  have hblank := h.blank
  simp only [isBlank, Bool.or_eq_false_iff] at hblank
  simp [Scanning.scanFrom, h.punctuation, h.comparison, hblank, h.quote, h.slash, h.digit, h.letter]

/-- No piece begins with a character outside of ASCII. -/
theorem beginsNothing_of_le (h : 128 ≤ c.toNat) : BeginsNothing c where
  punctuation := by
    unfold punctuation?
    split <;> first | rfl | exact absurd h (by decide)
  comparison := by
    unfold comparison?
    split <;> first | rfl | exact absurd h (by decide)
  blank := isBlank_eq_false (p := fun d => decide (128 ≤ d.toNat)) rfl (decide_eq_true h)
  quote := beq_false_of_ne <| by
    rintro rfl
    exact absurd h (by decide)
  slash := beq_false_of_ne <| by
    rintro rfl
    exact absurd h (by decide)
  digit := Bool.eq_false_iff.mpr fun hc => absurd (toNat_lt_of_isDigit hc) (Nat.not_lt.mpr h)
  letter := Bool.eq_false_iff.mpr fun hc => absurd (toNat_lt_of_isAlpha hc) (Nat.not_lt.mpr h)

end Scan

namespace Head.At

open Scanning Scan

variable {h : Head} {before : List Char} {c : Char} {rest : List Char}

/-- A head in front of a character that begins nothing goes on behind it, and keeps an error to report. -/
theorem nothing_eq (hat : h.At before (c :: rest)) (hstart : h.start = h.curr) (hpending : h.pending = none)
    (hc : BeginsNothing c) {d : Char} (hd : BeginsNothing d) : scanFrom d { h with curr := h.curr + 1 } =
      .ok ((firstPiece c rest).1.error? (endLine h.line (firstPiece c rest).1)) (h.past (firstPiece c rest).1) := by
  have hline : endLine h.line ⟨.unexpected, [c]⟩ = h.line := by
    have hne : c ≠ '\n' := by
      rintro rfl
      cases hc.blank
    rw [endLine, List.count_singleton, if_neg (by simpa using hne), Nat.add_zero]
  rw [hd.scanFrom_eq, hc.firstPiece_eq, hat.unexpected_eq hstart, past, hline, Piece.kind?]
  simp only [hpending]
  rfl

/-- An equals sign is read if it belongs to the symbol. -/
theorem comparison_eq (hat : h.At before (c :: rest)) {single double : Symbol}
    (hc : comparison? c = some (single, double)) : scanFrom c { h with curr := h.curr + 1 } =
      .ok ((firstPiece c rest).1.error? (endLine h.line (firstPiece c rest).1)) (h.past (firstPiece c rest).1) := by
  obtain ⟨hascii, hnewline, hpunctuation, hpiece⟩ : c.toNat < 128 ∧ c ≠ '\n' ∧ punctuation? c = none ∧
      firstPiece c rest = if rest.head? == some '=' then (⟨.token (.symbol double), [c, '=']⟩, rest.tail)
        else (⟨.token (.symbol single), [c]⟩, rest) := by
    unfold comparison? at hc
    split at hc <;> cases hc <;> exact ⟨by decide, by decide, rfl, rfl⟩
  have hmatch := (hat.read hascii).matchByte_eq (c := '=') (by decide)
  have hsingle : h.past ⟨.token (.symbol single), [c]⟩ =
      { h with curr := h.curr + 1, pending := some (.symbol single) } := by
    rw [past_eq rfl (by simpa using hnewline.symm), length_octets_cons hascii]
    rfl
  have hdouble : h.past ⟨.token (.symbol double), [c, '=']⟩ =
      { h with curr := h.curr + 1 + 1, pending := some (.symbol double) } := by
    rw [past_eq rfl (by simpa using hnewline.symm), length_octets_cons hascii]
    rfl
  rw [hpiece]
  unfold scanFrom
  rw [hpunctuation, hc]
  cases hequals : rest.head? == some '=' with
  | true =>
    rw [hequals] at hmatch
    refine (bind_ok hmatch).trans ?_
    show _ = EStateM.Result.ok none (h.past ⟨.token (.symbol double), [c, '=']⟩)
    rw [hdouble]
    rfl
  | false =>
    rw [hequals] at hmatch
    refine (bind_ok hmatch).trans ?_
    show _ = EStateM.Result.ok none (h.past ⟨.token (.symbol single), [c]⟩)
    rw [hsingle]
    rfl

/-- A blank is skipped, and counted if it is a new line. -/
theorem blank_eq (hpending : h.pending = none) (hc : isBlank c = true) (rest : List Char) :
    scanFrom c { h with curr := h.curr + 1 } =
      .ok ((firstPiece c rest).1.error? (endLine h.line (firstPiece c rest).1)) (h.past (firstPiece c rest).1) := by
  have hmem := (isBlank_iff c).mp hc
  obtain ⟨source, start, curr, line, pending⟩ := h
  obtain rfl : pending = none := hpending
  simp only [List.mem_cons, List.not_mem_nil, or_false] at hmem
  obtain rfl | rfl | rfl | rfl := hmem <;> rfl

/-- A slash is a token, unless another one follows. -/
theorem slash_eq (hat : h.At before ('/' :: rest)) (hpending : h.pending = none) :
    scanFrom '/' { h with curr := h.curr + 1 } =
      .ok ((firstPiece '/' rest).1.error? (endLine h.line (firstPiece '/' rest).1))
        (h.past (firstPiece '/' rest).1) := by
  have hmatch := (hat.read (by decide)).matchByte_eq (c := '/') (by decide)
  have hslash : scanFrom '/' = (matchByte '/' >>= fun second =>
      if second then comment else pend (.symbol .slash) >>= fun _ => pure none) := rfl
  rw [hslash]
  by_cases hcomment : rest.head? = some '/'
  · obtain ⟨more, rfl⟩ := List.head?_eq_some_iff.mp hcomment
    have hpiece : firstPiece '/' ('/' :: more) =
        (⟨.comment, '/' :: '/' :: more.takeWhile (· != '\n')⟩, more.dropWhile (· != '\n')) := rfl
    rw [hpiece]
    exact (bind_ok hmatch).trans (hat.comment_eq hpending)
  · have hother : (rest.head? == some '/') = false := beq_false_of_ne hcomment
    have hpiece : firstPiece '/' rest = (⟨.token (.symbol .slash), ['/']⟩, rest) := by
      simp [firstPiece, isBlank, hother, Char.isDigit, Char.isAlpha, Char.isUpper, Char.isLower]
    rw [hother] at hmatch
    rw [hpiece]
    exact bind_ok hmatch

/-- From the first byte of a character on, the head goes over the first piece. -/
theorem scanFrom_eq (hat : h.At before (c :: rest)) (hstart : h.start = h.curr) (hpending : h.pending = none)
    (hc : c.toNat < 128) : scanFrom c { h with curr := h.curr + 1 } =
      .ok ((firstPiece c rest).1.error? (endLine h.line (firstPiece c rest).1)) (h.past (firstPiece c rest).1) := by
  have hfirst := hat.read hc
  cases hpunctuation : punctuation? c with
  | some s =>
    unfold punctuation? at hpunctuation
    split at hpunctuation <;> cases hpunctuation <;> rfl
  | none =>
    cases hcomparison : comparison? c with
    | some symbols => exact hat.comparison_eq hcomparison
    | none =>
      by_cases hblank : isBlank c = true
      · exact blank_eq hpending hblank rest
      have hblanks := hblank
      simp only [isBlank, Bool.or_eq_true, beq_iff_eq, not_or] at hblanks
      by_cases hslash : c = '/'
      · subst hslash
        exact hat.slash_eq hpending
      by_cases hquote : c = '"'
      · subst hquote
        exact hat.string_eq hstart hpending
      by_cases hdigit : c.isDigit = true
      · have hnumber : scanFrom c = number := by
          simp [scanFrom, hpunctuation, hcomparison, hblanks, hslash, hquote, hdigit]
        rw [hnumber, firstPiece_digit hdigit, error?_eq_none (numberPiece_shape hdigit rest)]
        exact hat.number_eq hstart hdigit
      by_cases hletter : c.isAlpha = true
      · have hword : scanFrom c = word := by
          simp [scanFrom, hpunctuation, hcomparison, hblanks, hslash, hquote, hdigit, hletter]
        rw [hword, firstPiece_letter hletter]
        exact hat.word_eq hstart hletter
      have hnothing : BeginsNothing c := ⟨hpunctuation, hcomparison, by simpa using hblank, by simpa using hquote,
        by simpa using hslash, by simpa using hdigit, by simpa using hletter⟩
      exact hat.nothing_eq hstart hpending hnothing hnothing

/-- The head goes over the first piece of the text behind it. -/
theorem scanToken_eq (hat : h.At before (c :: rest)) (hstart : h.start = h.curr) (hpending : h.pending = none) :
    scanToken h =
      .ok ((firstPiece c rest).1.error? (endLine h.line (firstPiece c rest).1)) (h.past (firstPiece c rest).1) := by
  obtain ⟨b, bs, hcons⟩ := List.exists_cons_of_ne_nil (@String.utf8EncodeChar_ne_nil c)
  have hmem : b ∈ String.utf8EncodeChar c := hcons ▸ List.mem_cons_self ..
  have hbetween := hat.between
  rw [octets_cons, hcons] at hbetween
  refine (bind_ok hbetween.advance_eq).trans ?_
  by_cases hc : c.toNat < 128
  · rw [utf8EncodeChar_of_lt hc, List.mem_singleton] at hmem
    rw [hmem, ofUInt8_ofNat hc]
    exact hat.scanFrom_eq hstart hpending hc
  · have hc := Nat.not_lt.mp hc
    have hbyte : BeginsNothing (Char.ofUInt8 b) := beginsNothing_of_le (le_of_mem_utf8EncodeChar hc hmem)
    exact hat.nothing_eq hstart hpending (beginsNothing_of_le hc) hbyte

end Head.At

end Lox
