import Mathlib
import Lox.Proofs.Token.Lines

/-!
# Scanning loses nothing

A source is read as characters and reported by tokens and errors with line numbers. Both can be placed
in its UTF-8 bytes: the bytes are cut into consecutive ranges, of which each is an item that scanning
reports, or a stretch that it skips. A range is known from the characters before it, so one invariant
carries the induction over the pieces: the next range begins behind the bytes of the pieces before it,
on the line after as many new lines as those have.
-/

set_option autoImplicit false

namespace Lox.Scan

/-- A range of bytes, and what scanning reports of it. -/
structure Segment where
  start : Nat
  stop : Nat
  item : Option Item

/-- Segments follow one another without a gap, none of them empty, from `start` to `stop`. -/
def Tile : (start stop : Nat) → List Segment → Prop
  | start, stop, [] => start = stop
  | start, stop, g :: rest => g.start = start ∧ start < g.stop ∧ Tile g.stop stop rest

/-- How many new lines there are among bytes. -/
def newlines (bytes : ByteArray) : Nat := bytes.data.count '\n'.toUInt8

namespace Segment

variable (source : String) (g : Segment)

/-- The bytes of the range. -/
def bytes : ByteArray := source.toUTF8.extract g.start g.stop

/-- The line on which the range ends. -/
def line : Nat := 1 + newlines (source.toUTF8.extract 0 g.stop)

/-- The range is one character that only separates tokens. -/
def IsBlank : Prop := ∃ c ∈ [' ', '\t', '\r', '\n'], g.bytes source = c.toString.toUTF8

/-- The range is a comment, up to the end of its line or of the source. -/
def IsComment : Prop :=
  (∃ text : List Char, '\n' ∉ text ∧ g.bytes source = (String.ofList ('/' :: '/' :: text)).toUTF8) ∧
    (g.stop = source.toUTF8.size ∨ source.toUTF8.extract g.stop (g.stop + 1) = '\n'.toString.toUTF8)

/-- What is reported of the range is true of it. -/
def Faithful : Prop :=
  match g.item with
  | none => g.IsBlank source ∨ g.IsComment source
  | some (.token t) => t.lexeme.toUTF8 = g.bytes source ∧ t.line = g.line source
  | some (.error e) =>
    e.line = g.line source ∧
      match e.cause with
      | .unexpectedCharacter => ∃ c : Char, g.bytes source = c.toString.toUTF8
      | .unterminatedString =>
        g.stop = source.toUTF8.size ∧
          ∃ text : List Char, '"' ∉ text ∧ g.bytes source = (String.ofList ('"' :: text)).toUTF8

end Segment

section Bytes

/-- Only the new line has the byte of the new line. -/
theorem count_utf8EncodeChar (c : Char) :
    (String.utf8EncodeChar c).count '\n'.toUInt8 = if c = '\n' then 1 else 0 := by
  have hbyte (n : Nat) (h : n % 256 ≠ 10) : '\n'.toUInt8 ≠ UInt8.ofNat n := by
    intro heq
    have hn := congrArg UInt8.toNat heq
    rw [UInt8.toNat_ofNat', show '\n'.toUInt8.toNat = 10 from rfl] at hn
    omega
  by_cases hc : c = '\n'
  · subst hc
    rfl
  have hval : c.val.toNat ≠ 10 := fun h => hc (Char.ext (UInt32.toNat_inj.mp h))
  rw [if_neg hc, List.count_eq_zero]
  unfold String.utf8EncodeChar
  dsimp only
  -- a single byte is the number of the character, and all others are too large
  split
  · exact List.not_mem_cons_of_ne_of_not_mem (hbyte _ (by omega)) List.not_mem_nil
  split
  · simp only [List.mem_cons, List.not_mem_nil, or_false, not_or]
    exact ⟨hbyte _ (by omega), hbyte _ (by omega)⟩
  split
  · simp only [List.mem_cons, List.not_mem_nil, or_false, not_or]
    exact ⟨hbyte _ (by omega), hbyte _ (by omega), hbyte _ (by omega)⟩
  · simp only [List.mem_cons, List.not_mem_nil, or_false, not_or]
    exact ⟨hbyte _ (by omega), hbyte _ (by omega), hbyte _ (by omega), hbyte _ (by omega)⟩

/-- New lines can be counted among characters or among their bytes. -/
theorem newlines_utf8Encode (text : List Char) : newlines text.utf8Encode = text.count '\n' := by
  unfold newlines List.utf8Encode
  rw [List.data_toByteArray, List.count_toArray]
  induction text with
  | nil => rfl
  | cons c rest ih =>
    rw [List.flatMap_cons, List.count_append, ih, count_utf8EncodeChar, List.count_cons, Nat.add_comm]
    simp

/-- A text that is not empty is encoded by at least one byte. -/
theorem size_utf8Encode_pos {text : List Char} (h : text ≠ []) : 0 < text.utf8Encode.size := by
  refine Nat.pos_of_ne_zero fun hsize => h ?_
  exact List.utf8Encode_eq_empty.mp (ByteArray.size_eq_zero_iff.mp hsize)

/-- The bytes of what comes before a text are its first ones. -/
theorem extract_before (before text : List Char) :
    (before ++ text).utf8Encode.extract 0 before.utf8Encode.size = before.utf8Encode := by
  rw [List.utf8Encode_append]
  exact ByteArray.extract_append_eq_left rfl

/-- The bytes between those before and those behind a part of a text are its bytes. -/
theorem extract_between (before text after : List Char) :
    (before ++ text ++ after).utf8Encode.extract before.utf8Encode.size
      (before ++ text).utf8Encode.size = text.utf8Encode := by
  have hwhole : (before ++ text ++ after).utf8Encode =
      before.utf8Encode ++ (text.utf8Encode ++ after.utf8Encode) := by
    rw [List.append_assoc, List.utf8Encode_append, List.utf8Encode_append]
  have hstop : (before ++ text).utf8Encode.size = before.utf8Encode.size + text.utf8Encode.size := by
    rw [List.utf8Encode_append, ByteArray.size_append]
  rw [hwhole, hstop, ← Nat.add_zero before.utf8Encode.size, Nat.add_assoc, Nat.zero_add,
    ByteArray.extract_append_size_add]
  exact ByteArray.extract_append_eq_left rfl

end Bytes

section Pieces

/-- A piece, in front of the characters `after`, is what its shape says. -/
def ShapedPiece (p : Piece) (after : List Char) : Prop :=
  match p.shape with
  | .blank => ∃ c ∈ [' ', '\t', '\r', '\n'], p.text = [c]
  | .comment =>
    (∃ text, '\n' ∉ text ∧ p.text = '/' :: '/' :: text) ∧ (after = [] ∨ after.head? = some '\n')
  | .token _ => True
  | .unexpected => ∃ c, p.text = [c]
  | .unterminated => after = [] ∧ ∃ text, '"' ∉ text ∧ p.text = '"' :: text

/-- Blanks are the space, the tab, the carriage return and the newline. -/
theorem isBlank_iff (c : Char) : isBlank c = true ↔ c ∈ [' ', '\t', '\r', '\n'] := by
  simp only [isBlank, Bool.or_eq_true, beq_iff_eq, List.mem_cons, List.not_mem_nil, or_false]
  tauto

/-- A character does not occur before its first occurrence. -/
theorem not_mem_takeWhile_ne (c : Char) (text : List Char) : c ∉ text.takeWhile (· != c) := by
  intro h
  simpa using List.mem_takeWhile_imp h

/-- Pieces have the new lines of their text. -/
theorem foldl_endLine_pieces (line : Nat) (text : List Char) :
    (pieces text).foldl endLine line = line + text.count '\n' := by
  induction text using pieces.induct generalizing line with
  | case1 => rw [pieces]; rfl
  | case2 c rest ih =>
    rw [pieces, List.foldl_cons, ih, endLine, Nat.add_assoc, ← List.count_append, firstPiece_append_rest]

/-- The first piece of a text is what its shape says. -/
theorem firstPiece_shaped (c : Char) (rest : List Char) :
    ShapedPiece (firstPiece c rest).1 (firstPiece c rest).2 := by
  unfold firstPiece
  split
  · rename_i hblank
    exact ⟨c, (isBlank_iff c).mp hblank, rfl⟩
  split
  · unfold stringPiece
    cases hafter : rest.dropWhile (· != '"') with
    | nil =>
      refine ⟨rfl, rest, fun hquote => ?_, rfl⟩
      simpa using List.dropWhile_eq_nil_iff.mp hafter _ hquote
    | cons quote after => trivial
  split
  · unfold numberPiece
    dsimp only
    split <;> trivial
  split
  · trivial
  split
  · split
    · rename_i hcomment
      obtain ⟨text, rfl⟩ := List.head?_eq_some_iff.mp (beq_iff_eq.mp hcomment)
      exact ⟨⟨text.takeWhile (· != '\n'), not_mem_takeWhile_ne '\n' text, by simp_all⟩,
        head?_dropWhile_ne '\n' ('/' :: text)⟩
    · trivial
  split
  · trivial
  · split <;> trivial
  · exact ⟨c, rfl⟩

end Pieces

section Segments

/-- The segments of pieces that begin at the byte `start`, on line `line`. -/
def segmentsFrom (line start : Nat) : List Piece → List Segment
  | [] => []
  | p :: rest =>
    let stop := start + (String.ofList p.text).toUTF8.size
    ⟨start, stop, item? (endLine line p) p⟩ :: segmentsFrom (endLine line p) stop rest

/-- The items of pieces are those of their segments. -/
theorem itemsBefore_eq_segments (line start : Nat) (ps : List Piece) :
    itemsBefore line ps = (segmentsFrom line start ps).filterMap (·.item) := by
  induction ps generalizing line start with
  | nil => rfl
  | cons p rest ih =>
    rw [itemsBefore, ih (endLine line p) (start + (String.ofList p.text).toUTF8.size), segmentsFrom,
      List.filterMap_cons]
    cases item? (endLine line p) p <;> rfl

variable {source : String} {before text after : List Char} {p : Piece}

/-- The segment of a piece between other parts of the source has the bytes of the piece. -/
theorem bytes_segment (h : source.toList = before ++ p.text ++ after) (item : Option Item) :
    Segment.bytes source ⟨before.utf8Encode.size, (before ++ p.text).utf8Encode.size, item⟩ =
      p.text.utf8Encode := by
  rw [Segment.bytes, String.toUTF8, ← String.utf8Encode_toList, h, extract_between]

/-- It ends on the line on which its piece ends. -/
theorem line_segment (h : source.toList = before ++ p.text ++ after) (start : Nat) (item : Option Item) :
    Segment.line source ⟨start, (before ++ p.text).utf8Encode.size, item⟩ =
      endLine (1 + before.count '\n') p := by
  rw [Segment.line, String.toUTF8, ← String.utf8Encode_toList, h, extract_before, newlines_utf8Encode,
    endLine, List.count_append, Nat.add_assoc]

/-- What scanning reports of a piece is true of its segment. -/
theorem faithful_segment (h : source.toList = before ++ p.text ++ after) (hp : ShapedPiece p after) :
    Segment.Faithful source ⟨before.utf8Encode.size, (before ++ p.text).utf8Encode.size,
      item? (endLine (1 + before.count '\n') p) p⟩ := by
  have hbytes := bytes_segment h (item? (endLine (1 + before.count '\n') p) p)
  have hline := line_segment h before.utf8Encode.size (item? (endLine (1 + before.count '\n') p) p)
  have hend (hafter : after = []) : (before ++ p.text).utf8Encode.size = source.toUTF8.size := by
    rw [String.toUTF8, ← String.utf8Encode_toList, h, hafter, List.append_nil]
  obtain ⟨shape, text⟩ := p
  cases shape with
  | blank =>
    obtain ⟨c, hc, rfl⟩ := hp
    exact .inl ⟨c, hc, hbytes.trans String.toByteArray_ofList.symm⟩
  | comment =>
    obtain ⟨⟨text, hnewline, rfl⟩, hafter⟩ := hp
    refine .inr ⟨⟨text, hnewline, hbytes.trans String.toByteArray_ofList.symm⟩, hafter.imp hend ?_⟩
    intro hhead
    obtain ⟨rest, rfl⟩ := List.head?_eq_some_iff.mp hhead
    have hnext := extract_between (before ++ '/' :: '/' :: text) ['\n'] rest
    rw [List.append_assoc _ ['\n'], List.singleton_append, ← h, String.utf8Encode_toList] at hnext
    have hnewline : (before ++ '/' :: '/' :: text ++ ['\n']).utf8Encode.size =
        (before ++ '/' :: '/' :: text).utf8Encode.size + 1 := by
      rw [List.utf8Encode_append, ByteArray.size_append]
      rfl
    rw [hnewline] at hnext
    exact hnext.trans String.toByteArray_ofList.symm
  | token kind => exact ⟨String.toByteArray_ofList.trans hbytes.symm, hline.symm⟩
  | unexpected =>
    obtain ⟨c, rfl⟩ := hp
    exact ⟨hline.symm, c, hbytes.trans String.toByteArray_ofList.symm⟩
  | unterminated =>
    obtain ⟨hafter, text, hquote, rfl⟩ := hp
    exact ⟨hline.symm, hend hafter, text, hquote, hbytes.trans String.toByteArray_ofList.symm⟩

/-- Pieces from somewhere in a source on are tiled by segments that are true of it. -/
theorem segmentsFrom_faithful (h : source.toList = before ++ text) :
    Tile before.utf8Encode.size source.toUTF8.size
        (segmentsFrom (1 + before.count '\n') before.utf8Encode.size (pieces text)) ∧
      ∀ g ∈ segmentsFrom (1 + before.count '\n') before.utf8Encode.size (pieces text),
        g.Faithful source := by
  induction text using pieces.induct generalizing before with
  | case1 =>
    rw [pieces]
    refine ⟨?_, List.forall_mem_nil _⟩
    show before.utf8Encode.size = source.toUTF8.size
    rw [String.toUTF8, ← String.utf8Encode_toList, h, List.append_nil]
  | case2 c rest ih =>
    have hsplit : source.toList = before ++ (firstPiece c rest).1.text ++ (firstPiece c rest).2 := by
      rw [h, List.append_assoc, firstPiece_append_rest]
    have hstop : before.utf8Encode.size + (String.ofList (firstPiece c rest).1.text).toUTF8.size =
        (before ++ (firstPiece c rest).1.text).utf8Encode.size := by
      rw [String.toUTF8, String.toByteArray_ofList, List.utf8Encode_append, ByteArray.size_append]
    have hline : endLine (1 + before.count '\n') (firstPiece c rest).1 =
        1 + (before ++ (firstPiece c rest).1.text).count '\n' := by
      rw [endLine, List.count_append, Nat.add_assoc]
    obtain ⟨htile, hfaithful⟩ := ih hsplit
    have hlt : before.utf8Encode.size < (before ++ (firstPiece c rest).1.text).utf8Encode.size := by
      rw [List.utf8Encode_append, ByteArray.size_append]
      exact Nat.lt_add_of_pos_right (size_utf8Encode_pos (firstPiece_text_ne_nil c rest))
    rw [← hline] at htile hfaithful
    rw [pieces, segmentsFrom, hstop]
    exact ⟨⟨rfl, hlt, htile⟩,
      List.forall_mem_cons.mpr ⟨faithful_segment hsplit (firstPiece_shaped c rest), hfaithful⟩⟩

end Segments

/-- Scanning loses nothing: the bytes of a source are tiled by segments of which each is an item that is
reported, or a blank or a comment that is not. The items are those of the segments in their order, and
the end of the input on the line on which the source ends. -/
theorem items_cover (source : String) :
    ∃ segments : List Segment,
      Tile 0 source.toUTF8.size segments ∧ (∀ g ∈ segments, g.Faithful source) ∧
        items source =
          segments.filterMap (·.item) ++ [.token (.eofAt (1 + newlines source.toUTF8))] := by
  obtain ⟨htile, hfaithful⟩ := @segmentsFrom_faithful source [] source.toList rfl
  refine ⟨segmentsFrom 1 0 (pieces source.toList), htile, hfaithful, ?_⟩
  rw [items, itemsFrom_eq, itemsBefore_eq_segments 1 0, foldl_endLine_pieces, ← newlines_utf8Encode,
    String.utf8Encode_toList]
  rfl

end Lox.Scan
