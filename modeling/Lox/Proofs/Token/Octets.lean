import Mathlib
import Lox.Proofs.Token.Coverage
import Lox.Proofs.Token.Head

/-!
# Characters and their bytes

The bytes of a character of ASCII are the character itself, and all bytes of another character lie outside of ASCII.
So a property that does not tell apart characters outside of ASCII is one of bytes as well: where characters stop
having it, bytes do. Between two places in a text, there is no character that is cut in two.
-/

set_option autoImplicit false

namespace Lox

/-- The bytes of characters. -/
def octets (text : List Char) : List UInt8 := text.flatMap String.utf8EncodeChar

/-- An empty text has no bytes. -/
@[simp] theorem octets_nil : octets [] = [] := rfl

/-- The bytes of a text are those of its first character and those of the rest. -/
@[simp] theorem octets_cons (c : Char) (text : List Char) :
    octets (c :: text) = String.utf8EncodeChar c ++ octets text :=
  List.flatMap_cons

/-- The bytes of two texts in a row are those of the first and those of the second. -/
@[simp] theorem octets_append (text text' : List Char) : octets (text ++ text') = octets text ++ octets text' :=
  List.flatMap_append

/-- A text is encoded by as many bytes as are listed. -/
theorem size_utf8Encode (text : List Char) : text.utf8Encode.size = (octets text).length := by
  rw [← ByteArray.size_data, List.utf8Encode, List.data_toByteArray, List.size_toArray]
  rfl

/-- The bytes of a source are those of its characters. -/
theorem toList_toUTF8 (source : String) : source.toUTF8.data.toList = octets source.toList := by
  rw [String.toUTF8, ← String.utf8Encode_toList, List.utf8Encode, List.data_toByteArray]
  rfl

section Ascii

variable {c : Char} {b : UInt8}

/-- A character of ASCII is encoded by one byte. -/
theorem utf8EncodeChar_of_lt (h : c.toNat < 128) : String.utf8EncodeChar c = [UInt8.ofNat c.toNat] :=
  if_pos (Nat.le_of_lt_succ h)

/-- The number of a byte is that of the character for which it is taken. -/
theorem toNat_ofUInt8 (b : UInt8) : (Char.ofUInt8 b).toNat = b.toNat := rfl

/-- A character of ASCII is its byte. -/
theorem ofUInt8_ofNat (h : c.toNat < 128) : Char.ofUInt8 (UInt8.ofNat c.toNat) = c := by
  refine Char.ext (UInt32.toNat_inj.mp ?_)
  show (UInt8.ofNat c.toNat).toNat = c.toNat
  rw [UInt8.toNat_ofNat']
  omega

/-- The bytes of a character outside of ASCII are outside of ASCII. -/
theorem le_of_mem_utf8EncodeChar (h : 128 ≤ c.toNat) (hb : b ∈ String.utf8EncodeChar c) : 128 ≤ b.toNat := by
  have hbyte {n : ℕ} (hn : 128 ≤ n % 256) : 128 ≤ (UInt8.ofNat n).toNat := by
    rwa [UInt8.toNat_ofNat']
  have hval : c.val.toNat = c.toNat := rfl
  unfold String.utf8EncodeChar at hb
  dsimp only at hb
  split at hb
  · omega
  split at hb
  · simp only [List.mem_cons, List.not_mem_nil, or_false] at hb
    obtain rfl | rfl := hb <;> exact hbyte (by omega)
  split at hb
  · simp only [List.mem_cons, List.not_mem_nil, or_false] at hb
    obtain rfl | rfl | rfl := hb <;> exact hbyte (by omega)
  · simp only [List.mem_cons, List.not_mem_nil, or_false] at hb
    obtain rfl | rfl | rfl | rfl := hb <;> exact hbyte (by omega)

/-- Letters are in ASCII. -/
theorem toNat_lt_of_isAlpha (hc : c.isAlpha = true) : c.toNat < 128 := by
  have hval : c.val.toNat = c.toNat := rfl
  simp [Char.isAlpha, Char.isUpper, Char.isLower, UInt32.le_iff_toNat_le] at hc
  omega

/-- Digits are in ASCII. -/
theorem toNat_lt_of_isDigit (hc : c.isDigit = true) : c.toNat < 128 := by
  have hval : c.val.toNat = c.toNat := rfl
  simp [Char.isDigit, UInt32.le_iff_toNat_le] at hc
  omega

end Ascii

/-- A character of ASCII adds one byte. -/
theorem length_octets_cons {c : Char} (hc : c.toNat < 128) (text : List Char) :
    (octets (c :: text)).length = (octets text).length + 1 := by
  rw [octets_cons, utf8EncodeChar_of_lt hc]
  rfl

/-- A property does not tell apart characters outside of ASCII. -/
def Bytewise (p : Char → Bool) : Prop := ∀ c d : Char, 128 ≤ c.toNat → 128 ≤ d.toNat → p c = p d

namespace Bytewise

variable {p : Char → Bool}

/-- The negation of a bytewise property is bytewise. -/
theorem not (h : Bytewise p) : Bytewise fun c => !p c := fun c d hc hd => congrArg _ (h c d hc hd)

/-- A property of characters in ASCII only. -/
theorem of_ascii (h : ∀ c, p c = true → c.toNat < 128) : Bytewise p := by
  have hfalse (c : Char) (hc : 128 ≤ c.toNat) : p c = false :=
    Bool.eq_false_iff.mpr fun hp => absurd (h c hp) (Nat.not_lt.mpr hc)
  intro c d hc hd
  rw [hfalse c hc, hfalse d hd]

/-- Being one character of ASCII is bytewise. -/
theorem beq {c : Char} (hc : c.toNat < 128) : Bytewise (· == c) :=
  of_ascii fun d hd => by rwa [beq_iff_eq.mp hd]

/-- Being another character than one of ASCII is bytewise. -/
theorem bne {c : Char} (hc : c.toNat < 128) : Bytewise (· != c) := (beq hc).not

/-- Being a letter is bytewise. -/
theorem isAlpha : Bytewise Char.isAlpha := of_ascii fun _ => toNat_lt_of_isAlpha

/-- Being a digit is bytewise. -/
theorem isDigit : Bytewise Char.isDigit := of_ascii fun _ => toNat_lt_of_isDigit

variable (h : Bytewise p)
include h

/-- The bytes of a character have the property if the character does. -/
theorem byteIs_of_mem {c : Char} {b : UInt8} (hb : b ∈ String.utf8EncodeChar c) : byteIs p b = p c := by
  by_cases hc : c.toNat < 128
  · rw [utf8EncodeChar_of_lt hc, List.mem_singleton] at hb
    rw [hb, byteIs, ofUInt8_ofNat hc]
  · have hc := Nat.not_lt.mp hc
    exact h _ c (by rw [toNat_ofUInt8]; exact le_of_mem_utf8EncodeChar hc hb) hc

/-- Characters stop having the property where their bytes do. -/
theorem takeWhile_octets (text : List Char) : (octets text).takeWhile (byteIs p) = octets (text.takeWhile p) := by
  induction text with
  | nil => rfl
  | cons c rest ih =>
    have hbytes (b : UInt8) (hb : b ∈ String.utf8EncodeChar c) : byteIs p b = p c := h.byteIs_of_mem hb
    rw [octets_cons]
    cases hp : p c with
    | true =>
      rw [List.takeWhile_append_of_pos fun b hb => (hbytes b hb).trans hp, ih, List.takeWhile_cons_of_pos hp,
        octets_cons]
    | false =>
      obtain ⟨b, bs, hcons⟩ := List.exists_cons_of_ne_nil (@String.utf8EncodeChar_ne_nil c)
      have hb : byteIs p b = false := (hbytes b (hcons ▸ List.mem_cons_self ..)).trans hp
      rw [hcons, List.cons_append, List.takeWhile_cons_of_neg (by simp [hb]),
        List.takeWhile_cons_of_neg (by simp [hp])]
      rfl

/-- The next byte has the property if the next character does. -/
theorem any_head?_octets (text : List Char) : (octets text).head?.any (byteIs p) = text.head?.any p := by
  cases text with
  | nil => rfl
  | cons c rest =>
    obtain ⟨b, bs, hcons⟩ := List.exists_cons_of_ne_nil (@String.utf8EncodeChar_ne_nil c)
    have hb : b ∈ String.utf8EncodeChar c := hcons ▸ List.mem_cons_self ..
    rw [octets_cons, hcons]
    exact h.byteIs_of_mem hb

/-- The same with a zero at the end. -/
theorem byteIs_headD (hzero : byteIs p 0 = false) (text : List Char) :
    byteIs p ((octets text).headD 0) = text.head?.any p := by
  rw [← h.any_head?_octets]
  cases octets text with
  | nil => exact hzero
  | cons b bs => rfl

end Bytewise

/-- New lines can be counted among bytes. -/
theorem countP_octets (text : List Char) : (octets text).countP (byteIs (· == '\n')) = text.count '\n' := by
  have hnewline : Bytewise (· == '\n') := .beq (by decide)
  induction text with
  | nil => rfl
  | cons c rest ih =>
    rw [octets_cons, List.countP_append, ih, List.count_cons]
    by_cases hc : c = '\n'
    · subst hc
      rw [Nat.add_comm]
      rfl
    · have hnone : (String.utf8EncodeChar c).countP (byteIs (· == '\n')) = 0 :=
        List.countP_eq_zero.mpr fun b hb => by simp [hnewline.byteIs_of_mem hb, hc]
      simp [hnone, hc]

section Slices

variable {source : String} {before text behind : List Char}

/-- No character is cut in two behind whole characters. -/
theorem isValid_octets (h : source.toList = before ++ behind) :
    String.Pos.Raw.isValid source ⟨(octets before).length⟩ = true := by
  refine String.Pos.Raw.isValid_eq_true_iff.mpr (String.Pos.Raw.isValid_iff_exists_append.mpr ?_)
  refine ⟨String.ofList before, String.ofList behind, ?_, ?_⟩
  · rw [← String.ofList_append, ← h, String.ofList_toList]
  · rw [← size_utf8Encode, ← String.toByteArray_ofList]
    rfl

/-- What stands between whole characters. -/
theorem textBetween?_octets (h : source.toList = before ++ text ++ behind) :
    textBetween? source (octets before).length (octets (before ++ text)).length = some (String.ofList text) := by
  have hle : (octets before).length ≤ (octets (before ++ text)).length := by simp
  have hfirst := isValid_octets (h.trans (List.append_assoc before text behind))
  have hbytes : source.toUTF8.extract (octets before).length (octets (before ++ text)).length = text.utf8Encode := by
    rw [← size_utf8Encode, ← size_utf8Encode, String.toUTF8, ← String.utf8Encode_toList, h, Scan.extract_between]
  rw [textBetween?, if_pos ⟨hle, hfirst, isValid_octets h⟩, hbytes, String.fromUTF8?,
    dif_pos ByteArray.isValidUTF8_utf8Encode]
  rfl

end Slices

end Lox
