/-!
# Bytes as text

Reads bytes as UTF-8, one character at a time. Where the bytes are no character, the fault says how
many of them are to blame, or that they end too early; reading can stop there or go on behind it.
-/

set_option autoImplicit false

namespace Lox.Text.Utf8

/-- What a lead byte announces: how many bytes follow, the range of the first of them, and the bits
that the lead byte itself gives. -/
structure Lead where
  following : Nat
  low : Nat
  high : Nat
  payload : Nat

/-- The lead bytes. -/
def lead? (b : Nat) : Option Lead :=
  if b < 0x80 then some ⟨0, 0x80, 0xBF, b⟩
  else if 0xC2 ≤ b ∧ b ≤ 0xDF then some ⟨1, 0x80, 0xBF, b - 0xC0⟩
  else if b = 0xE0 then some ⟨2, 0xA0, 0xBF, 0⟩
  else if b = 0xED then some ⟨2, 0x80, 0x9F, b - 0xE0⟩
  else if 0xE1 ≤ b ∧ b ≤ 0xEF then some ⟨2, 0x80, 0xBF, b - 0xE0⟩
  else if b = 0xF0 then some ⟨3, 0x90, 0xBF, 0⟩
  else if 0xF1 ≤ b ∧ b ≤ 0xF3 then some ⟨3, 0x80, 0xBF, b - 0xF0⟩
  else if b = 0xF4 then some ⟨3, 0x80, 0x8F, b - 0xF0⟩
  else none

/-- The first character of some bytes. -/
inductive Step where
  /-- A character of `length` bytes. -/
  | char (c : Char) (length : Nat)
  /-- The first `length` bytes begin no character. -/
  | invalid (length : Nat)
  /-- The bytes end within a character. -/
  | incomplete

/-- Reads the bytes that follow a lead byte; `seen` bytes of the character are already read, and
their bits are in `value`. -/
def following (seen : Nat) : (count low high value : Nat) → List UInt8 → Step
  | 0, _, _, value, _ => .char (Char.ofNat value) seen
  | _ + 1, _, _, _, [] => .incomplete
  | count + 1, low, high, value, b :: rest =>
    if low ≤ b.toNat ∧ b.toNat ≤ high then
      following (seen + 1) count 0x80 0xBF (value * 64 + (b.toNat - 0x80)) rest
    else .invalid seen

/-- Reads the first character of the bytes `b :: rest`. -/
def step (b : UInt8) (rest : List UInt8) : Step :=
  match lead? b.toNat with
  | none => .invalid 1
  | some lead => following 1 lead.following lead.low lead.high lead.payload rest

/-- Where bytes stop being text. -/
inductive Fault where
  | invalid (index length : Nat)
  | incomplete (index : Nat)
  deriving DecidableEq, Repr

/-- The wording of a fault. -/
def Fault.message : Fault → String
  | .invalid index length => s!"invalid utf-8 sequence of {length} bytes from index {index}"
  | .incomplete index => s!"incomplete utf-8 byte sequence from index {index}"

/-- The first fault of bytes that begin at `index`. -/
def faultFrom (index : Nat) (bytes : List UInt8) : Option Fault :=
  match bytes with
  | [] => none
  | b :: rest =>
    match step b rest with
    | .char _ length => faultFrom (index + length) (rest.drop (length - 1))
    | .invalid length => some (.invalid index length)
    | .incomplete => some (.incomplete index)
termination_by bytes.length

/-- The text of some bytes, or their first fault. -/
def decode (bytes : ByteArray) : Except Fault String :=
  match String.fromUTF8? bytes with
  | some text => .ok text
  | none => .error ((faultFrom 0 bytes.toList).getD (.incomplete bytes.size))

/-- The character that stands for bytes which are no character. -/
def replacement : Char := '\uFFFD'

/-- The characters of bytes, behind those in `before` (the last one first), with a replacement for
each fault. -/
def lossyFrom (before : List Char) (bytes : List UInt8) : List Char :=
  match bytes with
  | [] => before.reverse
  | b :: rest =>
    match step b rest with
    | .char c length => lossyFrom (c :: before) (rest.drop (length - 1))
    | .invalid length => lossyFrom (replacement :: before) (rest.drop (length - 1))
    | .incomplete => (replacement :: before).reverse
termination_by bytes.length

/-- The text of some bytes, with a replacement for each fault. -/
def decodeLossy (bytes : ByteArray) : String :=
  match String.fromUTF8? bytes with
  | some text => text
  | none => String.ofList (lossyFrom [] bytes.toList)

end Lox.Text.Utf8
