import Mathlib
import Lox.Token.Scan

/-!
# Scanning by bytes

A scanner need not take a text apart into characters: it can move a head over its bytes. It may then go wrong in
ways that a list of characters excludes. It may look for a byte behind the end, or cut a slice whose ends are out of
order, out of range or inside a character, or never come to an end. Here each of these is a fault at which it stops.
-/

set_option autoImplicit false

namespace Lox

/-- What can go wrong with a head. -/
inductive Fault where
  /-- A byte is looked for where there is none. -/
  | index
  /-- The ends of a slice are out of order, out of range, or inside a character. -/
  | slice
  /-- A loop goes on for longer than the text. -/
  | unfinished

/-- A head that is moved over the bytes of a source. -/
structure Head where
  source : String
  /-- Where the piece begins that is being cut off. -/
  start : ℕ
  /-- The next byte to look at. -/
  curr : ℕ
  line : ℕ
  /-- The kind of the piece that was cut off last, if it is a token. -/
  pending : Option Kind

namespace Head

/-- The head in front of a source. -/
def front (source : String) : Head := ⟨source, 0, 0, 1, none⟩

/-- The bytes of the source. -/
def bytes (h : Head) : ByteArray := h.source.toUTF8

end Head

/-- Whether a byte, taken for a character, has the property `p`. The bytes of a character outside of ASCII are taken
for others outside of ASCII. -/
def byteIs (p : Char → Bool) (b : UInt8) : Bool := p (Char.ofUInt8 b)

/-- The text between two positions that do not cut a character in two. -/
def textBetween? (source : String) (first stop : ℕ) : Option String :=
  if first ≤ stop ∧ String.Pos.Raw.isValid source ⟨first⟩ ∧ String.Pos.Raw.isValid source ⟨stop⟩ then
    String.fromUTF8? (source.toUTF8.extract first stop)
  else none

/-- The number that digits stand for, which may have a point in between. -/
def numberOf (text : String) : Float :=
  (Number.Decimal.ofDigits (text.toList.takeWhile Char.isDigit)
    (Scan.fractionDigits (text.toList.dropWhile Char.isDigit))).toFloat

/-- The kind of a word, looked up by its bytes. -/
def wordOf (bytes : ByteArray) : Kind :=
  match Keyword.all.find? (decide <| ·.spelling.toUTF8 = bytes) with
  | some k => .keyword k
  | none => .identifier

/-- What is done with a head. -/
abbrev Scanning := EStateM Fault Head

namespace Scanning

variable {α : Type}

/-- A scan stops with a fault. -/
def fault (f : Fault) : Scanning α := fun h => .error f h

/-- The byte at a position, which there must be. -/
def byteAt (i : ℕ) : Scanning UInt8 := fun h =>
  match h.bytes.data[i]? with
  | some b => .ok b h
  | none => .error .index h

/-- A slice of the text; its ends must be in order and must not cut a character in two. -/
def slice (first stop : ℕ) : Scanning String := fun h =>
  match textBetween? h.source first stop with
  | some text => .ok text h
  | none => .error .slice h

/-- A slice of the bytes, whose ends must be in order and in range. -/
def byteSlice (first stop : ℕ) : Scanning ByteArray := fun h =>
  if first ≤ stop ∧ stop ≤ h.bytes.size then .ok (h.bytes.extract first stop) h else .error .slice h

/-- Tells whether all bytes have been read. -/
def atEnd : Scanning Bool := fun h => .ok (decide (h.bytes.size ≤ h.curr)) h

/-- Moves to a position. -/
def moveTo (i : ℕ) : Scanning Unit := fun h => .ok () { h with curr := i }

/-- Counts one more line. -/
def newLine : Scanning Unit := fun h => .ok () { h with line := h.line + 1 }

/-- Notes the kind of a token. -/
def pend (kind : Kind) : Scanning Unit := fun h => .ok () { h with pending := some kind }

/-- Begins a piece at the head. -/
def begin : Scanning Unit := fun h => .ok () { h with start := h.curr, pending := none }

/-- Takes the kind that was noted. -/
def takePending : Scanning (Option Kind) := fun h => .ok h.pending { h with pending := none }

/-- Reads the next byte, which there must be. -/
def advance : Scanning UInt8 := do
  let h ← get
  let b ← byteAt h.curr
  moveTo (h.curr + 1)
  return b

/-- The next byte, or zero at the end. -/
def peek : Scanning UInt8 := do
  if ← atEnd then return 0 else byteAt (← get).curr

/-- The byte after the next, or zero where there is none. -/
def peekNext : Scanning UInt8 := do
  let h ← get
  if h.bytes.size ≤ h.curr + 1 then return 0 else byteAt (h.curr + 1)

/-- Reads the next byte if it is the character `c`, and says whether it did. -/
def matchByte (c : Char) : Scanning Bool := do
  if !(← atEnd) && byteIs (· == c) (← peek) then
    let _ ← advance
    return true
  else return false

/-- Reads bytes as long as they have the property `p`. -/
def advanceWhile (p : UInt8 → Bool) : (fuel : ℕ) → Scanning Unit
  | 0 => fault .unfinished
  | fuel + 1 => do
    if p (← peek) then
      let _ ← advance
      advanceWhile p fuel

/-- Reads bytes up to a quote or to the end, and counts lines. -/
def toQuote : (fuel : ℕ) → Scanning Unit
  | 0 => fault .unfinished
  | fuel + 1 => do
    if !(← atEnd) && byteIs (· != '"') (← peek) then
      let b ← advance
      if byteIs (· == '\n') b then newLine
      toQuote fuel

/-- A string whose opening quote is read. -/
def string : Scanning (Option LexicalError) := do
  toQuote ((← get).bytes.size + 1)
  if ← atEnd then return some ⟨(← get).line, .unterminatedString⟩
  else
    let _ ← advance
    let h ← get
    let value ← slice (h.start + 1) (h.curr - 1)
    pend (.string value)
    return none

/-- Reads all digits that come next. -/
def digits : Scanning Unit := do advanceWhile (byteIs Char.isDigit) ((← get).bytes.size + 1)

/-- A point and the digits behind it, if there is at least one. -/
def fraction : Scanning Unit := do
  if byteIs (· == '.') (← peek) && byteIs Char.isDigit (← peekNext) then
    let _ ← advance
    digits

/-- A number whose first digit is read. -/
def number : Scanning (Option LexicalError) := do
  digits
  fraction
  let h ← get
  let text ← slice h.start h.curr
  pend (.number (numberOf text))
  return none

/-- A word whose first letter is read. -/
def word : Scanning (Option LexicalError) := do
  advanceWhile (byteIs Char.isAlpha) ((← get).bytes.size + 1)
  let h ← get
  let bytes ← byteSlice h.start h.curr
  pend (wordOf bytes)
  return none

/-- A comment whose two slashes are read. It goes up to the new line, which does not belong to it. -/
def comment : Scanning (Option LexicalError) := do
  let h ← get
  let behind ← byteSlice h.curr h.bytes.size
  match behind.data.toList.findIdx? (byteIs (· == '\n')) with
  | some i => moveTo (h.curr + i)
  | none => moveTo h.bytes.size
  return none

/-- A character that begins no token. It is skipped, whatever the number of its bytes. -/
def unexpected : Scanning (Option LexicalError) := do
  let h ← get
  let text ← slice h.start h.bytes.size
  match text.toList.head? with
  | some c => moveTo (h.start + c.utf8Size)
  | none => pure ()
  return some ⟨h.line, .unexpectedCharacter⟩

/-- The piece that begins with the byte of `c`, which is read. -/
def scanFrom (c : Char) : Scanning (Option LexicalError) := do
  match Scan.punctuation? c, Scan.comparison? c with
  | some s, _ => pend (.symbol s); return none
  | none, some (single, double) =>
    if ← matchByte '=' then pend (.symbol double) else pend (.symbol single)
    return none
  | none, none =>
    if c == ' ' || c == '\r' || c == '\t' then return none
    else if c == '\n' then
      newLine
      return none
    else if c == '/' then
      if ← matchByte '/' then comment
      else
        pend (.symbol .slash)
        return none
    else if c == '"' then string
    else if c.isDigit then number
    else if c.isAlpha then word
    else unexpected

/-- Cuts off one piece. If it is a token, its kind is noted; if it is an error, this is the result. -/
def scanToken : Scanning (Option LexicalError) := do
  let b ← advance
  scanFrom (Char.ofUInt8 b)

/-- The next item; none behind the end of the input. -/
def nextWith : (fuel : ℕ) → Scanning (Option Item)
  | 0 => fault .unfinished
  | fuel + 1 => do
    let h ← get
    if h.curr ≤ h.bytes.size then
      if h.curr = h.bytes.size then
        moveTo (h.curr + 1)
        return some (.token (.eofAt h.line))
      else
        begin
        match ← scanToken with
        | some e => return some (.error e)
        | none =>
          match ← takePending with
          | some kind =>
            let h ← get
            let lexeme ← slice h.start h.curr
            return some (.token ⟨kind, lexeme, h.line⟩)
          | none => nextWith fuel
    else return none

/-- The next item, where every piece takes at least one byte. -/
def next : Scanning (Option Item) := do nextWith ((← get).bytes.size + 1)

end Scanning

/-- The head after a number of calls. -/
def Head.after (source : String) : ℕ → Head
  | 0 => .front source
  | n + 1 =>
    match Scanning.next (Head.after source n) with
    | .ok _ h => h
    | .error _ h => h

end Lox
