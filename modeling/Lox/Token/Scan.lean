import Lox.Token
import Lox.Number.Decimal

/-!
# Cutting source text into tokens

Scanning has two layers. `firstPiece` cuts the longest piece off the front of a non-empty text:
white space, a comment, a token, or a stretch that is no token. `pieces` repeats this to the end, so
its pieces put together are the text. `itemsFrom` then walks the pieces and counts lines: a token or
an error belongs to the line on which its piece ends.
-/

set_option autoImplicit false

namespace Lox

/-- What a piece of the source is. -/
inductive Shape where
  | blank
  | comment
  | token (kind : Kind)
  | unexpected
  | unterminated

/-- A stretch of the source. -/
structure Piece where
  shape : Shape
  text : List Char

namespace Scan

/-- Symbols of one character that begin no longer symbol. -/
def punctuation? : Char → Option Symbol
  | '(' => some .leftParen
  | ')' => some .rightParen
  | '\x7b' => some .leftBrace
  | '\x7d' => some .rightBrace
  | ',' => some .comma
  | '.' => some .dot
  | '-' => some .minus
  | '+' => some .plus
  | ';' => some .semicolon
  | '*' => some .star
  | _ => none

/-- Symbols that an equals sign may follow: without it, and with it. -/
def comparison? : Char → Option (Symbol × Symbol)
  | '!' => some (.bang, .bangEqual)
  | '=' => some (.equal, .equalEqual)
  | '<' => some (.less, .lessEqual)
  | '>' => some (.greater, .greaterEqual)
  | _ => none

/-- Characters that only separate tokens. -/
def isBlank (c : Char) : Bool := c == ' ' || c == '\r' || c == '\t' || c == '\n'

/-- The kind of a run of letters. -/
def wordKind (word : List Char) : Kind :=
  match Keyword.ofSpelling? (String.ofList word) with
  | some k => .keyword k
  | none => .identifier

/-- The digits after a point, if `rest` is a point and at least one digit. -/
def fractionDigits : List Char → List Char
  | '.' :: rest => rest.takeWhile Char.isDigit
  | _ => []

/-- The number that begins with the digit `c`. A point belongs to it only if a digit follows. -/
def numberPiece (c : Char) (rest : List Char) : Piece × List Char :=
  let whole := c :: rest.takeWhile Char.isDigit
  let after := rest.dropWhile Char.isDigit
  let fraction := fractionDigits after
  let kind := Kind.number (Number.Decimal.ofDigits whole fraction).toFloat
  if fraction.isEmpty then (⟨.token kind, whole⟩, after)
  else (⟨.token kind, whole ++ '.' :: fraction⟩, after.drop (fraction.length + 1))

/-- The string that begins at a quote; without a second quote it runs to the end of the text. -/
def stringPiece (rest : List Char) : Piece × List Char :=
  let body := rest.takeWhile (· != '"')
  match rest.dropWhile (· != '"') with
  | [] => (⟨.unterminated, '"' :: rest⟩, [])
  | quote :: after => (⟨.token (.string (String.ofList body)), '"' :: body ++ [quote]⟩, after)

/-- The first piece of the text `c :: rest`, and what follows it. -/
def firstPiece (c : Char) (rest : List Char) : Piece × List Char :=
  if isBlank c then (⟨.blank, [c]⟩, rest)
  else if c == '"' then stringPiece rest
  else if c.isDigit then numberPiece c rest
  else if c.isAlpha then
    let word := c :: rest.takeWhile Char.isAlpha
    (⟨.token (wordKind word), word⟩, rest.dropWhile Char.isAlpha)
  else if c == '/' then
    if rest.head? == some '/' then
      (⟨.comment, c :: rest.takeWhile (· != '\n')⟩, rest.dropWhile (· != '\n'))
    else (⟨.token (.symbol .slash), [c]⟩, rest)
  else
    match punctuation? c, comparison? c with
    | some s, _ => (⟨.token (.symbol s), [c]⟩, rest)
    | none, some (single, double) =>
      if rest.head? == some '=' then (⟨.token (.symbol double), [c, '=']⟩, rest.tail)
      else (⟨.token (.symbol single), [c]⟩, rest)
    | none, none => (⟨.unexpected, [c]⟩, rest)

/-- Dropping a run of characters does not make a text longer. -/
theorem length_dropWhile_le (p : Char → Bool) (s : List Char) :
    (s.dropWhile p).length ≤ s.length := (List.dropWhile_sublist p).length_le

/-- What follows the first piece is shorter than the text. -/
theorem length_firstPiece_le (c : Char) (rest : List Char) :
    (firstPiece c rest).2.length ≤ rest.length := by
  have digits := length_dropWhile_le Char.isDigit rest
  have letters := length_dropWhile_le Char.isAlpha rest
  have line := length_dropWhile_le (· != '\n') rest
  have quoted := length_dropWhile_le (· != '"') rest
  unfold firstPiece stringPiece numberPiece
  grind

/-- The whole text as consecutive pieces. -/
def pieces (text : List Char) : List Piece :=
  match text with
  | [] => []
  | c :: rest => (firstPiece c rest).1 :: pieces (firstPiece c rest).2
termination_by text.length
decreasing_by
  have := length_firstPiece_le c rest
  simp only [List.length_cons]
  omega

end Scan

/-- Why a stretch of the source is no token. -/
inductive LexicalCause where
  | unterminatedString
  | unexpectedCharacter
  deriving DecidableEq, Repr

/-- The wording of a lexical error. -/
def LexicalCause.message : LexicalCause → String
  | .unterminatedString => "Unterminated string."
  | .unexpectedCharacter => "Unexpected character."

/-- A stretch of the source that is no token, and the line on which it ends. -/
structure LexicalError where
  line : Nat
  cause : LexicalCause
  deriving DecidableEq, Repr

/-- What scanning reports. -/
inductive Item where
  | token (t : Token)
  | error (e : LexicalError)

namespace Scan

/-- The line on which a piece ends if it begins on line `line`. -/
def endLine (line : Nat) (p : Piece) : Nat := line + p.text.count '\n'

/-- What is reported of a piece that ends on line `line`. -/
def item? (line : Nat) (p : Piece) : Option Item :=
  match p.shape with
  | .blank => none
  | .comment => none
  | .token kind => some (.token ⟨kind, String.ofList p.text, line⟩)
  | .unexpected => some (.error ⟨line, .unexpectedCharacter⟩)
  | .unterminated => some (.error ⟨line, .unterminatedString⟩)

/-- The items of pieces that begin on line `line`, and the token that ends the input. -/
def itemsFrom (line : Nat) : List Piece → List Item
  | [] => [.token (.eofAt line)]
  | p :: rest =>
    let line := endLine line p
    match item? line p with
    | none => itemsFrom line rest
    | some item => item :: itemsFrom line rest

/-- Everything scanning reports of a source, in its order; the last item is the end of the input. -/
def items (source : String) : List Item := itemsFrom 1 (pieces source.toList)

/-- The tokens of a source. -/
def tokens (source : String) : List Token :=
  (items source).filterMap fun
    | .token t => some t
    | .error _ => none

/-- The lexical errors of a source. -/
def errors (source : String) : List LexicalError :=
  (items source).filterMap fun
    | .token _ => none
    | .error e => some e

end Scan

end Lox
