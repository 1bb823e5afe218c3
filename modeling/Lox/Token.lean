/-!
# Tokens

A token is a kind, the text it was cut from, and the line on which that text ends. The fixed
spellings are two enumerations: punctuation and operators (`Symbol`), and reserved words (`Keyword`).
-/

set_option autoImplicit false

namespace Lox

/-- Punctuation and operators. -/
inductive Symbol where
  | leftParen | rightParen | leftBrace | rightBrace
  | comma | dot | minus | plus | semicolon | slash | star
  | bang | bangEqual | equal | equalEqual
  | greater | greaterEqual | less | lessEqual
  deriving DecidableEq, Repr

namespace Symbol

/-- How the symbol is written in a program. -/
def spelling : Symbol → String
  | leftParen => "("
  | rightParen => ")"
  | leftBrace => "\x7b"
  | rightBrace => "\x7d"
  | comma => ","
  | dot => "."
  | minus => "-"
  | plus => "+"
  | semicolon => ";"
  | slash => "/"
  | star => "*"
  | bang => "!"
  | bangEqual => "!="
  | equal => "="
  | equalEqual => "=="
  | greater => ">"
  | greaterEqual => ">="
  | less => "<"
  | lessEqual => "<="

/-- The name under which tokens are listed. -/
def name : Symbol → String
  | leftParen => "LEFT_PAREN"
  | rightParen => "RIGHT_PAREN"
  | leftBrace => "LEFT_BRACE"
  | rightBrace => "RIGHT_BRACE"
  | comma => "COMMA"
  | dot => "DOT"
  | minus => "MINUS"
  | plus => "PLUS"
  | semicolon => "SEMICOLON"
  | slash => "SLASH"
  | star => "STAR"
  | bang => "BANG"
  | bangEqual => "BANG_EQUAL"
  | equal => "EQUAL"
  | equalEqual => "EQUAL_EQUAL"
  | greater => "GREATER"
  | greaterEqual => "GREATER_EQUAL"
  | less => "LESS"
  | lessEqual => "LESS_EQUAL"

end Symbol

/-- Reserved words. `super` is reserved, but no rule of the grammar uses it. -/
inductive Keyword where
  | and | «class» | else | false | fun | for | if | nil | or
  | print | return | super | this | true | var | while
  deriving DecidableEq, Repr

namespace Keyword

/-- Every reserved word, each once. -/
def all : List Keyword :=
  [.and, .class, .else, .false, .fun, .for, .if, .nil, .or,
    .print, .return, .super, .this, .true, .var, .while]

/-- How the word is written in a program. -/
def spelling : Keyword → String
  | .and => "and"
  | .class => "class"
  | .else => "else"
  | .false => "false"
  | .fun => "fun"
  | .for => "for"
  | .if => "if"
  | .nil => "nil"
  | .or => "or"
  | .print => "print"
  | .return => "return"
  | .super => "super"
  | .this => "this"
  | .true => "true"
  | .var => "var"
  | .while => "while"

/-- The name under which tokens are listed. -/
def name : Keyword → String
  | .and => "AND"
  | .class => "CLASS"
  | .else => "ELSE"
  | .false => "FALSE"
  | .fun => "FUN"
  | .for => "FOR"
  | .if => "IF"
  | .nil => "NIL"
  | .or => "OR"
  | .print => "PRINT"
  | .return => "RETURN"
  | .super => "SUPER"
  | .this => "THIS"
  | .true => "TRUE"
  | .var => "VAR"
  | .while => "WHILE"

/-- The reserved word with a given spelling. -/
def ofSpelling? (text : String) : Option Keyword := all.find? (·.spelling == text)

/-- A reserved word is found under its own spelling. -/
theorem ofSpelling?_spelling (k : Keyword) : ofSpelling? k.spelling = some k := by
  cases k <;> decide

end Keyword

/-- What a token is. Literals carry the value they stand for. -/
inductive Kind where
  | symbol (s : Symbol)
  | keyword (k : Keyword)
  | identifier
  | string (text : String)
  | number (value : Float)
  | eof

namespace Kind

/-- The name under which tokens are listed; literals show no value here. -/
def name : Kind → String
  | symbol s => s.name
  | keyword k => k.name
  | identifier => "IDENTIFIER"
  | string _ => "STRING"
  | number _ => "NUMBER"
  | eof => "EOF"

/-- Two kinds are alike if they differ at most in the value of a literal. -/
def alike : Kind → Kind → Bool
  | symbol s, symbol t => s == t
  | keyword k, keyword l => k == l
  | identifier, identifier => true
  | string _, string _ => true
  | number _, number _ => true
  | eof, eof => true
  | _, _ => false

/-- Whether this is the kind of the token that ends the input. -/
def isEof : Kind → Bool
  | eof => true
  | _ => false

instance : BEq Kind := ⟨alike⟩

end Kind

/-- A token: its kind, its text, and the line on which the text ends. -/
structure Token where
  kind : Kind
  lexeme : String
  line : Nat

namespace Token

/-- Tokens are equal if kind, text and line are; the value of a literal follows from its text and is
not compared. -/
instance : BEq Token where
  beq a b := a.kind == b.kind && a.lexeme == b.lexeme && a.line == b.line

/-- The token that ends an input whose last line is `line`. -/
def eofAt (line : Nat) : Token := ⟨.eof, "", line⟩

/-- Whether the token ends the input. -/
def isEof (t : Token) : Bool := t.kind.isEof

/-- Whether the token is the symbol `s`. -/
def isSymbol (s : Symbol) (t : Token) : Bool :=
  match t.kind with
  | .symbol s' => s' == s
  | _ => false

/-- Whether the token is the reserved word `k`. -/
def isKeyword (k : Keyword) (t : Token) : Bool :=
  match t.kind with
  | .keyword k' => k' == k
  | _ => false

/-- Whether the token is a name. -/
def isIdentifier (t : Token) : Bool :=
  match t.kind with
  | .identifier => true
  | _ => false

/-- A token is a symbol exactly if its kind says so. -/
theorem isSymbol_iff {s : Symbol} {t : Token} : t.isSymbol s = true ↔ t.kind = .symbol s := by
  unfold isSymbol
  split <;> simp_all

/-- A token is a reserved word exactly if its kind says so. -/
theorem isKeyword_iff {k : Keyword} {t : Token} : t.isKeyword k = true ↔ t.kind = .keyword k := by
  unfold isKeyword
  split <;> simp_all

/-- A token is a name exactly if its kind says so. -/
theorem isIdentifier_iff {t : Token} : t.isIdentifier = true ↔ t.kind = .identifier := by
  unfold isIdentifier
  split <;> simp_all

end Token

end Lox
