import Lox.Token
import Lox.Number.Text
import Lox.Text.Quoted

/-!
# How tokens are listed

A token is listed either as one line of text (kind, text, value) or as one JSON object.
-/

set_option autoImplicit false

namespace Lox

/-- The value of a literal as a token shows it; other tokens show `null`. -/
def Kind.valueText : Kind → String
  | .string text => text
  | .number value => Number.tokenText value
  | _ => "null"

/-- The kind as JSON: a name, or an object from the name to the value of a literal. -/
def Kind.json : Kind → String
  | .string text => "\x7b\"STRING\":" ++ Text.json text ++ "\x7d"
  | .number value => "\x7b\"NUMBER\":" ++ Number.json value ++ "\x7d"
  | kind => Text.json kind.name

namespace Token

/-- Kind, text and value on one line. -/
def text (t : Token) : String := t.kind.name ++ " " ++ t.lexeme ++ " " ++ t.kind.valueText

/-- The token as one JSON object. -/
def json (t : Token) : String :=
  "\x7b\"token_type\":" ++ t.kind.json ++ ",\"lexeme\":" ++ Text.json t.lexeme
    ++ ",\"line\":" ++ toString t.line ++ "\x7d"

end Token

end Lox
