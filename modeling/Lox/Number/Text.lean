import Lox.Number.Decimal

/-!
# How numbers are written

Four outputs write numbers, each with its own layout: printed values, tokens, trees and JSON. They
share the digits, which are the exact digits of a whole number or the shortest that read back.
-/

set_option autoImplicit false

namespace Lox.Number

namespace Decimal

/-- The decimal without an exponent, with as many zeros as that takes. -/
def positional (d : Decimal) : String :=
  if 0 ≤ d.exponent then
    String.ofList (d.digits ++ List.replicate d.exponent.toNat '0')
  else
    let places := (-d.exponent).toNat
    let padded := d.digits.leftpad (places + 1) '0'
    let split := padded.length - places
    String.ofList (padded.take split ++ '.' :: padded.drop split)

/-- The exponent of the leading digit. -/
def leading (d : Decimal) : Int := d.exponent + d.digits.length - 1

/-- One digit before the point, the others after it, and a signed exponent. -/
def scientific (d : Decimal) : String :=
  let head := d.digits.take 1
  let tail := d.digits.drop 1
  let mantissa := if tail.isEmpty then head else head ++ '.' :: tail
  let sign := if d.leading < 0 then "-" else "+"
  s!"{String.ofList mantissa}e{sign}{d.leading.natAbs}"

end Decimal

/-- The natural equal to `significand * 2 ^ exponent`, if there is one. -/
def whole? (significand : Nat) (exponent : Int) : Option Nat :=
  let f := magnitude significand exponent
  if f.num % f.den = 0 then some (f.num / f.den) else none

/-- A sign in front of a text. -/
def signed (negative : Bool) (text : String) : String :=
  if negative then "-" ++ text else text

/-- The texts of the infinities. -/
def infinityText (negative : Bool) : String := signed negative "inf"

/-- The text of the result of an undefined operation. -/
def undefinedText : String := "NaN"

/-- The absolute value of a number. -/
def absolute (x : Float) (negative : Bool) : Float := if negative then -x else x

/-- The shortest digits without an exponent. -/
def positionalText (x : Float) (negative : Bool) (significand : Nat) (exponent : Int) : String :=
  if significand = 0 then signed negative "0"
  else signed negative (shortest .up (absolute x negative) significand exponent).positional

/-- A printed number: a whole number has all its digits and no point. -/
def printed (x : Float) : String :=
  match read x with
  | .undefined => undefinedText
  | .infinite negative => infinityText negative
  | .finite negative significand exponent =>
    match whole? significand exponent with
    | some n => signed negative (toString n)
    | none => positionalText x negative significand exponent

/-- The whole numbers that a token shows with a point lie below this. -/
def tokenWholeBound : Nat := Nat.pow 2 63

/-- A number in the text of a token: a whole number of moderate size ends in `.0`, and the sign of
zero is not shown. -/
def tokenText (x : Float) : String :=
  match read x with
  | .undefined => undefinedText
  | .infinite negative => infinityText negative
  | .finite negative significand exponent =>
    match whole? significand exponent with
    | some n =>
      if n < tokenWholeBound then signed (negative && n != 0) (toString n ++ ".0")
      else positionalText x negative significand exponent
    | none => positionalText x negative significand exponent

/-- A number in the text of a tree: a whole number has all its digits and ends in `.0`. -/
def treeText (x : Float) : String :=
  match read x with
  | .undefined => undefinedText
  | .infinite negative => infinityText negative
  | .finite negative significand exponent =>
    match whole? significand exponent with
    | some n => signed negative (toString n ++ ".0")
    | none => positionalText x negative significand exponent

/-- JSON writes a number without an exponent if its leading digit has one of these exponents. -/
def jsonPositional (leading : Int) : Bool := -5 ≤ leading && leading < 16

/-- A number as JSON: the shortest digits, always with a point or an exponent. -/
def json (x : Float) : String :=
  match read x with
  | .undefined => "null"
  | .infinite _ => "null"
  | .finite negative significand exponent =>
    if significand = 0 then signed negative "0.0"
    else
      let d := shortest .even (absolute x negative) significand exponent
      if jsonPositional d.leading then
        signed negative (if 0 ≤ d.exponent then d.positional ++ ".0" else d.positional)
      else signed negative d.scientific

end Lox.Number
