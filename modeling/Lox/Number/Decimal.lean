import Lox.Number.Fraction

/-!
# Decimals and the shortest digits that read back

A `Decimal` is a natural coefficient times a power of ten. `Decimal.toFloat` is the one way in which
decimal text becomes a number. `shortest` goes the other way: it finds the decimal with the fewest
digits that reads back as the given number, and of those the nearest one.
-/

set_option autoImplicit false

namespace Lox.Number

/-- The value `coefficient * 10 ^ exponent`. -/
structure Decimal where
  coefficient : Nat
  exponent : Int
  deriving DecidableEq

/-- Where a value goes that lies halfway between two decimals of equal length. -/
inductive Tie where
  | up
  | even
  deriving DecidableEq

namespace Decimal

/-- The decimal as an exact fraction. -/
def fraction (d : Decimal) : Fraction := (Fraction.ofNat d.coefficient).divPow 10 (-d.exponent)

/-- The number nearest to the decimal. -/
def toFloat (d : Decimal) : Float := nearest d.fraction

/-- The value of a run of decimal digits. -/
def digitsValue (digits : List Char) : Nat :=
  digits.foldl (fun value c => value * 10 + (c.toNat - '0'.toNat)) 0

/-- The decimal written by the digits before and after a point. -/
def ofDigits (whole fraction : List Char) : Decimal :=
  ⟨digitsValue (whole ++ fraction), -(fraction.length : Int)⟩

/-- The decimal that equals `significand * 2 ^ exponent`. -/
def ofBinary (significand : Nat) (exponent : Int) : Decimal :=
  ⟨significand * Nat.pow 2 exponent.toNat * Nat.pow 5 (-exponent).toNat, min exponent 0⟩

/-- The digits of the coefficient. -/
def digits (d : Decimal) : List Char := Nat.toDigits 10 d.coefficient

/-- Whether the decimal reads back as `x`. -/
def readsAs (d : Decimal) (x : Float) : Bool := d.toFloat.toBits == x.toBits

end Decimal

/-- The exponent of the leading decimal digit of a fraction that is at least `10 ^ (-324)`, which
every positive number is. -/
def leadingExponent (f : Fraction) : Int :=
  ((Nat.toDigits 10 (f.num * Nat.pow 10 324 / f.den)).length : Int) - 325

/-- The decimal with `count` digits, the first at the exponent `leading`, that reads back as `x`, if
there is one.

Only the two decimals next to the exact value `f` of `x` are tried: if any decimal of this length
reads back, one of these does, since the values that read back form an interval around `f`. -/
def decimalOfLength (tie : Tie) (x : Float) (f : Fraction) (leading : Int) (count : Nat) :
    Option Decimal :=
  let exponent := leading + 1 - count
  let scaled := f.divPow 10 exponent
  let below := scaled.floor
  let low : Decimal := ⟨below, exponent⟩
  let high : Decimal :=
    if below + 1 = Nat.pow 10 count then ⟨1, exponent + count⟩ else ⟨below + 1, exponent⟩
  match low.readsAs x, high.readsAs x with
  | false, false => none
  | true, false => some low
  | false, true => some high
  | true, true =>
    match compare (2 * scaled.num) ((2 * below + 1) * scaled.den) with
    | .lt => some low
    | .gt => some high
    | .eq => if tie = .even ∧ below % 2 = 0 then some low else some high

/-- The shortest decimal that reads back as the positive number `x = significand * 2 ^ exponent`.

Seventeen digits always suffice; the exact decimal stands behind them so that the result reads back
whatever the search does. -/
def shortest (tie : Tie) (x : Float) (significand : Nat) (exponent : Int) : Decimal :=
  let f := magnitude significand exponent
  let leading := leadingExponent f
  ((List.range 17).findSome? fun i => decimalOfLength tie x f leading (i + 1)).getD
    (Decimal.ofBinary significand exponent)

end Lox.Number
