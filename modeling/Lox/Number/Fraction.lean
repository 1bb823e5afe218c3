/-!
# Exact fractions and the nearest 64-bit number

Numbers of the language are 64-bit binary floating-point numbers. This module reads such a number
as an exact fraction and finds the number nearest to a given fraction, a tie going to the even
significand. All arithmetic is on naturals, so nothing is rounded twice.
-/

set_option autoImplicit false

namespace Lox.Number

/-- The quotient of two naturals; the denominator is positive wherever one is built. -/
structure Fraction where
  num : Nat
  den : Nat
  deriving DecidableEq

namespace Fraction

/-- The natural `n` as a fraction. -/
def ofNat (n : Nat) : Fraction := ⟨n, 1⟩

/-- The fraction divided by `base ^ e`, for an exponent of either sign. -/
def divPow (f : Fraction) (base : Nat) (e : Int) : Fraction :=
  ⟨f.num * Nat.pow base (-e).toNat, f.den * Nat.pow base e.toNat⟩

/-- The integer part. -/
def floor (f : Fraction) : Nat := f.num / f.den

/-- The nearest natural; halfway between two, the even one. -/
def nearestNat (f : Fraction) : Nat :=
  let below := f.num / f.den
  let doubled := 2 * (f.num % f.den)
  if doubled < f.den ∨ (doubled = f.den ∧ below % 2 = 0) then below else below + 1

/-- The largest `e` with `2 ^ e` at most the (positive) fraction. -/
def binaryExponent (f : Fraction) : Int :=
  let guess : Int := (f.num.log2 : Int) - (f.den.log2 : Int)
  let scaled := f.divPow 2 guess
  if scaled.den ≤ scaled.num then guess else guess - 1

end Fraction

/-- The number of stored significand bits. -/
def significandBits : Nat := 52

/-- The exponent of the smallest positive number. -/
def leastExponent : Int := -1074

/-- The bit pattern of positive infinity. -/
def infinityPattern : Nat := 2047 * Nat.pow 2 significandBits

/-- The bit pattern of the non-negative number nearest to a fraction.

The pattern counts the numbers below it, so a significand that rounds up to the next power of two
carries into the exponent by plain addition, and whatever lies past the largest number becomes
infinity. -/
def nearestPattern (f : Fraction) : Nat :=
  if f.num = 0 then 0
  else
    let unit := max leastExponent (f.binaryExponent - significandBits)
    let pattern := (unit - leastExponent).toNat * Nat.pow 2 significandBits + (f.divPow 2 unit).nearestNat
    min pattern infinityPattern

/-- The non-negative number nearest to a fraction. -/
def nearest (f : Fraction) : Float := Float.ofBits (nearestPattern f).toUInt64

/-- What a number is: a signed multiple of a power of two, an infinity, or not a number. -/
inductive Reading where
  | finite (negative : Bool) (significand : Nat) (exponent : Int)
  | infinite (negative : Bool)
  | undefined
  deriving DecidableEq

/-- Reads the sign, significand and exponent of a number off its bits. -/
def read (x : Float) : Reading :=
  let bits := x.toBits.toNat
  let negative := decide (Nat.pow 2 63 ≤ bits)
  let exponent := bits / Nat.pow 2 significandBits % 2048
  let stored := bits % Nat.pow 2 significandBits
  if exponent = 2047 then
    if stored = 0 then .infinite negative else .undefined
  else if exponent = 0 then .finite negative stored leastExponent
  else .finite negative (Nat.pow 2 significandBits + stored) (leastExponent + exponent - 1)

/-- The fraction `significand * 2 ^ exponent`. -/
def magnitude (significand : Nat) (exponent : Int) : Fraction :=
  (Fraction.ofNat significand).divPow 2 (-exponent)

end Lox.Number
