import Mathlib
import Lox.Evaluation
import Lox.Proofs.Number.Nearest
import Lox.Proofs.Token.Longest

/-!
# Printed numbers read back

The text of a finite number is a numeral, in front of which stands a minus if the number has that sign. The digits
are those of a decimal that reads back, because that is how they were looked for, or because the decimal is
exact. What the scanner reads off such a text has the value of this decimal, and so the nearest number is the
same. All that is left to the evaluation is the sign, which a zero has too.
-/

set_option autoImplicit false

namespace Lox

namespace Number

namespace Decimal

/-- The value of digits is the one that the library reads from them. -/
theorem digitsValue_eq (digits : List Char) : digitsValue digits = Nat.ofDigitChars 10 digits 0 := by
  rw [Nat.ofDigitChars_eq_foldl, digitsValue]
  congr 1
  funext sofar c
  rw [Nat.mul_comm]

/-- The digits of a natural have its value, also behind zeros. -/
theorem digitsValue_toDigits (zeros n : ℕ) :
    digitsValue (List.replicate zeros '0' ++ Nat.toDigits 10 n) = n := by
  rw [digitsValue_eq, Nat.ofDigitChars_append, Nat.ofDigitChars_replicate_zero, Nat.mul_zero,
    Nat.ofDigitChars_toDigits (by decide) (by decide)]

/-- Zeros behind the digits of a natural multiply it. -/
theorem digitsValue_toDigits_zeros (n zeros : ℕ) :
    digitsValue (Nat.toDigits 10 n ++ List.replicate zeros '0') = 10 ^ zeros * n := by
  rw [digitsValue_eq, Nat.ofDigitChars_append, Nat.ofDigitChars_replicate_zero,
    Nat.ofDigitChars_toDigits (by decide) (by decide)]

variable {d d' : Decimal}

/-- The fraction of a decimal has a positive denominator. -/
theorem den_fraction_pos (d : Decimal) : 0 < d.fraction.den := Fraction.den_divPow_pos Nat.one_pos (by decide) _

/-- The value of a decimal is its coefficient times a power of ten. -/
theorem value_fraction (d : Decimal) : d.fraction.value = d.coefficient * 10 ^ d.exponent := by
  rw [fraction, Fraction.value_divPow _ (by decide), zpow_neg, div_inv_eq_mul]
  simp [Fraction.value, Fraction.ofNat]

/-- Decimals of one value are read as one number. -/
theorem toFloat_congr (h : (d.coefficient : ℚ) * 10 ^ d.exponent = d'.coefficient * 10 ^ d'.exponent) :
    d.toFloat = d'.toFloat :=
  nearest_congr d.den_fraction_pos d'.den_fraction_pos (by rw [value_fraction, value_fraction, h])

/-- The exact decimal is read as the number nearest to the value. -/
theorem toFloat_ofBinary (significand : ℕ) (exponent : ℤ) :
    (ofBinary significand exponent).toFloat = nearest (magnitude significand exponent) := by
  refine nearest_congr (den_fraction_pos _) (den_magnitude_pos _ _) ?_
  rw [value_fraction, value_magnitude, ofBinary]
  obtain ⟨n, rfl | rfl⟩ := exponent.eq_nat_or_neg
  · simp
  · have hten : (10 : ℚ) ^ n = 2 ^ n * 5 ^ n := by rw [← mul_pow]; norm_num
    simp [hten]
    field_simp

/-- A decimal reads back as a number exactly if this number is nearest to it. -/
theorem readsAs_iff {x : Float} : d.readsAs x = true ↔ d.toFloat = x := by
  rw [readsAs, beq_iff_eq]
  exact ⟨eq_of_toBits_eq, congrArg _⟩

end Decimal

/-- A decimal that was looked for reads back. -/
theorem toFloat_decimalOfLength {tie : Tie} {x : Float} {f : Fraction} {leading : ℤ} {count : ℕ} {d : Decimal}
    (h : decimalOfLength tie x f leading count = some d) : d.toFloat = x := by
  unfold decimalOfLength at h
  dsimp only at h
  split at h
  · cases h
  · rename_i hlow _
    cases h
    exact Decimal.readsAs_iff.mp hlow
  · rename_i _ hhigh
    cases h
    exact Decimal.readsAs_iff.mp hhigh
  · rename_i hlow hhigh
    have hlow' := Decimal.readsAs_iff.mp hlow
    have hhigh' := Decimal.readsAs_iff.mp hhigh
    split at h
    · cases h
      exact hlow'
    · cases h
      exact hhigh'
    · split at h
      · cases h
        exact hlow'
      · cases h
        exact hhigh'

/-- The shortest decimal reads back. -/
theorem toFloat_shortest (tie : Tie) {x : Float} {significand : ℕ} {exponent : ℤ}
    (hx : x = nearest (magnitude significand exponent)) : (shortest tie x significand exponent).toFloat = x := by
  unfold shortest
  dsimp only
  cases hfound : (List.range 17).findSome? fun i => decimalOfLength tie x (magnitude significand exponent)
      (leadingExponent (magnitude significand exponent)) (i + 1) with
  | none => exact (Decimal.toFloat_ofBinary significand exponent).trans hx.symm
  | some d =>
    obtain ⟨_, _, hd⟩ := List.exists_of_findSome?_eq_some hfound
    exact toFloat_decimalOfLength hd

/-- The digits of a natural are a numeral, also with zeros behind them. -/
theorem lexeme_natural (n zeros : ℕ) : Lexeme (Nat.toDigits 10 n ++ List.replicate zeros '0')
    (.number (Decimal.mk (10 ^ zeros * n) 0).toFloat) := by
  have hdigits : ∀ c ∈ Nat.toDigits 10 n ++ List.replicate zeros '0', c.isDigit = true := fun c hc => by
    rcases List.mem_append.mp hc with hc | hc
    · exact isDigit_of_mem_toDigits c hc
    · rw [List.eq_of_mem_replicate hc]
      rfl
  have hlexeme := Lexeme.whole (by simp [Nat.toDigits_ne_nil]) hdigits
  have hvalue : Decimal.ofDigits (Nat.toDigits 10 n ++ List.replicate zeros '0') [] = ⟨10 ^ zeros * n, 0⟩ := by
    rw [Decimal.ofDigits, List.append_nil, Decimal.digitsValue_toDigits_zeros]
    rfl
  rwa [hvalue] at hlexeme

/-- A decimal without an exponent is a numeral, and it is read as the decimal is. -/
theorem lexeme_positional (d : Decimal) : Lexeme d.positional.toList (.number d.toFloat) := by
  unfold Decimal.positional
  split
  · rename_i hexponent
    obtain ⟨zeros, hzeros⟩ := Int.eq_ofNat_of_zero_le hexponent
    have hsame : d.toFloat = (Decimal.mk (10 ^ zeros * d.coefficient) 0).toFloat :=
      Decimal.toFloat_congr (by simp [hzeros, mul_comm])
    rw [String.toList_ofList, hzeros, Int.toNat_natCast, hsame]
    exact lexeme_natural d.coefficient zeros
  · rename_i hexponent
    obtain ⟨places, hplaces⟩ := Int.eq_ofNat_of_zero_le (show 0 ≤ -d.exponent by omega)
    dsimp only
    rw [String.toList_ofList, hplaces, Int.toNat_natCast]
    generalize hpadded : d.digits.leftpad (places + 1) '0' = padded
    have hpad : padded = List.replicate (places + 1 - d.digits.length) '0' ++ d.digits := hpadded.symm
    have hdigits : ∀ c ∈ padded, c.isDigit = true := fun c hc => by
      rw [hpad] at hc
      rcases List.mem_append.mp hc with hc | hc
      · rw [List.eq_of_mem_replicate hc]
        rfl
      · exact isDigit_of_mem_toDigits c hc
    have hlength : places + 1 ≤ padded.length := by
      rw [← hpadded, List.length_leftpad]
      exact Nat.le_max_left ..
    -- at least one digit stands on each side of the point
    have hlexeme := @Lexeme.fraction (padded.take (padded.length - places))
      (padded.drop (padded.length - places))
      (by rw [← List.length_pos_iff, List.length_take]; omega)
      (fun c hc => hdigits c (List.mem_of_mem_take hc))
      (by rw [← List.length_pos_iff, List.length_drop]; omega)
      (fun c hc => hdigits c (List.mem_of_mem_drop hc))
    have hvalue : Decimal.ofDigits (padded.take (padded.length - places)) (padded.drop (padded.length - places)) =
        d := by
      have hcoefficient : Decimal.digitsValue padded = d.coefficient := by
        rw [hpad]
        exact Decimal.digitsValue_toDigits _ _
      rw [Decimal.ofDigits, List.take_append_drop, hcoefficient, List.length_drop]
      obtain ⟨coefficient, exponent⟩ := d
      simp only [Decimal.mk.injEq, true_and]
      simp only at hplaces
      omega
    rwa [hvalue] at hlexeme

/-- A value that is found to be a whole number has this natural for its value. -/
theorem value_of_whole? {significand n : ℕ} {exponent : ℤ} (h : whole? significand exponent = some n) :
    (magnitude significand exponent).value = n := by
  unfold whole? at h
  dsimp only at h
  split at h
  · rename_i hmod
    obtain rfl := Option.some.inj h
    have hden := den_magnitude_pos significand exponent
    rw [Fraction.value, Nat.cast_div (Nat.dvd_of_mod_eq_zero hmod) (Nat.cast_ne_zero.mpr hden.ne')]
  · cases h

/-- The text of a finite number is a numeral behind its sign, which is read as the number without it. -/
theorem printed_eq {x : Float} {negative : Bool} {significand : ℕ} {exponent : ℤ}
    (h : read x = .finite negative significand exponent) :
    ∃ numeral, printed x = signed negative numeral ∧
      Lexeme numeral.toList (.number (absolute x negative)) := by
  have habsolute := absolute_eq_nearest h
  unfold printed
  rw [h]
  dsimp only
  cases hwhole : whole? significand exponent with
  | some n =>
    refine ⟨toString n, rfl, ?_⟩
    have hsame : absolute x negative = (Decimal.mk (10 ^ 0 * n) 0).toFloat := by
      rw [habsolute]
      refine nearest_congr (den_magnitude_pos _ _) (Decimal.den_fraction_pos _) ?_
      rw [value_of_whole? hwhole, Decimal.value_fraction]
      simp
    rw [hsame, Nat.toString_eq_ofList_toDigits, String.toList_ofList]
    simpa using lexeme_natural n 0
  | none =>
    -- zero is whole, so the shortest digits are written
    have hzero : significand ≠ 0 := by
      rintro rfl
      simp [whole?, magnitude, Fraction.divPow, Fraction.ofNat] at hwhole
    refine ⟨_, by rw [positionalText, if_neg hzero], ?_⟩
    have hlexeme := lexeme_positional (shortest .up (absolute x negative) significand exponent)
    rwa [toFloat_shortest .up habsolute] at hlexeme

end Number

namespace Scan

/-- A numeral ends where a semicolon stands. -/
theorem pieces_numeral {numeral : List Char} {x : Float} (h : Lexeme numeral (.number x)) :
    pieces (numeral ++ [';']) = [⟨.token (.number x), numeral⟩, ⟨.token (.symbol .semicolon), [';']⟩] := by
  have hsemicolon : pieces [';'] = [⟨.token (.symbol .semicolon), [';']⟩] := by
    rw [pieces, show firstPiece ';' [] = (⟨.token (.symbol .semicolon), [';']⟩, []) from rfl, pieces]
  obtain ⟨c, digits, rfl, hc, hnumber⟩ : ∃ c digits, numeral = c :: digits ∧ c.isDigit = true ∧
      numberPiece c (digits ++ [';']) = (⟨.token (.number x), c :: digits⟩, [';']) := by
    cases h with
    | whole hne hdigits =>
      obtain ⟨c, digits, rfl⟩ := List.exists_cons_of_ne_nil hne
      obtain ⟨hc, hdigits⟩ := List.forall_mem_cons.mp hdigits
      exact ⟨c, digits, rfl, hc, numberPiece_whole c hdigits rfl rfl⟩
    | fraction hne hdigits hne' hbehind =>
      obtain ⟨c, digits, rfl⟩ := List.exists_cons_of_ne_nil hne
      obtain ⟨hc, hdigits⟩ := List.forall_mem_cons.mp hdigits
      exact ⟨c, _, rfl, hc, numberPiece_fraction c hdigits hbehind hne' rfl⟩
  rw [List.cons_append, pieces, firstPiece_digit hc, hnumber, hsemicolon]

/-- A minus is a token by itself. -/
theorem pieces_minus (text : List Char) :
    pieces ('-' :: text) = ⟨.token (.symbol .minus), ['-']⟩ :: pieces text := by
  rw [pieces]
  rfl

end Scan

/-- A number as a program has it: the constant without its sign, behind a minus if it has one. -/
def signedLiteral (negative : Bool) (x : Float) : Expr :=
  if negative then .unary ⟨.symbol .minus, "-", 1⟩ (.literal (.number x)) else .literal (.number x)

/-- A numeral behind its sign is read as one expression, which keeps both. -/
theorem parse_signed (negative : Bool) {numeral : String} {x : Float} (h : Lexeme numeral.toList (.number x))
    (firstId : Occurrence) :
    Scan.errors (Number.signed negative numeral ++ ";") = [] ∧
      Grammar.parse (Scan.tokens (Number.signed negative numeral ++ ";")) firstId =
        ⟨[.expression (signedLiteral negative x)], [], firstId⟩ := by
  have hpieces := Scan.pieces_numeral h
  unfold Scan.errors Scan.tokens Scan.items
  cases negative with
  | false =>
    rw [Number.signed, if_neg Bool.false_ne_true, String.toList_append, show ";".toList = [';'] from rfl, hpieces]
    exact ⟨rfl, rfl⟩
  | true =>
    rw [Number.signed, if_pos rfl, String.toList_append, String.toList_append, show "-".toList = ['-'] from rfl,
      show ";".toList = [';'] from rfl, List.singleton_append, List.cons_append, Scan.pieces_minus, hpieces]
    exact ⟨rfl, rfl⟩

/-- The text that a finite number is printed with, and a semicolon behind it, is a program of one expression: a
constant, behind a minus if the number has a sign. Evaluated in any state, this expression is the number again, to
the last bit, and it changes nothing. -/
theorem printed_reads_back {x : Float} (hx : x.isFinite = true) (firstId : Occurrence) :
    let source := (ValueOver.number x : Value).text ++ ";"
    Scan.errors source = [] ∧ ∃ literal : Float,
      Grammar.parse (Scan.tokens source) firstId =
        ⟨[.expression (signedLiteral (decide (2 ^ 63 ≤ x.toBits.toNat)) literal)], [], firstId⟩ ∧
      ∀ (m : Interpreter) (depth : Nat), 2 ≤ depth → ∃ y : Float,
        evaluate depth (signedLiteral (decide (2 ^ 63 ≤ x.toBits.toNat)) literal) m = .ok (.number y) m ∧
          y.toBits = x.toBits := by
  obtain ⟨significand, exponent, hread⟩ := Number.exists_read_of_isFinite hx
  generalize decide (2 ^ 63 ≤ x.toBits.toNat) = negative at hread ⊢
  obtain ⟨numeral, hprinted, hlexeme⟩ := Number.printed_eq hread
  intro source
  obtain ⟨herrors, hparse⟩ := parse_signed negative hlexeme firstId
  have hsource : source = Number.signed negative numeral ++ ";" := congrArg (· ++ ";") hprinted
  rw [hsource]
  refine ⟨herrors, _, hparse, fun m depth hdepth => ⟨x, ?_, rfl⟩⟩
  obtain ⟨depth, rfl⟩ := Nat.exists_eq_add_of_le' hdepth
  have hsigned := Number.absolute_absolute hread
  cases negative with
  | false => rfl
  | true =>
    show EStateM.Result.ok (ValueOver.number (Number.absolute (Number.absolute x true) true)) m = _
    rw [hsigned]

/-- The zero with a sign. -/
def negativeZero : Float := .ofBits 0x8000000000000000

/-- A zero keeps its sign: it is read as a minus in front of the other zero. -/
theorem negativeZero_reads_back :
    let m := Interpreter.fresh (fun _ => 0) .unlimited
    negativeZero.isFinite = true ∧ (ValueOver.number negativeZero : Value).text = "-0" ∧
      ∃ literal : Float,
        Grammar.parse (Scan.tokens "-0;") 0 =
          ⟨[.expression (.unary ⟨.symbol .minus, "-", 1⟩ (.literal (.number literal)))], [], 0⟩ ∧
        ∃ y : Float, evaluate 2 (.unary ⟨.symbol .minus, "-", 1⟩ (.literal (.number literal))) m = .ok (.number y) m ∧
          y.toBits = 0x8000000000000000 := by
  intro m
  have htext : (ValueOver.number negativeZero : Value).text = "-0" := by decide +kernel
  obtain ⟨-, literal, hparse, hevaluate⟩ := printed_reads_back (x := negativeZero) rfl 0
  rw [htext] at hparse
  exact ⟨rfl, htext, literal, hparse, hevaluate m 2 (Nat.le_refl 2)⟩

end Lox
