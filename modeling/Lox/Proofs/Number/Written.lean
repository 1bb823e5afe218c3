import Mathlib
import Lox.Number.Text

/-!
# Written numbers

A number that is read from digits is the one nearest to a fraction, so it is neither negative nor undefined. In a
tree such a number is written with digits and points only, from a digit on, unless it is infinite.
-/

set_option autoImplicit false

namespace Lox.Number

open Float.Model in
/-- The bits up to those of positive infinity are the bits of a number. -/
theorem toBits_ofBits {b : UInt64} (h : b.toNat ≤ infinityPattern) : (Float.ofBits b).toBits = b := by
  have hvalid : Format.binary64.Valid b.toBitVec := by
    refine ⟨fun hexponent hmantissa => absurd (BitVec.eq_of_toNat_eq ?_) hmantissa⟩
    rw [UnpackedFloat.unpackExponent_def] at hexponent
    rw [UnpackedFloat.unpackMantissa_def]
    have hones := congrArg BitVec.toNat hexponent
    simp [infinityPattern, significandBits, Nat.shiftRight_eq_div_pow] at h hones ⊢
    omega
  show UInt64.ofBitVec _ = b
  rw [UnpackedFloat.pack_unpack_of_valid hvalid]

/-- No pattern that is nearest to a fraction lies above that of infinity. -/
theorem nearestPattern_le (f : Fraction) : nearestPattern f ≤ infinityPattern := by
  unfold nearestPattern
  split
  · exact Nat.zero_le _
  · exact Nat.min_le_right _ _

/-- The number nearest to a fraction has the pattern nearest to it. -/
theorem toBits_nearest (f : Fraction) : (nearest f).toBits.toNat = nearestPattern f := by
  have hle := nearestPattern_le f
  have hlt : nearestPattern f < 2 ^ 64 := Nat.lt_of_le_of_lt hle (by decide)
  have hbits : (nearestPattern f).toUInt64.toNat = nearestPattern f := by
    rw [UInt64.toNat_ofNat', Nat.mod_eq_of_lt hlt]
  rw [nearest, toBits_ofBits (hbits.le.trans hle), hbits]

/-- The number nearest to a fraction is finite or infinite, and not negative. -/
theorem read_nearest (f : Fraction) :
    (∃ significand exponent, read (nearest f) = .finite false significand exponent) ∨
      read (nearest f) = .infinite false := by
  have hle := nearestPattern_le f
  have hnegative : ¬ Nat.pow 2 63 ≤ nearestPattern f := by
    refine Nat.not_le_of_lt (Nat.lt_of_le_of_lt hle (by decide))
  unfold read
  rw [toBits_nearest]
  simp only [hnegative, decide_false]
  split
  · rename_i hexponent
    have : nearestPattern f % Nat.pow 2 significandBits = 0 := by
      simp [infinityPattern, significandBits] at *
      omega
    rw [if_pos this]
    exact .inr rfl
  · split
    · exact .inl ⟨_, _, rfl⟩
    · exact .inl ⟨_, _, rfl⟩

/-- There are only digits and points in a text, and a digit first. -/
def IsDecimal (text : List Char) : Prop :=
  (∃ d rest, text = d :: rest ∧ d.isDigit = true) ∧ ∀ c ∈ text, c.isDigit = true ∨ c = '.'

/-- Digits, at least one, are a decimal together with digits and points behind them. -/
theorem isDecimal_append {digits behind : List Char} (hne : digits ≠ [])
    (hdigits : ∀ d ∈ digits, d.isDigit = true) (hbehind : ∀ c ∈ behind, c.isDigit = true ∨ c = '.') :
    IsDecimal (digits ++ behind) := by
  obtain ⟨d, rest, rfl⟩ := List.exists_cons_of_ne_nil hne
  refine ⟨⟨d, rest ++ behind, rfl, hdigits d (List.mem_cons_self ..)⟩, fun c hc => ?_⟩
  rcases List.mem_append.mp hc with hc | hc
  · exact .inl (hdigits c hc)
  · exact hbehind c hc

/-- The decimal digits of a natural number are digits. -/
theorem isDigit_of_mem_toDigits {n : Nat} : ∀ c ∈ Nat.toDigits 10 n, c.isDigit = true :=
  fun _ hc => Nat.isDigit_of_mem_toDigits (by decide) (by decide) hc

/-- A decimal is written with digits and points, and a digit first. -/
theorem Decimal.isDecimal_positional (d : Decimal) : IsDecimal d.positional.toList := by
  have hzeros {count : Nat} : ∀ c ∈ List.replicate count '0', c.isDigit = true := fun c hc => by
    rw [List.eq_of_mem_replicate hc]
    rfl
  unfold positional
  split
  · rw [String.toList_ofList]
    exact isDecimal_append Nat.toDigits_ne_nil isDigit_of_mem_toDigits fun c hc => .inl (hzeros c hc)
  · generalize (-d.exponent).toNat = places
    have hpadded : ∀ c ∈ d.digits.leftpad (places + 1) '0', c.isDigit = true := fun c hc => by
      rcases List.mem_append.mp hc with hc | hc
      · exact hzeros c hc
      · exact isDigit_of_mem_toDigits c hc
    have hlength : places + 1 ≤ (d.digits.leftpad (places + 1) '0').length := by
      rw [List.length_leftpad]
      exact Nat.le_max_left ..
    -- at least one digit stands before the point
    have hne : (d.digits.leftpad (places + 1) '0').take
        ((d.digits.leftpad (places + 1) '0').length - places) ≠ [] := by
      rw [← List.length_pos_iff, List.length_take]
      omega
    rw [String.toList_ofList]
    refine isDecimal_append hne (fun c hc => hpadded c (List.mem_of_mem_take hc)) fun c hc => ?_
    rcases List.mem_cons.mp hc with rfl | hc
    · exact .inr rfl
    · exact .inl (hpadded c (List.mem_of_mem_drop hc))

/-- In a tree a number that is not negative is written with digits and points. -/
theorem isDecimal_treeText {x : Float} {significand : Nat} {exponent : Int}
    (h : read x = .finite false significand exponent) : IsDecimal (treeText x).toList := by
  unfold treeText
  rw [h]
  dsimp only
  split
  · rename_i n _
    rw [signed, if_neg (by decide), String.toList_append, Nat.toString_eq_ofList_toDigits, String.toList_ofList]
    exact isDecimal_append Nat.toDigits_ne_nil isDigit_of_mem_toDigits (by simp)
  · unfold positionalText
    split
    · exact ⟨⟨'0', [], rfl, rfl⟩, by simp [signed]⟩
    · rw [signed, if_neg (by decide)]
      exact Decimal.isDecimal_positional _

/-- A number read from digits is infinite, or its text is a decimal. -/
theorem isDecimal_or_infinite (d : Decimal) :
    IsDecimal (treeText d.toFloat).toList ∨ read d.toFloat = .infinite false := by
  rcases read_nearest d.fraction with ⟨significand, exponent, hread⟩ | hread
  · exact .inl (isDecimal_treeText hread)
  · exact .inr hread

end Lox.Number
