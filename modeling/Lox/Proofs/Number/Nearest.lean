import Mathlib
import Lox.Proofs.Number.Written

/-!
# Exact numbers

The number nearest to a fraction depends only on the value of the fraction, not on how it is written. Where the
value is that of a number, this number is the nearest: what is read off the bits of a finite number, a significand
and an exponent, is found again. Changing the sign of a number changes its sign bit and nothing else, so a finite
number is known by its sign, its significand and its exponent.
-/

set_option autoImplicit false

namespace Lox.Number

namespace Fraction

variable {f g : Fraction}

/-- The value of a fraction. -/
def value (f : Fraction) : ℚ := f.num / f.den

/-- Dividing by a power of a base divides the value by this power. -/
theorem value_divPow (f : Fraction) {base : ℕ} (hbase : 0 < base) (e : ℤ) :
    (f.divPow base e).value = f.value / (base : ℚ) ^ e := by
  have hne : (base : ℚ) ≠ 0 := Nat.cast_ne_zero.mpr hbase.ne'
  unfold value divPow
  obtain ⟨n, rfl | rfl⟩ := e.eq_nat_or_neg
  · simp [div_div]
  · simp [div_mul_eq_mul_div]

/-- Dividing by a power of a base leaves the denominator positive. -/
theorem den_divPow_pos (hden : 0 < f.den) {base : ℕ} (hbase : 0 < base) (e : ℤ) : 0 < (f.divPow base e).den :=
  Nat.mul_pos hden (Nat.pow_pos hbase)

/-- A fraction has a numerator that is not less than its denominator exactly if it is not less than one. -/
theorem den_le_num_iff (hden : 0 < f.den) : f.den ≤ f.num ↔ 1 ≤ f.value := by
  rw [value, one_le_div (Nat.cast_pos.mpr hden), Nat.cast_le]

/-- A natural lies between a power of two and the next one. -/
theorem log2_bounds {n : ℕ} (hn : 0 < n) : (2 : ℚ) ^ (n.log2 : ℤ) ≤ n ∧ (n : ℚ) < 2 ^ (n.log2 + 1 : ℤ) := by
  constructor
  · exact_mod_cast Nat.log2_self_le hn.ne'
  · exact_mod_cast Nat.lt_log2_self (n := n)

/-- Powers of two on both sides determine the logarithm. -/
theorem log_eq_of_bounds {r : ℚ} {e : ℤ} (hlow : (2 : ℚ) ^ e ≤ r) (hhigh : r < 2 ^ (e + 1)) : Int.log 2 r = e := by
  have hpos : 0 < r := lt_of_lt_of_le (by positivity) hlow
  have hle : e ≤ Int.log 2 r := (Int.zpow_le_iff_le_log one_lt_two hpos).mp (by rwa [Nat.cast_ofNat])
  have hlt : Int.log 2 r < e + 1 := (Int.lt_zpow_iff_log_lt one_lt_two hpos).mp (by rwa [Nat.cast_ofNat])
  omega

/-- The binary exponent is the logarithm of the value. -/
theorem binaryExponent_eq_log (hnum : 0 < f.num) (hden : 0 < f.den) :
    f.binaryExponent = Int.log 2 f.value := by
  obtain ⟨hnumLow, hnumHigh⟩ := log2_bounds hnum
  obtain ⟨hdenLow, hdenHigh⟩ := log2_bounds hden
  have hdenPos : (0 : ℚ) < f.den := Nat.cast_pos.mpr hden
  have hlow : (2 : ℚ) ^ ((f.num.log2 : ℤ) - f.den.log2 - 1) ≤ f.value := by
    rw [value, le_div_iff₀ hdenPos]
    calc (2 : ℚ) ^ ((f.num.log2 : ℤ) - f.den.log2 - 1) * f.den
        ≤ 2 ^ ((f.num.log2 : ℤ) - f.den.log2 - 1) * 2 ^ (f.den.log2 + 1 : ℤ) := by gcongr
      _ = 2 ^ (f.num.log2 : ℤ) := by rw [← zpow_add₀ two_ne_zero]; congr 1; ring
      _ ≤ f.num := hnumLow
  have hhigh : f.value < (2 : ℚ) ^ ((f.num.log2 : ℤ) - f.den.log2 + 1) := by
    rw [value, div_lt_iff₀ hdenPos]
    calc (f.num : ℚ) < 2 ^ (f.num.log2 + 1 : ℤ) := hnumHigh
      _ = 2 ^ ((f.num.log2 : ℤ) - f.den.log2 + 1) * 2 ^ (f.den.log2 : ℤ) := by
        rw [← zpow_add₀ two_ne_zero]; congr 1; ring
      _ ≤ 2 ^ ((f.num.log2 : ℤ) - f.den.log2 + 1) * f.den := by gcongr
  have hguess (e : ℤ) : (f.divPow 2 e).den ≤ (f.divPow 2 e).num ↔ (2 : ℚ) ^ e ≤ f.value := by
    rw [den_le_num_iff (den_divPow_pos hden Nat.two_pos _), value_divPow f Nat.two_pos, Nat.cast_ofNat,
      one_le_div (by positivity)]
  unfold binaryExponent
  dsimp only
  split
  · rename_i hle
    exact (log_eq_of_bounds ((hguess _).mp hle) hhigh).symm
  · rename_i hlt
    refine (log_eq_of_bounds hlow ?_).symm
    rw [sub_add_cancel]
    exact not_le.mp (mt (hguess _).mpr hlt)

/-- A common factor does not change the nearest natural. -/
theorem nearestNat_scale {k : ℕ} (hk : 0 < k) (n d : ℕ) : nearestNat ⟨k * n, k * d⟩ = nearestNat ⟨n, d⟩ := by
  have hlt : 2 * (k * (n % d)) < k * d ↔ 2 * (n % d) < d := by
    rw [Nat.mul_left_comm]
    exact Nat.mul_lt_mul_left hk
  have heq : 2 * (k * (n % d)) = k * d ↔ 2 * (n % d) = d := by
    rw [Nat.mul_left_comm]
    exact Nat.mul_right_inj hk.ne'
  unfold nearestNat
  simp only [Nat.mul_div_mul_left _ _ hk, Nat.mul_mod_mul_left, hlt, heq]

/-- The nearest natural depends on the value only. -/
theorem nearestNat_congr (hf : 0 < f.den) (hg : 0 < g.den) (h : f.value = g.value) :
    f.nearestNat = g.nearestNat := by
  have hcross : g.den * f.num = f.den * g.num := by
    rw [value, value, div_eq_div_iff (Nat.cast_ne_zero.mpr hf.ne') (Nat.cast_ne_zero.mpr hg.ne')] at h
    have hnat : f.num * g.den = g.num * f.den := by exact_mod_cast h
    rw [Nat.mul_comm, hnat, Nat.mul_comm]
  calc f.nearestNat = nearestNat ⟨g.den * f.num, g.den * f.den⟩ := (nearestNat_scale hg f.num f.den).symm
    _ = nearestNat ⟨f.den * g.num, f.den * g.den⟩ := by rw [hcross, Nat.mul_comm g.den]
    _ = g.nearestNat := nearestNat_scale hf g.num g.den

/-- The natural number nearest to a natural number is this number. -/
theorem nearestNat_ofNat (n : ℕ) : (ofNat n).nearestNat = n := by
  simp [nearestNat, ofNat, Nat.mod_one]

end Fraction

open Fraction

variable {f g : Fraction} {significand : ℕ} {exponent : ℤ}

/-- The nearest number depends on the value only. -/
theorem nearest_congr (hf : 0 < f.den) (hg : 0 < g.den) (h : f.value = g.value) : nearest f = nearest g := by
  have hzero : f.num = 0 ↔ g.num = 0 := by
    have hvalue {f : Fraction} (hf : 0 < f.den) : f.num = 0 ↔ f.value = 0 := by
      simp [value, hf.ne']
    rw [hvalue hf, hvalue hg, h]
  unfold nearest nearestPattern
  by_cases hnum : f.num = 0
  · rw [if_pos hnum, if_pos (hzero.mp hnum)]
  · have hexponent : f.binaryExponent = g.binaryExponent := by
      rw [binaryExponent_eq_log (Nat.pos_of_ne_zero hnum) hf,
        binaryExponent_eq_log (Nat.pos_of_ne_zero (mt hzero.mpr hnum)) hg, h]
    have hnat (e : ℤ) : (f.divPow 2 e).nearestNat = (g.divPow 2 e).nearestNat :=
      nearestNat_congr (den_divPow_pos hf Nat.two_pos e) (den_divPow_pos hg Nat.two_pos e) (by
        rw [value_divPow f Nat.two_pos, value_divPow g Nat.two_pos, h])
    rw [if_neg hnum, if_neg (mt hzero.mpr hnum)]
    simp only [hexponent, hnat]

/-- The magnitude of a finite number has a positive denominator. -/
theorem den_magnitude_pos (significand : ℕ) (exponent : ℤ) : 0 < (magnitude significand exponent).den :=
  den_divPow_pos Nat.one_pos Nat.two_pos _

/-- The magnitude of a finite number is its significand times a power of two. -/
theorem value_magnitude (significand : ℕ) (exponent : ℤ) :
    (magnitude significand exponent).value = significand * 2 ^ exponent := by
  rw [magnitude, value_divPow _ Nat.two_pos, zpow_neg, div_inv_eq_mul]
  simp [value, ofNat]

/-- A significand and an exponent are those of a finite number. The significand has all its bits, unless the exponent
is the least. -/
structure IsStored (significand : ℕ) (exponent : ℤ) : Prop where
  lt : significand < 2 ^ 53
  least : -1074 ≤ exponent
  most : exponent ≤ 971
  full : exponent = -1074 ∨ 2 ^ 52 ≤ significand

/-- The bit pattern of a significand and an exponent, without a sign. -/
def storedPattern (significand : ℕ) (exponent : ℤ) : ℕ := (exponent + 1074).toNat * 2 ^ 52 + significand

/-- The pattern of a finite number lies below that of infinity. -/
theorem IsStored.pattern_lt (h : IsStored significand exponent) :
    storedPattern significand exponent < infinityPattern := by
  obtain ⟨hlt, hleast, hmost, -⟩ := h
  unfold storedPattern
  simp [infinityPattern, significandBits]
  omega

/-- The value of a number has its own bits for the nearest. -/
theorem nearestPattern_magnitude (h : IsStored significand exponent) :
    nearestPattern (magnitude significand exponent) = storedPattern significand exponent := by
  have hden := den_magnitude_pos significand exponent
  have hvalue := value_magnitude significand exponent
  have hpattern := h.pattern_lt.le
  obtain ⟨hlt, hleast, -, hfull⟩ := h
  by_cases hzero : significand = 0
  · subst hzero
    obtain rfl : exponent = -1074 := hfull.resolve_right (by norm_num)
    rfl
  have hnum : (magnitude significand exponent).num ≠ 0 := by
    intro hnum
    rw [value, hnum, Nat.cast_zero, zero_div, eq_comm, mul_eq_zero] at hvalue
    exact hvalue.elim (fun h => hzero (by exact_mod_cast h)) (zpow_ne_zero _ two_ne_zero)
  -- the unit is the exponent: a full significand has its leading bit at 52, and no other is divided further
  have hunit : max leastExponent ((magnitude significand exponent).binaryExponent - significandBits) = exponent := by
    have hlog : Int.log 2 ((significand : ℚ) * 2 ^ exponent) = significand.log2 + exponent := by
      obtain ⟨hlow, hhigh⟩ := log2_bounds (Nat.pos_of_ne_zero hzero)
      refine log_eq_of_bounds ?_ ?_
      · rw [zpow_add₀ two_ne_zero]
        gcongr
      · rw [add_right_comm, zpow_add₀ two_ne_zero]
        gcongr
    have hbits : significand.log2 < 53 := (Nat.log2_lt hzero).mpr hlt
    rw [binaryExponent_eq_log (Nat.pos_of_ne_zero hnum) hden, hvalue, hlog]
    simp only [leastExponent, significandBits]
    rcases hfull with rfl | hfull
    · omega
    · have := (Nat.le_log2 hzero).mpr hfull
      omega
  have hnat : ((magnitude significand exponent).divPow 2 exponent).nearestNat = significand := by
    rw [nearestNat_congr (den_divPow_pos hden Nat.two_pos _) (g := ofNat significand) Nat.one_pos, nearestNat_ofNat]
    rw [value_divPow _ Nat.two_pos, hvalue, Nat.cast_ofNat, mul_div_cancel_right₀ _ (zpow_ne_zero _ two_ne_zero)]
    simp [value, ofNat]
  unfold nearestPattern
  rw [if_neg hnum]
  simp only [hunit, hnat]
  rw [show exponent - leastExponent = exponent + 1074 by simp [leastExponent]]
  exact min_eq_left hpattern

/-- The sign bit. -/
def signPattern (negative : Bool) : ℕ := if negative then 2 ^ 63 else 0

/-- The sign, the exponent and the significand are read off the 64 bits of a number. -/
theorem read_eq (x : Float) : read x =
    if x.toBits.toNat / 2 ^ 52 % 2048 = 2047 then
      if x.toBits.toNat % 2 ^ 52 = 0 then .infinite (decide (2 ^ 63 ≤ x.toBits.toNat)) else .undefined
    else if x.toBits.toNat / 2 ^ 52 % 2048 = 0 then
      .finite (decide (2 ^ 63 ≤ x.toBits.toNat)) (x.toBits.toNat % 2 ^ 52) leastExponent
    else .finite (decide (2 ^ 63 ≤ x.toBits.toNat)) (2 ^ 52 + x.toBits.toNat % 2 ^ 52)
      (leastExponent + (x.toBits.toNat / 2 ^ 52 % 2048 : ℕ) - 1) := rfl

/-- What is read off a finite number is stored in its bits. -/
theorem stored_of_read {x : Float} {negative : Bool} (h : read x = .finite negative significand exponent) :
    IsStored significand exponent ∧ x.toBits.toNat = signPattern negative + storedPattern significand exponent := by
  have hbits := x.toBits.toNat_lt
  rw [read_eq] at h
  generalize x.toBits.toNat = bits at hbits h
  unfold signPattern storedPattern
  unfold leastExponent at h
  split_ifs at h with hones hzero hleast
  · cases h
    refine ⟨⟨by omega, le_refl _, by decide, .inl rfl⟩, ?_⟩
    simp only [decide_eq_true_eq]
    split <;> omega
  · cases h
    refine ⟨⟨by omega, by omega, by omega, .inr (by omega)⟩, ?_⟩
    simp only [decide_eq_true_eq]
    split <;> omega

/-- What is stored in the bits of a finite number is read off it. -/
theorem read_of_stored {x : Float} {negative : Bool} (h : IsStored significand exponent)
    (hbits : x.toBits.toNat = signPattern negative + storedPattern significand exponent) :
    read x = .finite negative significand exponent := by
  rw [read_eq, hbits]
  obtain ⟨hlt, hleast, hmost, hfull⟩ := h
  unfold signPattern storedPattern leastExponent
  obtain ⟨steps, hsteps⟩ := Int.eq_ofNat_of_zero_le (show 0 ≤ exponent + 1074 by omega)
  have hsign : (if negative then 2 ^ 63 else 0) = 2 ^ 63 * negative.toNat := by cases negative <;> rfl
  have hnegative : decide (2 ^ 63 ≤ 2 ^ 63 * negative.toNat + (steps * 2 ^ 52 + significand)) = negative := by
    cases negative <;> simp; omega
  rw [hsign, hsteps, Int.toNat_natCast, hnegative]
  by_cases hshort : significand < 2 ^ 52
  · obtain rfl : exponent = -1074 := hfull.resolve_right (by omega)
    obtain rfl : steps = 0 := by omega
    have hexponent : (2 ^ 63 * negative.toNat + (0 * 2 ^ 52 + significand)) / 2 ^ 52 % 2048 = 0 := by omega
    have hstored : (2 ^ 63 * negative.toNat + (0 * 2 ^ 52 + significand)) % 2 ^ 52 = significand := by omega
    rw [hexponent, hstored]
    rfl
  · have hexponent :
        (2 ^ 63 * negative.toNat + (steps * 2 ^ 52 + significand)) / 2 ^ 52 % 2048 = steps + 1 := by omega
    have hstored :
        2 ^ 52 + (2 ^ 63 * negative.toNat + (steps * 2 ^ 52 + significand)) % 2 ^ 52 = significand := by omega
    rw [hexponent, hstored, if_neg (by omega), if_neg (Nat.succ_ne_zero _)]
    congr 1
    omega

/-- A number is known by its bits. -/
theorem eq_of_toBits_eq {x y : Float} (h : x.toBits = y.toBits) : x = y := by
  obtain ⟨⟨_, _⟩⟩ := x
  obtain ⟨⟨_, _⟩⟩ := y
  exact congrArg Float.ofModel ((Float.Model.mk.injEq ..).mpr h)

/-- A finite number is known by its sign, its significand and its exponent. -/
theorem eq_of_read_eq {x y : Float} {negative : Bool} (hx : read x = .finite negative significand exponent)
    (hy : read y = .finite negative significand exponent) : x = y :=
  eq_of_toBits_eq (UInt64.toNat_inj.mp ((stored_of_read hx).2.trans (stored_of_read hy).2.symm))

/-- The number nearest to the value of a number is this number, without a sign. -/
theorem read_nearest_magnitude (h : IsStored significand exponent) :
    read (nearest (magnitude significand exponent)) = .finite false significand exponent :=
  read_of_stored h (by
    rw [toBits_nearest, nearestPattern_magnitude h, signPattern, if_neg Bool.false_ne_true, Nat.zero_add])

section Sign

open Float.Model Float.Model.UnpackedFloat

/-- The bits of a number of the other sign. -/
def flipped (bits : BitVec 64) : BitVec 64 := bits + BitVec.ofNat 64 (2 ^ 63)

variable (bits : BitVec 64)

/-- Flipping the sign adds half of all patterns. -/
theorem toNat_flipped : (flipped bits).toNat = (bits.toNat + 2 ^ 63) % 2 ^ 64 := by
  rw [flipped, BitVec.toNat_add, BitVec.toNat_ofNat, Nat.mod_eq_of_lt (show 2 ^ 63 < 2 ^ 64 by norm_num)]

/-- The exponent is made of the eleven bits above the significand. -/
theorem toNat_unpackExponent :
    (@unpackExponent Format.binary64 bits).toNat = bits.toNat / 2 ^ 52 % 2 ^ 11 := by
  rw [unpackExponent_def, BitVec.extractLsb'_toNat, Nat.shiftRight_eq_div_pow]

/-- The significand is stored in the lowest 52 bits. -/
theorem toNat_unpackMantissa : (@unpackMantissa Format.binary64 bits).toNat = bits.toNat % 2 ^ 52 := by
  rw [unpackMantissa_def, BitVec.extractLsb'_toNat, Nat.shiftRight_zero]

/-- The sign is the highest bit. -/
theorem toNat_unpackSign :
    (@unpackSign Format.binary64 bits).toNat = bits.toNat / 2 ^ (52 + 11) % 2 := by
  rw [unpackSign_def, BitVec.extractLsb'_toNat, Nat.shiftRight_eq_div_pow, Nat.pow_one]

/-- Flipping the sign leaves the exponent alone. -/
theorem unpackExponent_flipped :
    @unpackExponent Format.binary64 (flipped bits) = @unpackExponent Format.binary64 bits := by
  refine BitVec.eq_of_toNat_eq ?_
  rw [toNat_unpackExponent, toNat_unpackExponent, toNat_flipped]
  omega

/-- Flipping the sign leaves the significand alone. -/
theorem unpackMantissa_flipped :
    @unpackMantissa Format.binary64 (flipped bits) = @unpackMantissa Format.binary64 bits := by
  refine BitVec.eq_of_toNat_eq ?_
  rw [toNat_unpackMantissa, toNat_unpackMantissa, toNat_flipped]
  omega

/-- Flipping the sign negates it. -/
theorem unpackSign_flipped :
    Sign.ofBitVec (@unpackSign Format.binary64 (flipped bits)) =
      -Sign.ofBitVec (@unpackSign Format.binary64 bits) := by
  have hflips : @unpackSign Format.binary64 (flipped bits) =
      @unpackSign Format.binary64 bits + 1#1 := by
    refine BitVec.eq_of_toNat_eq ?_
    rw [BitVec.toNat_add, toNat_unpackSign, toNat_unpackSign, toNat_flipped, BitVec.toNat_ofNat]
    have hlt := bits.isLt
    omega
  rw [hflips]
  generalize @unpackSign Format.binary64 bits = sign
  obtain rfl | rfl := BitVec.eq_zero_or_eq_one sign <;> rfl

/-- Flipping the sign negates the number. -/
theorem unpack_flipped : UnpackedFloat.unpack Format.binary64 (flipped bits) =
    (UnpackedFloat.unpack Format.binary64 bits).neg := by
  unfold UnpackedFloat.unpack
  simp only [unpackExponent_flipped, unpackMantissa_flipped, unpackSign_flipped]
  split
  · split <;> rfl
  · split
    · split <;> rfl
    · rfl

/-- A change of sign changes the sign bit of a finite number. -/
theorem toBits_neg {x : Float} (h : x.toBits.toNat / 2 ^ 52 % 2048 ≠ 2047) :
    (-x).toBits.toNat = (x.toBits.toNat + 2 ^ 63) % 2 ^ 64 := by
  have hvalid : Format.binary64.Valid (flipped x.toBits.toBitVec) := by
    refine ⟨fun hexponent => absurd (congrArg BitVec.toNat hexponent) ?_⟩
    rw [unpackExponent_flipped, toNat_unpackExponent]
    exact h
  have hpack : (-x).toBits.toBitVec = flipped x.toBits.toBitVec := by
    show UnpackedFloat.pack Format.binary64 (UnpackedFloat.unpack Format.binary64 x.toBits.toBitVec).neg = _
    rw [← unpack_flipped, pack_unpack_of_valid hvalid]
  rw [← UInt64.toNat_toBitVec, hpack, toNat_flipped, UInt64.toNat_toBitVec]

/-- A number is finite if a significand and an exponent are read off it. -/
theorem exists_read_of_isFinite {x : Float} (h : x.isFinite = true) :
    ∃ significand exponent, read x = .finite (decide (2 ^ 63 ≤ x.toBits.toNat)) significand exponent := by
  have hexponent : x.toBits.toNat / 2 ^ 52 % 2048 ≠ 2047 := by
    intro hones
    have hall : @unpackExponent Format.binary64 x.toBits.toBitVec = -1#11 := by
      refine BitVec.eq_of_toNat_eq ?_
      rw [toNat_unpackExponent]
      exact hones
    have hunpack : x.isFinite = (UnpackedFloat.unpack Format.binary64 x.toBits.toBitVec).isFinite := rfl
    rw [hunpack, UnpackedFloat.unpack, if_pos hall] at h
    split at h <;> cases h
  rw [read_eq, if_neg hexponent]
  split
  · exact ⟨_, _, rfl⟩
  · exact ⟨_, _, rfl⟩

end Sign

variable {x : Float} {negative : Bool}

/-- The number of the other sign has the same significand and exponent. -/
theorem read_neg (h : read x = .finite negative significand exponent) :
    read (-x) = .finite (!negative) significand exponent := by
  obtain ⟨hstored, hbits⟩ := stored_of_read h
  have hpattern := hstored.pattern_lt
  have hinfinity : infinityPattern = 2047 * 2 ^ 52 := rfl
  refine read_of_stored hstored ?_
  cases negative with
  | false =>
    have hsigned : x.toBits.toNat = storedPattern significand exponent := hbits.trans (Nat.zero_add _)
    rw [toBits_neg (by omega), hsigned]
    exact (Nat.mod_eq_of_lt (by omega)).trans (Nat.add_comm _ _)
  | true =>
    have hsigned : x.toBits.toNat = 2 ^ 63 + storedPattern significand exponent := hbits
    rw [toBits_neg (by omega), hsigned]
    show _ = 0 + storedPattern significand exponent
    omega

/-- A finite number without its sign is the number nearest to the value that is read off it. -/
theorem absolute_eq_nearest (h : read x = .finite negative significand exponent) :
    absolute x negative = nearest (magnitude significand exponent) := by
  have hnearest := read_nearest_magnitude (stored_of_read h).1
  cases negative with
  | false => exact eq_of_read_eq h hnearest
  | true => exact eq_of_read_eq (read_neg h) hnearest

/-- Taking the sign away twice puts it back. -/
theorem absolute_absolute (h : read x = .finite negative significand exponent) :
    absolute (absolute x negative) negative = x := by
  cases negative with
  | false => rfl
  | true => exact eq_of_read_eq (read_neg (read_neg h)) h

end Lox.Number
