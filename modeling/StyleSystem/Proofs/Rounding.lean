import Mathlib.Algebra.Order.Field.Power
import Mathlib.Algebra.Order.Field.Rat
import Mathlib.Data.Int.Log
import Mathlib.Data.Rat.Floor
import Mathlib.Tactic.FieldSimp
import Mathlib.Tactic.Linarith
import Mathlib.Tactic.NormNum
import Mathlib.Tactic.Positivity
import Mathlib.Tactic.Ring
import StyleSystem.Number.Decimal

/-!
# Exact rounding

Rounding leaves a quotient alone that is the value of a number (`Binary64.round_eq_finite`), and so a
decimal denotes the number whose value it is (`Decimal.nearest_eq_finite`).

The spacing of the representable values around a quotient depends on its binary logarithm only
(`Binary64.spacingExponent_eq`), and around the value of a number it is the exponent of the number.
On this grid the value is the significand itself, and nothing is left to round.
-/

namespace StyleSystem

/-!
## The values of numbers

A finite number and a decimal are rationals (`Binary64.value?`, `Decimal.value`). The operations on
them compute with naturals only, with a power of two or ten on either side of a quotient, and
`cast_power` turns such a pair into the power that it stands for. The comparisons on naturals that
are made on the way are those of the rationals (`Binary64.quotientBelow_iff`,
`Decimal.belowPower_iff`).
-/

/-! ### Powers -/

theorem cast_power_natCast (base n : Nat) : (power base n : ℚ) = (base : ℚ) ^ (n : Int) := by
  rw [power, Int.toNat_natCast, Nat.pow_eq, Nat.cast_pow, zpow_natCast]

/-- The two naturals that stand for a power are its numerator and its denominator. -/
theorem cast_power (base : Nat) (hbase : 0 < base) (exponent : Int) :
    (power base exponent : ℚ) = (base : ℚ) ^ exponent * power base (-exponent) := by
  have hne : (base : ℚ) ≠ 0 := by exact_mod_cast hbase.ne'
  -- one of the two naturals is 1
  obtain ⟨n, rfl | rfl⟩ := exponent.eq_nat_or_neg
  · rw [power_of_nonpos (by omega : -(n : Int) ≤ 0), cast_power_natCast, Nat.cast_one, mul_one]
  · rw [power_of_nonpos (by omega : -(n : Int) ≤ 0), neg_neg, cast_power_natCast, zpow_neg,
      inv_mul_cancel₀ (zpow_ne_zero _ hne), Nat.cast_one]

theorem cast_power_pos (base : Nat) (hbase : 0 < base) (exponent : Int) :
    (0 : ℚ) < power base exponent := by
  exact_mod_cast power_pos hbase exponent

/-- A power with an exponent that is not negative. -/
theorem power_natCast (base n : Nat) : power base n = base ^ n := by
  rw [power, Int.toNat_natCast, Nat.pow_eq]

/-! ### Double precision -/

namespace Binary64

/-- **The value of a finite number.** -/
def value? : Binary64 → Option ℚ
  | .finite negative significand exponent _ =>
    some ((if negative then -1 else 1) * significand * 2 ^ exponent)
  | _ => none

theorem quotientBelow_iff {num den : Nat} (hden : 0 < den) (e : Int) :
    quotientBelow num den e = true ↔ (num : ℚ) / den < 2 ^ e := by
  have hpos : (0 : ℚ) < den := by exact_mod_cast hden
  have hunit := cast_power_pos 2 (by decide) (-e)
  calc quotientBelow num den e = true
      ↔ (num : ℚ) * power 2 (-e) < den * power 2 e := by
        rw [quotientBelow, decide_eq_true_iff]
        exact_mod_cast Iff.rfl
    _ ↔ (num : ℚ) * power 2 (-e) < den * 2 ^ e * power 2 (-e) := by
        rw [cast_power 2 (by decide) e, Nat.cast_two, mul_assoc]
    _ ↔ (num : ℚ) / den < 2 ^ e := by
        rw [mul_lt_mul_iff_left₀ hunit, div_lt_iff₀ hpos, mul_comm]

end Binary64

/-! ### Decimals -/

namespace Decimal

/-- **The value of a decimal.** -/
def value (d : Decimal) : ℚ := d.digits * 10 ^ d.exponent

theorem belowPower_iff (significand : Nat) (exponent k : Int) :
    belowPower significand exponent k = true ↔ (significand : ℚ) * 2 ^ exponent < 10 ^ k := by
  have htwo := cast_power_pos 2 (by decide) (-exponent)
  have hten := cast_power_pos 10 (by decide) (-k)
  calc belowPower significand exponent k = true
      ↔ (significand : ℚ) * power 2 exponent * power 10 (-k) <
          power 10 k * power 2 (-exponent) := by
        rw [belowPower, decide_eq_true_iff]
        exact_mod_cast Iff.rfl
    _ ↔ (significand : ℚ) * 2 ^ exponent * (power 2 (-exponent) * power 10 (-k)) <
          10 ^ k * (power 2 (-exponent) * power 10 (-k)) := by
        rw [cast_power 2 (by decide) exponent, cast_power 10 (by decide) k]
        have hleft : (significand : ℚ) * ((2 : Nat) ^ exponent * power 2 (-exponent)) *
            power 10 (-k) =
            significand * 2 ^ exponent * (power 2 (-exponent) * power 10 (-k)) := by
          push_cast; ring
        have hright : ((10 : Nat) : ℚ) ^ k * power 10 (-k) * power 2 (-exponent) =
            10 ^ k * (power 2 (-exponent) * power 10 (-k)) := by
          push_cast; ring
        rw [hleft, hright]
    _ ↔ (significand : ℚ) * 2 ^ exponent < 10 ^ k := mul_lt_mul_iff_left₀ (mul_pos htwo hten)

/-! ### Zeros at the end -/

/-- One zero is moved from the digits to the exponent. -/
theorem strip_of_dvd {d : Decimal} (hne : d.digits ≠ 0) (hdvd : 10 ∣ d.digits) :
    d.strip = (⟨d.digits / 10, d.exponent + 1⟩ : Decimal).strip := by
  rw [strip, if_pos ⟨hne, Nat.mod_eq_zero_of_dvd hdvd⟩]

theorem strip_of_not {d : Decimal} (h : ¬(d.digits ≠ 0 ∧ d.digits % 10 = 0)) : d.strip = d := by
  rw [strip, if_neg h]

theorem digits_strip_ne_zero {d : Decimal} (h : d.digits ≠ 0) : d.strip.digits ≠ 0 := by
  fun_induction strip d with
  | case1 d hd ih =>
    refine ih ?_
    show d.digits / 10 ≠ 0
    omega
  | case2 d hd => exact h

theorem exponent_le_exponent_strip (d : Decimal) : d.exponent ≤ d.strip.exponent := by
  fun_induction strip d with
  | case1 d hd ih => exact le_trans (by dsimp only; omega) ih
  | case2 d hd => exact le_refl _

theorem value_strip (d : Decimal) : d.strip.value = d.value := by
  fun_induction strip d with
  | case1 d hd ih =>
    rw [ih]
    have hdigits : (d.digits : ℚ) = (d.digits / 10 : Nat) * 10 := by
      exact_mod_cast (Nat.div_mul_cancel (Nat.dvd_of_mod_eq_zero hd.2)).symm
    unfold value
    rw [hdigits, zpow_add_one₀ (by norm_num)]
    ring
  | case2 d hd => rfl

/-- Zeros at the end of the digits do not matter. -/
theorem strip_mul_ten_pow {n : Nat} (hn : n ≠ 0) (e : Int) (k : Nat) :
    (⟨n * 10 ^ k, e - k⟩ : Decimal).strip = (⟨n, e⟩ : Decimal).strip := by
  induction k with
  | zero => rw [pow_zero, mul_one, Nat.cast_zero, sub_zero]
  | succ k ih =>
    have hdiv : n * 10 ^ (k + 1) / 10 = n * 10 ^ k := by
      rw [pow_succ, ← mul_assoc, Nat.mul_div_cancel _ (by decide)]
    have hexponent : e - (k + 1 : Nat) + 1 = e - k := by push_cast; ring
    rw [strip_of_dvd (by positivity) ⟨n * 10 ^ k, by dsimp only; ring⟩]
    dsimp only
    rw [hdiv, hexponent, ih]

end Decimal

/-! ## Rounding -/

namespace Binary64

variable {num den significand : Nat} {exponent : Int}

/-! ### The spacing around a quotient -/

theorem cast_log2_bounds {n : Nat} (hn : 0 < n) :
    (2 : ℚ) ^ (n.log2 : Int) ≤ n ∧ (n : ℚ) < 2 ^ ((n.log2 : Int) + 1) := by
  constructor
  · rw [zpow_natCast]
    exact_mod_cast Nat.log2_self_le hn.ne'
  · rw [zpow_add_one₀ (by norm_num), zpow_natCast, ← pow_succ]
    exact_mod_cast Nat.lt_log2_self (n := n)

/-- The logarithms of two naturals leave two candidates for that of their quotient. -/
theorem log_quotient_bounds (hnum : 0 < num) (hden : 0 < den) :
    (num.log2 : Int) - den.log2 - 1 ≤ Int.log 2 ((num : ℚ) / den) ∧
      Int.log 2 ((num : ℚ) / den) ≤ num.log2 - den.log2 := by
  have hdenq : (0 : ℚ) < den := by exact_mod_cast hden
  have hquotient : (0 : ℚ) < num / den := div_pos (by exact_mod_cast hnum) hdenq
  obtain ⟨hnumLow, hnumHigh⟩ := cast_log2_bounds hnum
  obtain ⟨hdenLow, hdenHigh⟩ := cast_log2_bounds hden
  have hne : (2 : ℚ) ≠ 0 := by norm_num
  constructor
  · -- the numerator at its least over the denominator at its largest
    refine (Int.zpow_le_iff_le_log (b := 2) (by decide) hquotient).1 ?_
    rw [le_div_iff₀ hdenq, Nat.cast_two]
    calc (2 : ℚ) ^ ((num.log2 : Int) - den.log2 - 1) * den
        ≤ 2 ^ ((num.log2 : Int) - den.log2 - 1) * 2 ^ ((den.log2 : Int) + 1) := by gcongr
      _ = 2 ^ (num.log2 : Int) := by rw [← zpow_add₀ hne]; congr 1; ring
      _ ≤ num := hnumLow
  · -- and the other way round
    refine Int.lt_add_one_iff.1 ((Int.lt_zpow_iff_log_lt (b := 2) (by decide) hquotient).1 ?_)
    rw [div_lt_iff₀ hdenq, Nat.cast_two]
    calc (num : ℚ) < 2 ^ ((num.log2 : Int) + 1) := hnumHigh
      _ = 2 ^ ((num.log2 : Int) - den.log2 + 1) * 2 ^ (den.log2 : Int) := by
        rw [← zpow_add₀ hne]; congr 1; ring
      _ ≤ 2 ^ ((num.log2 : Int) - den.log2 + 1) * den := by gcongr

/-- **The spacing of the representable values** depends on the binary logarithm of the quotient. -/
theorem spacingExponent_eq (hnum : 0 < num) (hden : 0 < den) :
    spacingExponent num den = max (-1074) (Int.log 2 ((num : ℚ) / den) - 52) := by
  have hquotient : (0 : ℚ) < num / den := by positivity
  obtain ⟨hlow, hhigh⟩ := log_quotient_bounds hnum hden
  unfold spacingExponent
  dsimp only
  -- the comparison decides between the two candidates
  by_cases hbelow : quotientBelow num den (num.log2 - den.log2) = true
  · have hlt := (Int.lt_zpow_iff_log_lt (b := 2) (by decide) hquotient).1
      ((quotientBelow_iff hden _).1 hbelow)
    rw [if_pos hbelow]
    congr 1
    omega
  · have hle := (Int.zpow_le_iff_le_log (b := 2) (by decide) hquotient).1
      (not_lt.1 fun hlt => hbelow ((quotientBelow_iff hden _).2 hlt))
    rw [if_neg hbelow]
    congr 1
    omega

theorem cast_significand_lt (h : InRange significand exponent) :
    (significand : ℚ) < 2 ^ (53 : Int) := by
  calc (significand : ℚ) < power 2 53 := by exact_mod_cast h.1
    _ = 2 ^ (53 : Int) := cast_power_natCast 2 53

theorem le_cast_significand (h : power 2 52 ≤ significand) :
    (2 : ℚ) ^ (52 : Int) ≤ significand := by
  calc (2 : ℚ) ^ (52 : Int) = power 2 52 := (cast_power_natCast 2 52).symm
    _ ≤ significand := by exact_mod_cast h

/-- The values that are close to a number are spaced by its own exponent. -/
theorem log_value (h : InRange significand exponent) (hpos : 0 < significand) :
    max (-1074) (Int.log 2 ((significand : ℚ) * 2 ^ exponent) - 52) = exponent := by
  have hposq : (0 : ℚ) < significand := by exact_mod_cast hpos
  have hvalue : (0 : ℚ) < significand * 2 ^ exponent := by positivity
  have hne : (2 : ℚ) ≠ 0 := by norm_num
  have hhigh : Int.log 2 ((significand : ℚ) * 2 ^ exponent) < 53 + exponent := by
    refine (Int.lt_zpow_iff_log_lt (b := 2) (by decide) hvalue).1 ?_
    rw [Nat.cast_two, zpow_add₀ hne]
    have hlt := cast_significand_lt h
    gcongr
  obtain ⟨-, hleast, -, hnormal⟩ := h
  rcases hnormal with hnormal | rfl
  · have hlow : 52 + exponent ≤ Int.log 2 ((significand : ℚ) * 2 ^ exponent) := by
      refine (Int.zpow_le_iff_le_log (b := 2) (by decide) hvalue).1 ?_
      rw [Nat.cast_two, zpow_add₀ hne]
      have hle := le_cast_significand hnormal
      gcongr
    omega
  · -- the least exponent of all is the other side of the maximum
    omega

/-! ### Quotients that are values -/

theorem divHalfEven_mul (n : Nat) {unit : Nat} (hunit : 0 < unit) :
    divHalfEven (n * unit) unit = n := by
  unfold divHalfEven
  dsimp only
  rw [Nat.mul_mod_left, Nat.mul_div_cancel _ hunit, if_pos (.inl (by omega))]

theorem ofNormal_eq_finite (negative : Bool) (h : InRange significand exponent) :
    ofNormal negative significand exponent = .finite negative significand exponent h :=
  dif_pos h

/-- **A quotient that is the value of a number is rounded to the number.** -/
theorem round_eq_finite (negative : Bool) (h : InRange significand exponent)
    (hpos : 0 < significand) (hden : 0 < den)
    (hvalue : (num : ℚ) / den = significand * 2 ^ exponent) :
    round negative num den = .finite negative significand exponent h := by
  have hdenq : (0 : ℚ) < den := by exact_mod_cast hden
  have hposq : (0 : ℚ) < significand := by exact_mod_cast hpos
  have hnum : 0 < num := by
    have hnumq : (0 : ℚ) < num := by
      rw [(div_eq_iff hdenq.ne').1 hvalue]
      positivity
    exact_mod_cast hnumq
  have hspacing : spacingExponent num den = exponent := by
    rw [spacingExponent_eq hnum hden, hvalue, log_value h hpos]
  -- on the grid of this spacing the quotient is a whole number of steps
  have hgrid : num * power 2 (-exponent) = significand * (den * power 2 exponent) := by
    have hcast : (num : ℚ) * power 2 (-exponent) = significand * (den * power 2 exponent) := by
      rw [cast_power 2 (by decide) exponent, (div_eq_iff hdenq.ne').1 hvalue]
      push_cast
      ring
    exact_mod_cast hcast
  unfold round
  rw [if_neg hnum.ne']
  dsimp only
  rw [hspacing, hgrid, divHalfEven_mul _ (Nat.mul_pos hden (power_pos (by decide) _)),
    if_neg h.1.ne, ofNormal_eq_finite negative h]

theorem neg_round (num den : Nat) : neg (round false num den) = round true num den := by
  have hnormal (s : Nat) (e : Int) : neg (ofNormal false s e) = ofNormal true s e := by
    unfold ofNormal
    split <;> rfl
  unfold round
  dsimp only
  split
  · rfl
  · split <;> exact hnormal _ _

end Binary64

/-! ### Decimals that are values -/

namespace Decimal

open Binary64 (InRange)

variable {significand : Nat} {exponent : Int}

theorem neg_nearestStripped (d : Decimal) :
    Binary64.neg (d.nearestStripped false) = d.nearestStripped true := by
  unfold nearestStripped
  split
  · rfl
  · split
    · rfl
    · split
      · rfl
      · exact Binary64.neg_round _ _

theorem neg_nearest (d : Decimal) : Binary64.neg (d.nearest false) = d.nearest true :=
  neg_nearestStripped d.strip

/-- The value of a number is far from the limits beyond which a decimal is infinite or zero. -/
theorem value_bounds (h : InRange significand exponent) (hpos : 0 < significand) :
    (10 : ℚ) ^ (-400 : Int) ≤ significand * 2 ^ exponent ∧
      (significand : ℚ) * 2 ^ exponent < 10 ^ (400 : Int) := by
  have hlt := Binary64.cast_significand_lt h
  obtain ⟨-, hleast, hmost, -⟩ := h
  have hone : (1 : ℚ) ≤ significand := by exact_mod_cast hpos
  -- three binary digits are less than one decimal digit
  have hthree (n : Nat) : (2 : ℚ) ^ (3 * (n : Int)) ≤ 10 ^ (n : Int) := by
    rw [zpow_mul, zpow_natCast, zpow_natCast]
    exact pow_le_pow_left₀ (by positivity) (by norm_num) n
  have hnegative (n : Nat) : (10 : ℚ) ^ (-(n : Int)) ≤ 2 ^ (-(3 * (n : Int))) := by
    rw [zpow_neg, zpow_neg]
    exact inv_anti₀ (by positivity) (hthree n)
  constructor
  · -- the least significand with the least exponent
    calc (10 : ℚ) ^ (-400 : Int) ≤ 10 ^ (-(358 : Nat) : Int) :=
          zpow_le_zpow_right₀ (by norm_num) (by norm_num)
      _ ≤ 1 * 2 ^ (-1074 : Int) := by
          rw [one_mul]
          exact hnegative 358
      _ ≤ significand * 2 ^ exponent :=
        mul_le_mul hone (zpow_le_zpow_right₀ (by norm_num) hleast) (by positivity) (by positivity)
  · -- and the largest with the largest
    calc (significand : ℚ) * 2 ^ exponent < 2 ^ (53 : Int) * 2 ^ exponent := by gcongr
      _ ≤ 2 ^ (3 * (342 : Nat) : Int) := by
          rw [← zpow_add₀ (by norm_num)]
          exact zpow_le_zpow_right₀ (by norm_num) (by push_cast; omega)
      _ ≤ 10 ^ ((342 : Nat) : Int) := hthree 342
      _ < 10 ^ (400 : Int) := zpow_lt_zpow_right₀ (by norm_num) (by norm_num)

/-- A decimal within these limits is rounded as the quotient that it is. -/
theorem nearestStripped_eq_round (negative : Bool) {d : Decimal} (hd : d.digits ≠ 0)
    (hlow : (10 : ℚ) ^ (-400 : Int) ≤ d.value) (hhigh : d.value < 10 ^ (400 : Int)) :
    d.nearestStripped negative =
      .round negative (d.digits * power 10 d.exponent) (power 10 (-d.exponent)) := by
  have hone : (1 : ℚ) ≤ d.digits := by exact_mod_cast Nat.one_le_iff_ne_zero.2 hd
  -- beyond the first limit one digit alone would be too large a value
  have hexponent : ¬400 < d.exponent := by
    intro hlt
    refine absurd hhigh (not_lt.2 ?_)
    calc (10 : ℚ) ^ (400 : Int) ≤ 1 * 10 ^ d.exponent := by
          rw [one_mul]
          exact zpow_le_zpow_right₀ (by norm_num) hlt.le
      _ ≤ d.value := mul_le_mul_of_nonneg_right hone (by positivity)
  -- and below the second one the value would be too small, a decimal digit per bit being plenty
  have hsize : ¬d.exponent + (d.digits.log2 + 1) < -400 := by
    intro hlt
    refine absurd hlow (not_le.2 ?_)
    have hdigits : (d.digits : ℚ) < 10 ^ ((d.digits.log2 : Int) + 1) := by
      refine (Binary64.cast_log2_bounds (Nat.pos_of_ne_zero hd)).2.trans_le ?_
      rw [zpow_add_one₀ (by norm_num), zpow_add_one₀ (by norm_num), zpow_natCast, zpow_natCast]
      gcongr <;> norm_num
    calc d.value < 10 ^ ((d.digits.log2 : Int) + 1) * 10 ^ d.exponent := by
          unfold value
          gcongr
      _ = 10 ^ (d.exponent + (d.digits.log2 + 1)) := by
          rw [← zpow_add₀ (by norm_num), add_comm]
      _ ≤ 10 ^ (-400 : Int) := zpow_le_zpow_right₀ (by norm_num) hlt.le
  unfold nearestStripped
  rw [if_neg hd, if_neg hexponent, if_neg hsize]

/-- The quotient of naturals that a decimal is. -/
theorem cast_quotient (d : Decimal) :
    ((d.digits * power 10 d.exponent : Nat) : ℚ) / power 10 (-d.exponent) = d.value := by
  have hunit := cast_power_pos 10 (by decide) (-d.exponent)
  rw [div_eq_iff hunit.ne', value, Nat.cast_mul, cast_power 10 (by decide) d.exponent]
  push_cast
  ring

/-- **A decimal that is the value of a number denotes the number.** -/
theorem nearest_eq_finite (negative : Bool) (h : InRange significand exponent)
    (hpos : 0 < significand) {d : Decimal} (hvalue : d.value = significand * 2 ^ exponent) :
    d.nearest negative = .finite negative significand exponent h := by
  have hstrip : d.strip.value = significand * 2 ^ exponent := by rw [value_strip, hvalue]
  have hdigits : d.strip.digits ≠ 0 := by
    intro hzero
    have hposq : (0 : ℚ) < significand := by exact_mod_cast hpos
    have hne : (significand : ℚ) * 2 ^ exponent ≠ 0 := by positivity
    rw [← hstrip, value, hzero, Nat.cast_zero, zero_mul] at hne
    exact hne rfl
  obtain ⟨hlow, hhigh⟩ := value_bounds h hpos
  unfold nearest
  rw [nearestStripped_eq_round negative hdigits (by rwa [hstrip]) (by rwa [hstrip])]
  exact Binary64.round_eq_finite negative h hpos (power_pos (by decide) _)
    (by rw [cast_quotient, hstrip])

/-! ### Shortest decimals -/

theorem value_exact (significand : Nat) (exponent : Int) :
    (exact significand exponent).value = significand * 2 ^ exponent := by
  unfold exact value
  dsimp only
  rcases le_total 0 exponent with he | he
  · obtain ⟨n, rfl⟩ := Int.eq_ofNat_of_zero_le he
    rw [power_of_nonpos (by omega : -(n : Int) ≤ 0), power_natCast, min_eq_right he]
    push_cast
    rw [zpow_natCast]
    ring
  · obtain ⟨n, rfl⟩ := Int.exists_eq_neg_ofNat he
    rw [power_of_nonpos he, neg_neg, power_natCast, min_eq_left he]
    push_cast
    rw [zpow_neg, zpow_neg, zpow_natCast, zpow_natCast, show (10 : ℚ) = 2 * 5 by norm_num, mul_pow]
    field_simp

theorem nearest_of_onGrid? {tie : Tie} {value : Binary64} {grid : Int} {d : Decimal}
    (h : onGrid? tie value significand exponent grid = some d) : d.nearest false = value := by
  unfold onGrid? at h
  dsimp only at h
  split at h
  · rename_i hbelow
    cases h
    exact hbelow.1
  · split at h
    · rename_i habove
      cases h
      exact habove
    · cases h

theorem nearest_strip (negative : Bool) (d : Decimal) :
    d.strip.nearest negative = d.nearest negative := by
  have hstrip : d.strip.strip = d.strip := by
    fun_induction strip d with
    | case1 d hd ih => exact ih
    | case2 d hd => exact strip_of_not hd
  unfold nearest
  rw [hstrip]

/-- **The shortest decimal of a number denotes it,** whichever grid it is found on. -/
theorem nearest_shortest (negative : Bool) (tie : Tie) (h : InRange significand exponent)
    (hpos : 0 < significand) :
    (shortest tie significand exponent).nearest negative =
      .finite negative significand exponent h := by
  have hpositive : (shortest tie significand exponent).nearest false =
      .finite false significand exponent h := by
    unfold shortest
    dsimp only
    rw [nearest_strip]
    cases hfound : (List.range 17).findSome? fun (n : Nat) =>
        onGrid? tie (Binary64.ofNormal false significand exponent) significand exponent
          (wholeDigits significand exponent - (n + 1)) with
    | none =>
      -- all digits are left
      exact nearest_eq_finite false h hpos (value_exact significand exponent)
    | some d =>
      -- no grid gives a decimal that denotes anything else
      obtain ⟨n, -, hn⟩ := List.exists_of_findSome?_eq_some hfound
      rw [Option.getD_some, nearest_of_onGrid? hn, Binary64.ofNormal_eq_finite false h]
  cases negative with
  | false => exact hpositive
  | true => rw [← neg_nearest, hpositive]; rfl

end Decimal

end StyleSystem
