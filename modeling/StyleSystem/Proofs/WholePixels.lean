import StyleSystem.Number.Numeral
import StyleSystem.Proofs.Rounding
import StyleSystem.Property
import StyleSystem.Theme.Basic

/-!
# Whole pixels

A whole quantity of pixels is written with all of its decimal digits (`px_of_value?`). Two ways lead
there: below `10 ^ 15` the number is taken back to an integer, and from there on its shortest decimal
is written (`Binary64.plainText_of_value?`). Both depend on the value of the number only, so that it
does not matter whether it is an integer, a product with a whole unit, or a zero with a sign.
-/

namespace StyleSystem

/-!
## Whole numbers

Integers of magnitude up to `2 ^ 53` are numbers in double precision, products within this range are
exact (`Binary64.value?_ofInt`, `Binary64.value?_mul`), and such a number is written with exactly its
decimal digits (`pixelDigits_of_value?`).

From `10 ^ 15` on these digits are those of the shortest decimal that denotes the number. It could
be shorter than the integer itself only by being another multiple of a power of ten, and that is at
least ten away. Within the range no other integer denotes the same number, and beyond it all
multiples of ten are rounded to something larger (`Binary64.value?_round_above`).
-/

namespace Binary64

/-! ### Integers in double precision -/

theorem exists_inRange {n : Nat} (hpos : 0 < n) (hle : n ≤ 2 ^ 53) :
    ∃ (significand : Nat) (exponent : Int), InRange significand exponent ∧ 0 < significand ∧
      (significand : ℚ) * 2 ^ exponent = n := by
  rcases Nat.lt_or_eq_of_le hle with hlt | rfl
  · -- scaled up until all 53 bits are filled
    have hlog : n.log2 < 53 := (Nat.log2_lt hpos.ne').2 hlt
    obtain ⟨k, hk⟩ : ∃ k, n.log2 + k = 52 := ⟨52 - n.log2, by omega⟩
    refine ⟨n * 2 ^ k, -(k : Int), ⟨?_, by omega, by omega, .inl ?_⟩, by positivity, ?_⟩
    · rw [show (53 : Int) = (53 : Nat) from rfl, power_natCast]
      calc n * 2 ^ k < 2 ^ (n.log2 + 1) * 2 ^ k := by
            gcongr
            exact Nat.lt_log2_self
        _ = 2 ^ 53 := by rw [← pow_add]; congr 1; omega
    · rw [show (52 : Int) = (52 : Nat) from rfl, power_natCast]
      calc 2 ^ 52 = 2 ^ n.log2 * 2 ^ k := by rw [← pow_add, hk]
        _ ≤ n * 2 ^ k := by
            gcongr
            exact Nat.log2_self_le hpos.ne'
    · push_cast
      rw [zpow_neg, zpow_natCast]
      field_simp
  · -- the limit itself is even, and half of it fills the bits with the next exponent
    refine ⟨2 ^ 52, 1, by decide, by positivity, ?_⟩
    norm_num

/-- **A quotient that is an integer in the range is rounded to it.** -/
theorem value?_round_whole (negative : Bool) {num den n : Nat} (hden : 0 < den) (hn : n ≤ 2 ^ 53)
    (hquotient : (num : ℚ) / den = n) :
    (round negative num den).value? = some ((if negative then -1 else 1 : ℚ) * n) := by
  have hdenq : (den : ℚ) ≠ 0 := by exact_mod_cast hden.ne'
  rcases Nat.eq_zero_or_pos n with rfl | hpos
  · have hnum : num = 0 := by
      have hcast : (num : ℚ) = 0 := by
        rw [(div_eq_iff hdenq).1 hquotient, Nat.cast_zero, zero_mul]
      exact_mod_cast hcast
    unfold round
    rw [if_pos hnum, zero, value?]
    simp
  · obtain ⟨significand, exponent, h, hsig, hvalue⟩ := exists_inRange hpos hn
    rw [round_eq_finite negative h hsig hden (hquotient.trans hvalue.symm), value?, mul_assoc,
      hvalue]

/-- **Conversion is exact.** -/
theorem value?_ofInt {z : Int} (hz : z.natAbs ≤ 2 ^ 53) : (ofInt z).value? = some (z : ℚ) := by
  unfold ofInt
  rw [value?_round_whole _ Nat.one_pos hz (by rw [Nat.cast_one, div_one])]
  congr 1
  rcases lt_or_ge z 0 with hneg | hnonneg
  · rw [decide_eq_true hneg, if_pos rfl, Nat.cast_natAbs, abs_of_neg hneg, Int.cast_neg]
    ring
  · rw [decide_eq_false (not_lt.2 hnonneg), Nat.cast_natAbs, abs_of_nonneg hnonneg]
    simp

/-- A number with an integer as its value, taken apart. -/
theorem exists_of_value? {x : Binary64} {z : Int} (h : x.value? = some (z : ℚ)) :
    ∃ negative significand exponent, ∃ hr : InRange significand exponent,
      x = .finite negative significand exponent hr ∧
        (significand : ℚ) * 2 ^ exponent = z.natAbs ∧
        z = if negative then -(z.natAbs : Int) else z.natAbs := by
  cases x with
  | nan => cases h
  | infinite => cases h
  | finite negative significand exponent hr =>
    refine ⟨negative, significand, exponent, hr, rfl, ?_⟩
    have hvalue := Option.some_inj.1 h
    have hnonneg : (0 : ℚ) ≤ significand * 2 ^ exponent := by positivity
    rw [Nat.cast_natAbs]
    -- the number has the sign of its value, since the magnitude is not negative
    cases negative with
    | false =>
      have heq : (significand : ℚ) * 2 ^ exponent = z := by simpa using hvalue
      have hz : 0 ≤ z := by
        rw [heq] at hnonneg
        exact_mod_cast hnonneg
      exact ⟨by rw [heq, abs_of_nonneg hz], (Int.natAbs_of_nonneg hz).symm⟩
    | true =>
      have heq : (significand : ℚ) * 2 ^ exponent = -z := by
        rw [← hvalue]
        simp
      have hz : z ≤ 0 := by
        rw [heq] at hnonneg
        have hcast : (z : ℚ) ≤ 0 := by linarith
        exact_mod_cast hcast
      exact ⟨by rw [heq, abs_of_nonpos hz, Int.cast_neg],
        by rw [Int.ofNat_natAbs_of_nonpos hz, if_pos rfl, neg_neg]⟩

/-- **Products are exact** as long as they are in the range. -/
theorem value?_mul {x y : Binary64} {a b : Int} (hx : x.value? = some (a : ℚ))
    (hy : y.value? = some (b : ℚ)) (hab : (a * b).natAbs ≤ 2 ^ 53) :
    (x * y).value? = some ((a * b : Int) : ℚ) := by
  obtain ⟨s, m, e, hm, rfl, hmValue, hs⟩ := exists_of_value? hx
  obtain ⟨t, n, f, hn, rfl, hnValue, ht⟩ := exists_of_value? hy
  have hunit := cast_power_pos 2 (by decide) (-(e + f))
  have hquotient : ((m * n * power 2 (e + f) : Nat) : ℚ) / power 2 (-(e + f)) =
      (a * b).natAbs := by
    rw [Int.natAbs_mul, div_eq_iff hunit.ne', Nat.cast_mul, cast_power 2 (by decide) (e + f),
      zpow_add₀ (by norm_num)]
    push_cast at hmValue hnValue ⊢
    rw [← hmValue, ← hnValue]
    ring
  show (round (s ^^ t) (m * n * power 2 (e + f)) (power 2 (-(e + f)))).value? = _
  rw [value?_round_whole _ (power_pos (by decide) _) hab hquotient, Int.natAbs_mul]
  congr 1
  rw [hs, ht]
  cases s <;> cases t <;> simp

/-- The significand of an integer on the scale of its exponent. -/
theorem significand_eq {significand n : Nat} {exponent : Int}
    (h : (significand : ℚ) * 2 ^ exponent = n) :
    significand * power 2 exponent = n * power 2 (-exponent) := by
  have hcast : (significand : ℚ) * power 2 exponent = n * power 2 (-exponent) := by
    rw [cast_power 2 (by decide) exponent, ← h]
    push_cast
    ring
  exact_mod_cast hcast

theorem toInt?_of_value? {x : Binary64} {z : Int} (h : x.value? = some (z : ℚ)) :
    x.toInt? = some z := by
  obtain ⟨negative, significand, exponent, hr, rfl, hvalue, hz⟩ := exists_of_value? h
  have hscaled := significand_eq hvalue
  -- one of the two powers is 1
  have hwhole : significand % power 2 (-exponent) = 0 ∧
      significand / power 2 (-exponent) * power 2 exponent = z.natAbs := by
    rcases le_total exponent 0 with he | he
    · rw [power_of_nonpos he, mul_one] at hscaled ⊢
      rw [hscaled, Nat.mul_mod_left, Nat.mul_div_cancel _ (power_pos (by decide) _)]
      exact ⟨rfl, rfl⟩
    · rw [power_of_nonpos (by omega : -exponent ≤ 0), mul_one] at hscaled
      rw [power_of_nonpos (by omega : -exponent ≤ 0), Nat.mod_one, Nat.div_one]
      exact ⟨rfl, hscaled⟩
  unfold toInt?
  dsimp only
  rw [if_pos hwhole.1, hwhole.2, ← hz]

/-! ### Beyond the range -/

theorem le_divHalfEven (num den : Nat) : num / den ≤ divHalfEven num den := by
  unfold divHalfEven
  dsimp only
  split
  · exact le_refl _
  · exact Nat.le_succ _

/-- Beyond the range every second integer is a number. The first one that is not goes down to
`2 ^ 53`; all others stay above it. -/
theorem value?_round_above {v w : Nat} (hlow : 2 ^ 53 + 2 ≤ v) (hhigh : v < 2 ^ 54)
    (hw : w ≤ 2 ^ 53) : (round false v 1).value? ≠ some (w : ℚ) := by
  -- neighbours are two apart at this size, and a number that is rounded stays above `2 ^ 53`
  have hspacing : spacingExponent v 1 = 1 := by
    have hlog : Int.log 2 (((v : Nat) : ℚ) / (1 : Nat)) = 53 := by
      rw [Nat.cast_one, div_one, Int.log_natCast,
        Nat.log_eq_of_pow_le_of_lt_pow (by omega : 2 ^ 53 ≤ v) hhigh]
      rfl
    rw [spacingExponent_eq (by omega) Nat.one_pos, hlog]
    rfl
  have hhalf : 2 ^ 52 + 1 ≤ divHalfEven (v * power 2 (-1)) (1 * power 2 1) := by
    refine le_trans ?_ (le_divHalfEven _ _)
    show 2 ^ 52 + 1 ≤ v * 1 / 2
    omega
  have hnormal {s : Nat} {e : Int} (h : (2 : ℚ) ^ 53 < s * 2 ^ e) :
      (ofNormal false s e).value? ≠ some (w : ℚ) := by
    unfold ofNormal
    split
    · intro heq
      have hvalue : (s : ℚ) * 2 ^ e = w := by simpa using Option.some_inj.1 heq
      have hwq : (w : ℚ) ≤ 2 ^ 53 := by exact_mod_cast hw
      linarith
    · intro heq
      cases heq
  unfold round
  rw [if_neg (by omega)]
  dsimp only
  rw [hspacing]
  split
  · -- rounded up to the next power of two
    refine hnormal ?_
    rw [show (52 : Int) = (52 : Nat) from rfl, power_natCast]
    norm_num
  · refine hnormal ?_
    have hcast : ((2 ^ 52 + 1 : Nat) : ℚ) ≤ divHalfEven (v * power 2 (-1)) (1 * power 2 1) := by
      exact_mod_cast hhalf
    push_cast at hcast
    rw [zpow_one]
    linarith

end Binary64

/-! ### Shortest decimals of integers -/

namespace Decimal

open Binary64 (InRange)

variable {significand w : Nat} {exponent : Int}

/-- An integer written with some zeros of its own is rounded as the integer. -/
theorem nearest_eq_round_whole {n g : Nat} (hn : 0 < n) (hlt : n * 10 ^ g < 10 ^ 400) :
    (⟨n, g⟩ : Decimal).nearest false = .round false (n * 10 ^ g) 1 := by
  have hvalue : (⟨n, g⟩ : Decimal).strip.value = ((n * 10 ^ g : Nat) : ℚ) := by
    rw [value_strip, value]
    push_cast
    rw [zpow_natCast]
  have hexponent : (0 : Int) ≤ (⟨n, g⟩ : Decimal).strip.exponent :=
    le_trans (Int.natCast_nonneg g) (exponent_le_exponent_strip ⟨n, g⟩)
  have hone : (1 : ℚ) ≤ ((n * 10 ^ g : Nat) : ℚ) := by exact_mod_cast Nat.mul_pos hn (by positivity)
  have hunit : power 10 (-(⟨n, g⟩ : Decimal).strip.exponent) = 1 := power_of_nonpos (by omega)
  have hquotient := cast_quotient (⟨n, g⟩ : Decimal).strip
  rw [hunit, Nat.cast_one, div_one, hvalue] at hquotient
  unfold nearest
  rw [nearestStripped_eq_round false (digits_strip_ne_zero hn.ne'), hunit]
  · congr 1
    exact_mod_cast hquotient
  · rw [hvalue]
    exact le_trans (zpow_le_one_of_nonpos₀ (by norm_num) (by norm_num)) hone
  · rw [hvalue, show (400 : Int) = (400 : Nat) from rfl, zpow_natCast]
    exact_mod_cast hlt

/-- The grid of a power of ten around an integer. -/
theorem onGrid_whole (hvalue : (significand : ℚ) * 2 ^ exponent = w) (g : Nat) :
    onGrid significand exponent g =
      (w * power 2 (-exponent), 10 ^ g * power 2 (-exponent)) := by
  unfold onGrid
  rw [Binary64.significand_eq hvalue, power_of_nonpos (by omega : -(g : Int) ≤ 0), mul_one,
    power_natCast]

/-- **The grids that an integer lies on.** -/
theorem onGrid?_of_dvd {tie : Tie} (h : InRange significand exponent) (hpos : 0 < significand)
    (hvalue : (significand : ℚ) * 2 ^ exponent = w) {g : Nat} (hdvd : 10 ^ g ∣ w) :
    onGrid? tie (.finite false significand exponent h) significand exponent g =
      some ⟨w / 10 ^ g, g⟩ := by
  have hunit : 0 < power 2 (-exponent) := power_pos (by decide) _
  have hden : 0 < 10 ^ g * power 2 (-exponent) := Nat.mul_pos (by positivity) hunit
  have hbelow : (⟨w / 10 ^ g, g⟩ : Decimal).nearest false =
      .finite false significand exponent h := by
    refine nearest_eq_finite false h hpos ?_
    rw [hvalue, value, zpow_natCast]
    exact_mod_cast Nat.div_mul_cancel hdvd
  unfold onGrid?
  rw [onGrid_whole hvalue]
  dsimp only
  rw [Nat.mul_div_mul_right _ _ hunit, Nat.mul_mod_mul_right, Nat.mod_eq_zero_of_dvd hdvd]
  refine if_pos ⟨hbelow, fun _ hup => ?_⟩
  -- nothing points up from a point of the grid
  rcases hup with hlt | ⟨heq, -⟩ <;> omega

/-- **A multiple of a power of ten is not taken for an integer that is none.** -/
theorem nearest_ne_of_not_dvd (h : InRange significand exponent)
    (hvalue : (significand : ℚ) * 2 ^ exponent = w) (hhigh : w ≤ 2 ^ 53) {g : Nat}
    (hdvd : ¬10 ^ g ∣ w) {n : Nat} (hn : 0 < n) (hle : n * 10 ^ g ≤ 10 ^ 16) :
    (⟨n, g⟩ : Decimal).nearest false ≠ .finite false significand exponent h := by
  intro heq
  have hw : ((⟨n, g⟩ : Decimal).nearest false).value? = some (w : ℚ) := by
    rw [heq, Binary64.value?, ← hvalue]
    simp
  rw [nearest_eq_round_whole hn (lt_of_le_of_lt hle (by decide +kernel))] at hw
  rcases Nat.lt_or_ge (2 ^ 53) (n * 10 ^ g) with hgt | hin
  · -- a multiple of ten, so not the one integer that goes down to `2 ^ 53`
    have hten : 10 ∣ n * 10 ^ g := by
      refine Dvd.dvd.mul_left (dvd_pow_self 10 ?_) n
      rintro rfl
      exact hdvd (by simp)
    exact Binary64.value?_round_above (by omega) (by omega) hhigh hw
  · -- in the range it is a number of its own
    rw [Binary64.value?_round_whole false Nat.one_pos hin (by rw [Nat.cast_one, div_one])] at hw
    have hcast : ((n * 10 ^ g : Nat) : ℚ) = w := by simpa using Option.some_inj.1 hw
    exact hdvd ⟨n, by rw [mul_comm]; exact_mod_cast hcast.symm⟩

/-- The points of a grid next to an integer that does not lie on it denote other numbers. -/
theorem onGrid?_of_not_dvd {tie : Tie} (h : InRange significand exponent)
    (hvalue : (significand : ℚ) * 2 ^ exponent = w) (hlow : 10 ^ 15 ≤ w) (hhigh : w ≤ 2 ^ 53)
    {g : Nat} (hg : g ≤ 15) (hdvd : ¬10 ^ g ∣ w) :
    onGrid? tie (.finite false significand exponent h) significand exponent g = none := by
  have hunit : 0 < power 2 (-exponent) := power_pos (by decide) _
  have hpow : 10 ^ g ≤ 10 ^ 15 := Nat.pow_le_pow_right (by decide) hg
  have hsplit : 10 ^ g * 10 ^ (16 - g) = 10 ^ 16 := by
    rw [← pow_add]
    congr 1
    omega
  have hpos : 0 < w / 10 ^ g := Nat.div_pos (by omega) (by positivity)
  -- the next point above is `10 ^ 16` at most, since that is a point of every grid
  have habove : (w / 10 ^ g + 1) * 10 ^ g ≤ 10 ^ 16 := by
    have hlt : w / 10 ^ g < 10 ^ (16 - g) := by
      rw [Nat.div_lt_iff_lt_mul (by positivity), mul_comm, hsplit]
      omega
    calc (w / 10 ^ g + 1) * 10 ^ g ≤ 10 ^ (16 - g) * 10 ^ g := by gcongr; omega
      _ = 10 ^ 16 := by rw [mul_comm, hsplit]
  have hbelow : w / 10 ^ g * 10 ^ g ≤ 10 ^ 16 :=
    le_trans (Nat.mul_le_mul_right _ (Nat.le_succ _)) habove
  have hneBelow := nearest_ne_of_not_dvd h hvalue hhigh hdvd hpos hbelow
  have hneAbove := nearest_ne_of_not_dvd h hvalue hhigh hdvd (Nat.succ_pos _) habove
  unfold onGrid?
  rw [onGrid_whole hvalue]
  dsimp only
  rw [Nat.mul_div_mul_right _ _ hunit, if_neg fun hboth => hneBelow hboth.1, if_neg hneAbove]

/-- The binary logarithm of an integer from `10 ^ 15` on is between 49 and 53. -/
theorem log2_add_bounds (hpos : 0 < significand) (hvalue : (significand : ℚ) * 2 ^ exponent = w)
    (hlow : 10 ^ 15 ≤ w) (hhigh : w ≤ 2 ^ 53) :
    49 ≤ (significand.log2 : Int) + exponent ∧ (significand.log2 : Int) + exponent ≤ 53 := by
  have hne : (2 : ℚ) ≠ 0 := by norm_num
  obtain ⟨hlogLow, hlogHigh⟩ := Binary64.cast_log2_bounds hpos
  -- `10 ^ 15` is more than `2 ^ 49`
  have hleast : 49 < (significand.log2 : Int) + 1 + exponent := by
    refine (zpow_lt_zpow_iff_right₀ (a := (2 : ℚ)) (by norm_num)).1 ?_
    calc (2 : ℚ) ^ (49 : Int) < 10 ^ 15 := by norm_num
      _ ≤ w := by exact_mod_cast hlow
      _ = significand * 2 ^ exponent := hvalue.symm
      _ < 2 ^ ((significand.log2 : Int) + 1 + exponent) := by
        rw [zpow_add₀ hne]
        gcongr
  have hmost : (significand.log2 : Int) + exponent ≤ 53 := by
    refine (zpow_le_zpow_iff_right₀ (a := (2 : ℚ)) (by norm_num)).1 ?_
    calc (2 : ℚ) ^ ((significand.log2 : Int) + exponent)
        ≤ significand * 2 ^ exponent := by
          rw [zpow_add₀ hne]
          gcongr
      _ = w := hvalue
      _ ≤ 2 ^ (53 : Int) := by exact_mod_cast hhigh
  omega

/-- Integers from `10 ^ 15` on have sixteen digits. -/
theorem wholeDigits_eq (hpos : 0 < significand) (hvalue : (significand : ℚ) * 2 ^ exponent = w)
    (hlow : 10 ^ 15 ≤ w) (hhigh : w ≤ 2 ^ 53) : wholeDigits significand exponent = 16 := by
  obtain ⟨hlogLow, hlogHigh⟩ := log2_add_bounds hpos hvalue hlow hhigh
  have habove (k : Int) (hk : k ≤ 15) : ¬belowPower significand exponent k = true := by
    rw [belowPower_iff, not_lt, hvalue]
    calc (10 : ℚ) ^ k ≤ 10 ^ (15 : Int) := zpow_le_zpow_right₀ (by norm_num) hk
      _ ≤ w := by exact_mod_cast hlow
  have hbelow : belowPower significand exponent 16 = true := by
    rw [belowPower_iff, hvalue]
    calc (w : ℚ) ≤ 2 ^ 53 := by exact_mod_cast hhigh
      _ < 10 ^ (16 : Int) := by norm_num
  -- the logarithm leaves two estimates, and both are corrected to the same number
  have hestimate : (((significand.log2 + exponent) * 30103).fdiv 100000 = 14) ∨
      (((significand.log2 + exponent) * 30103).fdiv 100000 = 15) := by
    rw [Int.fdiv_eq_ediv_of_nonneg _ (by decide)]
    omega
  unfold wholeDigits
  rcases hestimate with hestimate | hestimate <;> rw [hestimate]
  · dsimp only
    rw [if_neg (habove 14 (by decide)), show (14 : Int) + 1 = 15 from rfl,
      if_neg (habove 15 (by decide)), show (14 : Int) + 2 = 16 from rfl, if_pos hbelow]
  · dsimp only
    rw [if_neg (habove 15 (by decide)), show (15 : Int) + 1 = 16 from rfl, if_pos hbelow]

/-- **The shortest decimal of an integer is the integer itself,** with the zeros at its end moved to
the exponent. -/
theorem shortest_whole (tie : Tie) (h : InRange significand exponent) (hpos : 0 < significand)
    (hvalue : (significand : ℚ) * 2 ^ exponent = w) (hlow : 10 ^ 15 ≤ w) (hhigh : w ≤ 2 ^ 53) :
    ∃ n g : Nat, n * 10 ^ g = w ∧ shortest tie significand exponent = (⟨n, g⟩ : Decimal).strip := by
  let onGrid (n : Nat) : Option Decimal :=
    onGrid? tie (Binary64.ofNormal false significand exponent) significand exponent
      (16 - (n + 1))
  -- the first sixteen grids are those of the powers from 15 down to 0
  have hgrid {n : Nat} (hn : n ∈ List.range 16) :
      onGrid n = onGrid? tie (.finite false significand exponent h) significand exponent
        (15 - n : Nat) := by
    have hle : n ≤ 15 := by have := List.mem_range.1 hn; omega
    show onGrid? tie (Binary64.ofNormal false significand exponent) _ _ (16 - (n + 1)) = _
    rw [Binary64.ofNormal_eq_finite false h, Nat.cast_sub hle]
    congr 1
    push_cast
    ring
  -- every integer lies on the last of them
  have hsome : (List.range 16).findSome? onGrid ≠ none := by
    intro hnone
    have hlast := List.findSome?_eq_none_iff.1 hnone 15 (by decide)
    rw [hgrid (by decide), onGrid?_of_dvd h hpos hvalue (one_dvd w)] at hlast
    cases hlast
  obtain ⟨d, hd⟩ := Option.ne_none_iff_exists'.1 hsome
  have hshortest : shortest tie significand exponent = d.strip := by
    unfold shortest
    dsimp only
    rw [wholeDigits_eq hpos hvalue hlow hhigh, List.range_succ, List.findSome?_append]
    show ((((List.range 16).findSome? onGrid).or _).getD _).strip = _
    rw [hd, Option.some_or, Option.getD_some]
  obtain ⟨n, hn, hfound⟩ := List.exists_of_findSome?_eq_some hd
  rw [hgrid hn] at hfound
  -- and what is found on an earlier one is the integer, too
  by_cases hdvd : 10 ^ (15 - n) ∣ w
  · rw [onGrid?_of_dvd h hpos hvalue hdvd] at hfound
    cases hfound
    exact ⟨_, _, Nat.div_mul_cancel hdvd, hshortest⟩
  · rw [onGrid?_of_not_dvd h hvalue hlow hhigh (Nat.sub_le 15 n) hdvd] at hfound
    cases hfound

end Decimal

/-! ## Whole pixels -/

/-- Whether a number is a given integer. A fractional number without a fraction is one, too. -/
def Number.IsWhole (z : Int) : Number → Prop
  | .int w => w = z
  | .float x => x.value? = some (z : ℚ)

theorem Number.value?_of_isWhole {n : Number} {z : Int} (h : n.IsWhole z)
    (hz : z.natAbs ≤ 2 ^ 53) : n.toBinary64.value? = some (z : ℚ) := by
  cases n with
  | int w =>
    cases h
    exact Binary64.value?_ofInt hz
  | float x => exact h

/-! ### Texts of whole numbers -/

namespace Layout

theorem decimalText_plainNumber (d : Decimal) :
    plainNumber.decimalText d = positionalText false d := by
  unfold decimalText
  exact if_pos rfl

/-- Written in place, an integer has its digits, however many of its zeros are in the exponent. -/
theorem positionalText_strip {n : Nat} (hn : 0 < n) (g : Nat) :
    positionalText false (⟨n, g⟩ : Decimal).strip = Nat.toDigits 10 (n * 10 ^ g) := by
  have hvalue := Decimal.value_strip ⟨n, g⟩
  have hdigits := Decimal.digits_strip_ne_zero (d := ⟨n, g⟩) hn.ne'
  have hexponent : (0 : Int) ≤ (⟨n, g⟩ : Decimal).strip.exponent :=
    le_trans (Int.natCast_nonneg g) (Decimal.exponent_le_exponent_strip ⟨n, g⟩)
  -- of the stripped decimal it only matters that it has the same value and no fraction
  generalize (⟨n, g⟩ : Decimal).strip = d at hvalue hdigits hexponent ⊢
  obtain ⟨m, e⟩ := d
  obtain ⟨k, rfl⟩ := Int.eq_ofNat_of_zero_le hexponent
  have hsame : m * 10 ^ k = n * 10 ^ g := by
    simp only [Decimal.value, zpow_natCast] at hvalue
    exact_mod_cast hvalue
  unfold positionalText
  dsimp only
  rw [if_pos hexponent, if_neg (by decide), List.append_nil, Int.toNat_natCast, ← hsame,
    Decimal.toDigits_mul_ten_pow (Nat.pos_of_ne_zero hdigits)]

end Layout

/-- The sign and the digits of an integer. -/
theorem toString_eq_sign_append {z : Int} (hz : z ≠ 0) {negative : Bool}
    (h : z = if negative then -(z.natAbs : Int) else z.natAbs) :
    toString z = String.ofList (Layout.sign negative ++ Nat.toDigits 10 z.natAbs) := by
  have hnegative : decide (z < 0) = negative := by
    cases negative with
    | false => exact decide_eq_false (by rw [h, if_neg Bool.false_ne_true]; omega)
    | true => exact decide_eq_true (by rw [h, if_pos rfl]; omega)
  rw [← hnegative, ← Decimal.toList_toString, String.ofList_toList]

/-- **From `10 ^ 15` on** the shortest digits of a whole number are all its digits. -/
theorem Binary64.plainText_of_value? {x : Binary64} {z : Int} (h : x.value? = some (z : ℚ))
    (hlow : 10 ^ 15 ≤ z.natAbs) (hhigh : z.natAbs ≤ 2 ^ 53) : x.plainText = toString z := by
  obtain ⟨negative, significand, exponent, hr, rfl, hvalue, hz⟩ := exists_of_value? h
  -- it is not zero, and so there is a shortest decimal
  have hpos : 0 < significand := by
    rcases Nat.eq_zero_or_pos significand with rfl | hpos
    · rw [Nat.cast_zero, zero_mul] at hvalue
      have hzero : 0 = z.natAbs := by exact_mod_cast hvalue
      omega
    · exact hpos
  obtain ⟨n, g, hw, hshortest⟩ := Decimal.shortest_whole .up hr hpos hvalue hlow hhigh
  have hn : 0 < n := by
    rcases Nat.eq_zero_or_pos n with rfl | hn
    · omega
    · exact hn
  rw [toString_eq_sign_append (by omega) hz, ← hw, ← Layout.positionalText_strip hn, ← hshortest]
  unfold plainText Layout.render
  dsimp only
  rw [if_neg hpos.ne', Layout.decimalText_plainNumber]
  rfl

/-- **A whole number of pixels has exactly its digits,** on both sides of `10 ^ 15`. -/
theorem pixelDigits_of_value? {x : Binary64} {z : Int} (h : x.value? = some (z : ℚ))
    (hz : z.natAbs ≤ 2 ^ 53) : pixelDigits x = toString z := by
  unfold pixelDigits
  rw [Binary64.toInt?_of_value? h]
  dsimp only
  rw [show (15 : Int) = (15 : Nat) from rfl, power_natCast]
  -- the one switch on the way, and both sides of it write the same digits
  rcases Nat.lt_or_ge z.natAbs (10 ^ 15) with hlt | hle
  · rw [if_pos hlt]
  · rw [if_neg (not_lt.2 hle), Binary64.plainText_of_value? h hle hz]

theorem px_of_value? {x : Binary64} {z : Int} (h : x.value? = some (z : ℚ))
    (hz : z.natAbs ≤ 2 ^ 53) : px x = toString z ++ "px" := by
  rw [px, pixelDigits_of_value? h hz]

/-! ### Lengths and spacings -/

namespace Theme

/-- A number under a property that counts pixels. -/
theorem transform_pixels (θ : Theme) {property : String} {kind : PropertyKind}
    (hkind : PropertyKind.ofProperty? property = some kind)
    (hpixels : kind = .length ∨ kind = .radius) (n : Number) :
    transform θ property (.number n) = .string (px n.toBinary64) := by
  unfold transform
  rw [hkind]
  rcases hpixels with rfl | rfl <;> rfl

/-- A number under a property that counts units of spacing. -/
theorem transform_spacing (θ : Theme) {property : String}
    (hkind : PropertyKind.ofProperty? property = some .spacing) (n : Number) :
    transform θ property (.number n) = .string (px (θ.pixels n.toBinary64)) := by
  unfold transform
  rw [hkind]
  rfl

/-- **Whole pixel quantities are exact.** An integer of magnitude up to `2 ^ 53` becomes its decimal
digits and `px`, as a length and under every property for lengths or radii. With a whole spacing
unit the same holds of the product of the two, as a spacing and under every property for spacings,
as long as the product is in that range. -/
theorem whole_pixels_exact (θ : Theme) {n : Number} {z : Int} (hn : n.IsWhole z)
    (hz : z.natAbs ≤ 2 ^ 53) :
    ((Value.number n).toLength = .string (toString z ++ "px") ∧
      ∀ property kind, PropertyKind.ofProperty? property = some kind →
        kind = .length ∨ kind = .radius →
          transform θ property (.number n) = .string (toString z ++ "px")) ∧
    ∀ (unit : Binary64) (u : Int), θ.spacing = .unit unit → unit.value? = some (u : ℚ) →
      (z * u).natAbs ≤ 2 ^ 53 →
        θ.space (.number n) = .string (toString (z * u) ++ "px") ∧
        ∀ property, PropertyKind.ofProperty? property = some .spacing →
          transform θ property (.number n) = .string (toString (z * u) ++ "px") := by
  have hvalue := n.value?_of_isWhole hn hz
  have hlength : px n.toBinary64 = toString z ++ "px" := px_of_value? hvalue hz
  refine ⟨⟨congrArg Value.string hlength, ?_⟩, ?_⟩
  · intro property kind hkind hpixels
    rw [transform_pixels θ hkind hpixels, hlength]
  · intro unit u hspacing hunit hproduct
    -- the product is exact, and then it is a whole number of pixels like any other
    have hpixels : θ.pixels n.toBinary64 = n.toBinary64 * unit := by
      rw [pixels, hspacing, Spacing.apply]
    have hspace : px (θ.pixels n.toBinary64) = toString (z * u) ++ "px" := by
      rw [hpixels, px_of_value? (Binary64.value?_mul hvalue hunit hproduct) hproduct]
    refine ⟨congrArg Value.string hspace, fun property hkind => ?_⟩
    rw [transform_spacing θ hkind, hspace]

/-- An integer beyond `10 ^ 15`, and below it a zero product with a sign. -/
theorem whole_pixels_exact_three :
    (Value.number (.int 3000000000000000)).toLength = .string "3000000000000000px" ∧
      transform (build [.spacing (.unit (.ofInt (-3)))]) "padding"
        (.number (.int 3000000000000000)) = .string "-9000000000000000px" ∧
      space (build [.spacing (.unit (.ofInt (-3)))]) (.number (.int 0)) = .string "0px" := by
  have hunit : (Binary64.ofInt (-3)).value? = some ((-3 : Int) : ℚ) :=
    Binary64.value?_ofInt (by decide)
  let θ := build [.spacing (.unit (.ofInt (-3)))]
  have hlarge := whole_pixels_exact θ (n := .int 3000000000000000) rfl (by decide)
  have hzero := whole_pixels_exact θ (n := .int 0) rfl (by decide)
  exact ⟨hlarge.1.1, (hlarge.2 _ _ rfl hunit (by decide)).2 "padding" (by decide),
    (hzero.2 _ _ rfl hunit (by decide)).1⟩

end Theme

end StyleSystem
