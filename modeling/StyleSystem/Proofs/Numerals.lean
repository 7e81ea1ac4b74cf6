import StyleSystem.Number.Decimal
import StyleSystem.Number.Numeral
import StyleSystem.Proofs.Rounding

/-!
# Numbers are read back

Whatever a format decides, a finite number that is written in it is read as the same number, the
sign of zero included (`Layout.read?_render`).

Where the point stands, and how large the exponent is, changes a decimal only by zeros at its end
(`Layout.exists_numeral`), and rounding takes these off first. What is left is the shortest decimal,
which denotes the number.
-/

namespace StyleSystem

open Binary64 (InRange)
open Decimal (isDigit_of_mem_toDigits isDigit_of_mem_replicate)

/-- Zero has the least exponent only. -/
theorem Binary64.finite_zero_eq (negative : Bool) {exponent : Int} (h : InRange 0 exponent) :
    Binary64.finite negative 0 exponent h = .zero negative := by
  have hexponent : exponent = -1074 := by
    rcases h.2.2.2 with hnormal | hleast
    · exact absurd hnormal (by decide +kernel)
    · exact hleast
  subst hexponent
  rfl

/-- A decimal without digits denotes zero. -/
theorem Decimal.nearest_of_digits_eq_zero {d : Decimal} (hd : d.digits = 0) (negative : Bool) :
    d.nearest negative = .zero negative := by
  have hstrip : d.strip = d := strip_of_not fun hne => hne.1 hd
  rw [nearest, hstrip, nearestStripped, if_pos hd]

theorem Decimal.digits_shortest_ne_zero (tie : Tie) {significand : Nat} {exponent : Int}
    (h : InRange significand exponent) (hpos : 0 < significand) :
    (shortest tie significand exponent).digits ≠ 0 := by
  intro hzero
  have hnearest := nearest_shortest false tie h hpos
  rw [nearest_of_digits_eq_zero hzero, Binary64.zero] at hnearest
  injection hnearest with _ hsignificand
  omega

namespace Layout

variable (layout : Layout)

/-! ### The numeral of a decimal -/

/-- Written in place, an integer has zeros behind its digits, and possibly a fraction of zero. -/
theorem exists_numeral_whole {m : Nat} (hm : m ≠ 0) (k : Nat) (pointZero : Bool) :
    ∃ n : Numeral, positionalText pointZero ⟨m, k⟩ = n.text ∧
      n.decimal.strip = (⟨m, k⟩ : Decimal).strip := by
  have hdigits : ∀ c ∈ Nat.toDigits 10 m ++ List.replicate k '0', c.isDigit = true := by
    intro c hc
    rcases List.mem_append.1 hc with hc | hc
    · exact isDigit_of_mem_toDigits c hc
    · exact isDigit_of_mem_replicate c hc
  have hne : Nat.toDigits 10 m ++ List.replicate k '0' ≠ [] :=
    List.append_ne_nil_of_left_ne_nil Nat.toDigits_ne_nil _
  cases pointZero with
  | false =>
    -- zeros fill the places in front of the point
    let n : Numeral := ⟨_, none, none, hne, by simpa using hdigits⟩
    have hdecimal : n.decimal = ⟨m * 10 ^ k, k - k⟩ := by
      rw [Numeral.decimal]
      dsimp only [n]
      rw [Option.getD_none, List.append_nil, Decimal.natOfDigits_append_replicate,
        Decimal.natOfDigits_toDigits, sub_self]
      rfl
    exact ⟨n, rfl, by rw [hdecimal, Decimal.strip_mul_ten_pow hm]⟩
  | true =>
    -- one zero more stands behind the point
    let n : Numeral := ⟨_, some ['0'], none, hne, by
      intro c hc
      rcases List.mem_append.1 hc with hc | hc
      · exact hdigits c hc
      · exact isDigit_of_mem_replicate (k := 1) c hc⟩
    have hdecimal : n.decimal = ⟨m * 10 ^ (k + 1), k - (k + 1 : Nat)⟩ := by
      rw [Numeral.decimal]
      dsimp only [n]
      rw [Option.getD_some, List.append_assoc, ← List.replicate_succ',
        Decimal.natOfDigits_append_replicate, Decimal.natOfDigits_toDigits]
      congr 1
      rw [Option.getD_none, List.length_singleton]
      omega
    exact ⟨n, rfl, by rw [hdecimal, Decimal.strip_mul_ten_pow hm]⟩

/-- Written in place, a fraction has the point among its digits, or zeros in front of them. -/
theorem exists_numeral_fraction {m : Nat} {e : Int} (he : ¬0 ≤ e) (pointZero : Bool) :
    ∃ n : Numeral, positionalText pointZero ⟨m, e⟩ = n.text ∧ n.decimal = ⟨m, e⟩ := by
  have hlength : 0 < (Nat.toDigits 10 m).length := Nat.length_toDigits_pos
  unfold positionalText
  dsimp only
  rw [if_neg he]
  by_cases hwhole : 0 < ((Nat.toDigits 10 m).length : Int) + e
  · -- the point stands among the digits
    rw [if_pos hwhole]
    let k := (((Nat.toDigits 10 m).length : Int) + e).toNat
    refine ⟨⟨(Nat.toDigits 10 m).take k, some ((Nat.toDigits 10 m).drop k), none, ?_, ?_⟩, ?_, ?_⟩
    · -- there is one in front of it
      intro hnil
      rcases List.take_eq_nil_iff.1 hnil with h | h
      · omega
      · exact Nat.toDigits_ne_nil h
    · -- and without it they are all there
      rw [Option.getD_some, List.take_append_drop]
      exact isDigit_of_mem_toDigits
    · rw [Numeral.text_of_no_exponent]
      rfl
    · rw [Numeral.decimal]
      dsimp only
      rw [Option.getD_some, List.take_append_drop, Decimal.natOfDigits_toDigits, List.length_drop,
        Option.getD_none]
      congr 1
      omega
  · -- all digits stand behind the point, and zeros fill the places between
    rw [if_neg hwhole]
    let k := (-(((Nat.toDigits 10 m).length : Int) + e)).toNat
    refine ⟨⟨['0'], some (List.replicate k '0' ++ Nat.toDigits 10 m), none,
      List.cons_ne_nil _ _, ?_⟩, ?_, ?_⟩
    · rw [Option.getD_some]
      intro c hc
      rcases List.mem_append.1 hc with hc | hc
      · exact isDigit_of_mem_replicate (k := 1) c hc
      · rcases List.mem_append.1 hc with hc | hc
        · exact isDigit_of_mem_replicate c hc
        · exact isDigit_of_mem_toDigits c hc
    · rw [Numeral.text_of_no_exponent]
      rfl
    · rw [Numeral.decimal]
      dsimp only
      rw [Option.getD_some, show (['0'] : List Char) = List.replicate 1 '0' from rfl,
        Decimal.natOfDigits_replicate_append, Decimal.natOfDigits_replicate_append,
        Decimal.natOfDigits_toDigits, List.length_append, List.length_replicate, Option.getD_none]
      congr 1
      omega

/-- With an exponent, the point stands behind the first digit if there are more. -/
theorem exists_numeral_exponent (m : Nat) (e : Int) :
    ∃ n : Numeral, exponentText ⟨m, e⟩ = n.text ∧ n.decimal = ⟨m, e⟩ := by
  have hdigits : ∀ c ∈ Nat.toDigits 10 m, c.isDigit = true := isDigit_of_mem_toDigits
  have hm := Decimal.natOfDigits_toDigits m
  unfold exponentText
  dsimp only
  obtain ⟨first, rest, hcons⟩ :=
    List.exists_cons_of_ne_nil (Nat.toDigits_ne_nil (n := m) (b := 10))
  rw [hcons] at hdigits hm ⊢
  -- a single digit has no point behind it
  cases rest with
  | nil =>
    refine ⟨⟨[first], none, some _, List.cons_ne_nil _ _, ?_⟩, rfl, ?_⟩
    · rw [Option.getD_none, List.append_nil]
      exact hdigits
    · rw [Numeral.decimal]
      dsimp only
      rw [Option.getD_none, List.append_nil, hm, Option.getD_some, List.length_singleton,
        List.length_nil]
      congr 1
      omega
  | cons second rest =>
    let exponent : Int := (first :: second :: rest).length + e - 1
    refine ⟨⟨[first], some (second :: rest), some exponent, List.cons_ne_nil _ _, hdigits⟩, ?_, ?_⟩
    · rw [if_neg (by rw [List.length_cons, List.length_cons]; omega)]
      rfl
    · rw [Numeral.decimal]
      dsimp only
      rw [Option.getD_some, List.singleton_append, hm, Option.getD_some]
      dsimp only [exponent]
      rw [List.length_cons, List.length_cons]
      congr 1
      omega

/-- **A decimal is written as a numeral** that differs from it by zeros at the end. -/
theorem exists_numeral {d : Decimal} (hd : d.digits ≠ 0) :
    ∃ n : Numeral, layout.decimalText d = n.text ∧ n.decimal.strip = d.strip := by
  obtain ⟨m, e⟩ := d
  have hsame {text : List Char} (h : ∃ n : Numeral, text = n.text ∧ n.decimal = ⟨m, e⟩) :
      ∃ n : Numeral, text = n.text ∧ n.decimal.strip = (⟨m, e⟩ : Decimal).strip := by
    obtain ⟨n, htext, hdecimal⟩ := h
    exact ⟨n, htext, by rw [hdecimal]⟩
  unfold decimalText
  dsimp only
  split
  · by_cases he : 0 ≤ e
    · obtain ⟨k, rfl⟩ := Int.eq_ofNat_of_zero_le he
      exact exists_numeral_whole hd k layout.pointZero
    · exact hsame (exists_numeral_fraction he layout.pointZero)
  · exact hsame (exists_numeral_exponent m e)

/-! ### The numeral of a number -/

/-- **A finite number is written as a sign and a numeral that denotes it.** -/
theorem exists_numeral_render {x : Binary64} (hx : x.isFinite = true) :
    ∃ (negative : Bool) (n : Numeral),
      layout.render x = sign negative ++ n.text ∧ n.decimal.nearest negative = x := by
  cases x with
  | nan => cases hx
  | infinite => cases hx
  | finite negative significand exponent h =>
    refine ⟨negative, ?_⟩
    rcases Nat.eq_zero_or_pos significand with rfl | hpos
    · -- zero has no shortest digits and is written out by itself
      rw [Binary64.finite_zero_eq]
      have hzero (n : Numeral) (hn : n.decimal.digits = 0) :
          n.decimal.nearest negative = .zero negative :=
        Decimal.nearest_of_digits_eq_zero hn negative
      show ∃ n : Numeral, sign negative ++ (if layout.pointZero then ['0', '.', '0'] else ['0']) =
        sign negative ++ n.text ∧ _
      cases layout.pointZero with
      | true =>
        have htwo : ∀ c ∈ ['0', '0'], c.isDigit = true := isDigit_of_mem_replicate (k := 2)
        exact ⟨⟨['0'], some ['0'], none, List.cons_ne_nil _ _, htwo⟩, rfl, hzero _ rfl⟩
      | false =>
        have hone : ∀ c ∈ ['0'], c.isDigit = true := isDigit_of_mem_replicate (k := 1)
        exact ⟨⟨['0'], none, none, List.cons_ne_nil _ _, hone⟩, rfl, hzero _ rfl⟩
    · -- the shortest digits are read as they are, and their value is rounded back
      have hdigits := Decimal.digits_shortest_ne_zero layout.tie h hpos
      obtain ⟨n, htext, hstrip⟩ := layout.exists_numeral hdigits
      refine ⟨n, ?_, ?_⟩
      · rw [render, if_neg hpos.ne', htext]
      · rw [Decimal.nearest, hstrip]
        exact Decimal.nearest_shortest negative layout.tie h hpos

/-- **A finite number is read back,** in whatever format it was written. -/
theorem read?_render {x : Binary64} (hx : x.isFinite = true) :
    Binary64.read? (layout.render x) = some x := by
  obtain ⟨negative, n, hrender, hnearest⟩ := layout.exists_numeral_render hx
  have hread : Decimal.read? (sign negative ++ n.text) = some (negative, n.decimal) :=
    Decimal.read?_sign_append_text negative n
  rw [Binary64.read?, hrender, hread, ← hnearest]
  rfl

end Layout

end StyleSystem
