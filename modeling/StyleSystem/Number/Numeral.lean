import Mathlib.Algebra.Ring.Nat
import StyleSystem.Number.Decimal

/-!
# Decimal numerals

The numerals that all number formats write have one shape: digits, then possibly a point and more
digits, then possibly an exponent. `Decimal.read?` reads a `Numeral` behind its sign as the decimal
that the three parts stand for (`Decimal.read?_sign_append_text`).

The digits that `Nat.toDigits 10` writes are read back by `Decimal.natOfDigits`, also with zeros in
front of them. Zeros behind them multiply by powers of ten.
-/

namespace StyleSystem

/-! ## Decimal digits -/

namespace Decimal

/-- **Digits are read back.** -/
theorem natOfDigits_toDigits (n : Nat) : natOfDigits (Nat.toDigits 10 n) = n :=
  Nat.ofDigitChars_ten_toDigits

theorem natOfDigits_replicate_append (k : Nat) (cs : List Char) :
    natOfDigits (List.replicate k '0' ++ cs) = natOfDigits cs := by
  unfold natOfDigits
  rw [Nat.ofDigitChars_append, Nat.ofDigitChars_replicate_zero, Nat.mul_zero]

theorem natOfDigits_append_replicate (cs : List Char) (k : Nat) :
    natOfDigits (cs ++ List.replicate k '0') = natOfDigits cs * 10 ^ k := by
  unfold natOfDigits
  rw [Nat.ofDigitChars_append, Nat.ofDigitChars_replicate_zero, Nat.mul_comm]

/-- The digits of a multiple of a power of ten. -/
theorem toDigits_mul_ten_pow {n : Nat} (hn : 0 < n) (k : Nat) :
    Nat.toDigits 10 (n * 10 ^ k) = Nat.toDigits 10 n ++ List.replicate k '0' := by
  induction k with
  | zero => rw [Nat.pow_zero, Nat.mul_one, List.replicate_zero, List.append_nil]
  | succ k ih =>
    have hpos : 0 < n * 10 ^ k := Nat.mul_pos hn (Nat.pow_pos (by decide))
    have hnext : n * 10 ^ (k + 1) = 10 * (n * 10 ^ k) + 0 := by
      rw [Nat.pow_succ, Nat.add_zero, ← Nat.mul_assoc, Nat.mul_comm]
    rw [hnext, ← Nat.toDigits_append_toDigits (by decide) hpos (by decide), ih, Nat.toDigits_zero,
      List.append_assoc, ← List.replicate_succ']

theorem isDigit_of_mem_toDigits {n : Nat} : ∀ c ∈ Nat.toDigits 10 n, c.isDigit = true :=
  fun _ hc => Nat.isDigit_of_mem_toDigits (by decide) (by decide) hc

theorem isDigit_of_mem_replicate {k : Nat} : ∀ c ∈ List.replicate k '0', c.isDigit = true := by
  intro c hc
  rw [List.eq_of_mem_replicate hc]
  decide

end Decimal

/-! ## Numerals -/

/-- **The parts of a numeral.** Without a fraction there is no point. -/
structure Numeral where
  whole : List Char
  fraction : Option (List Char) := none
  exponent : Option Int := none
  whole_ne_nil : whole ≠ []
  isDigit : ∀ c ∈ whole ++ fraction.getD [], c.isDigit = true

namespace Numeral

/-- The point and the digits behind it. -/
def fractionText (n : Numeral) : List Char := n.fraction.elim [] ('.' :: ·)

/-- The letter and the integer behind it. -/
def exponentText (n : Numeral) : List Char :=
  n.exponent.elim [] fun e => 'e' :: (toString e).toList

/-- **The text of a numeral.** -/
def text (n : Numeral) : List Char := n.whole ++ (n.fractionText ++ n.exponentText)

theorem text_of_no_exponent {whole : List Char} {fraction : Option (List Char)}
    (hne : whole ≠ []) (hdigits : ∀ c ∈ whole ++ fraction.getD [], c.isDigit = true) :
    (⟨whole, fraction, none, hne, hdigits⟩ : Numeral).text =
      whole ++ fraction.elim [] ('.' :: ·) := by
  rw [text, exponentText, Option.elim_none, List.append_nil, fractionText]

/-- A numeral starts with a digit. -/
theorem exists_text_eq_cons (n : Numeral) : ∃ c rest, n.text = c :: rest ∧ c.isDigit = true := by
  obtain ⟨c, rest, hcons⟩ := List.exists_cons_of_ne_nil n.whole_ne_nil
  refine ⟨c, rest ++ (n.fractionText ++ n.exponentText), by rw [text, hcons, List.cons_append], ?_⟩
  exact n.isDigit c (List.mem_append_left _ (by rw [hcons]; exact List.mem_cons_self))

/-- The decimal that a numeral stands for. -/
def decimal (n : Numeral) : Decimal :=
  ⟨Decimal.natOfDigits (n.whole ++ n.fraction.getD []),
    n.exponent.getD 0 - (n.fraction.getD []).length⟩

end Numeral

namespace Decimal

/-! ### Signs -/

/-- A minus is read as the sign, and where a digit comes first there is none. -/
theorem readSign_cons {c : Char} (hc : c.isDigit = true) (negative : Bool) (rest : List Char) :
    readSign (Layout.sign negative ++ c :: rest) = (negative, c :: rest) := by
  cases negative with
  | true => rfl
  | false =>
    show readSign (c :: rest) = _
    unfold readSign
    split
    · rename_i heq
      cases heq
      exact absurd hc (by decide)
    · rename_i heq
      cases heq
      exact absurd hc (by decide)
    · rfl

/-- The text of an integer is a sign and digits. -/
theorem toList_toString (e : Int) :
    (toString e).toList = Layout.sign (decide (e < 0)) ++ Nat.toDigits 10 e.natAbs := by
  cases e with
  | ofNat n =>
    show (Nat.repr n).toList = _
    have hn : ¬Int.ofNat n < 0 := Int.not_lt.2 (Int.natCast_nonneg n)
    rw [Nat.toList_repr, decide_eq_false hn]
    rfl
  | negSucc n =>
    show ("-" ++ Nat.repr n.succ).toList = _
    rw [String.toList_append, Nat.toList_repr, decide_eq_true (Int.negSucc_lt_zero n)]
    rfl

/-! ### Reading numerals -/

/-- **An exponent is read back.** -/
theorem readExponent?_exponentText (n : Numeral) :
    readExponent? n.exponentText = some (n.exponent.getD 0) := by
  unfold Numeral.exponentText
  cases n.exponent with
  | none => rfl
  | some e =>
    obtain ⟨c, rest, hdigits⟩ :=
      List.exists_cons_of_ne_nil (Nat.toDigits_ne_nil (n := e.natAbs) (b := 10))
    have hall : ∀ d ∈ c :: rest, d.isDigit = true := hdigits ▸ isDigit_of_mem_toDigits
    have hc : c.isDigit = true := hall c List.mem_cons_self
    show readExponent? ('e' :: (toString e).toList) = some e
    rw [toList_toString, hdigits]
    unfold readExponent?
    dsimp only
    rw [readSign_cons hc]
    dsimp only
    rw [if_pos ⟨.inl rfl, List.cons_ne_nil _ _, List.all_eq_true.2 hall⟩, ← hdigits,
      natOfDigits_toDigits]
    congr 1
    -- the magnitude with the sign that was read
    by_cases he : e < 0
    · rw [decide_eq_true he, if_pos rfl]
      omega
    · rw [decide_eq_false he, if_neg (by decide)]
      omega

/-- No digit and no point stands at the start of an exponent. -/
theorem head?_exponentText (n : Numeral) : ∀ c ∈ n.exponentText.head?, c = 'e' := by
  unfold Numeral.exponentText
  cases n.exponent with
  | none => exact nofun
  | some e => exact fun c hc => (Option.some_inj.1 hc).symm

theorem takeWhile_isDigit_append {ds rest : List Char} (hds : ∀ c ∈ ds, c.isDigit = true)
    (hrest : ∀ c ∈ rest.head?, c.isDigit = false) :
    (ds ++ rest).takeWhile Char.isDigit = ds ∧ (ds ++ rest).dropWhile Char.isDigit = rest := by
  rw [List.takeWhile_append_of_pos hds, List.dropWhile_append_of_pos hds]
  cases rest with
  | nil => exact ⟨List.append_nil ds, rfl⟩
  | cons c rest =>
    have hc : ¬c.isDigit = true := by
      rw [hrest c rfl]
      decide
    rw [List.takeWhile_cons_of_neg hc, List.dropWhile_cons_of_neg hc]
    exact ⟨List.append_nil ds, rfl⟩

/-- **A numeral is read as the decimal that it stands for,** with the sign in front of it. -/
theorem read?_sign_append_text (negative : Bool) (n : Numeral) :
    read? (Layout.sign negative ++ n.text) = some (negative, n.decimal) := by
  have hwhole : ∀ c ∈ n.whole, c.isDigit = true := fun c hc =>
    n.isDigit c (List.mem_append_left _ hc)
  have hfraction : ∀ c ∈ n.fraction.getD [], c.isDigit = true := fun c hc =>
    n.isDigit c (List.mem_append_right _ hc)
  have hexponent : ∀ c ∈ n.exponentText.head?, c.isDigit = false := by
    intro c hc
    rw [head?_exponentText n c hc]
    decide
  have hpoint : ∀ c ∈ (n.fractionText ++ n.exponentText).head?, c.isDigit = false := by
    unfold Numeral.fractionText
    cases n.fraction with
    | none => exact hexponent
    | some fraction =>
      intro c hc
      cases hc
      decide
  have hsign : readSign (Layout.sign negative ++ n.text) = (negative, n.text) := by
    obtain ⟨c, rest, hcons, hc⟩ := n.exists_text_eq_cons
    rw [hcons]
    exact readSign_cons hc negative rest
  obtain ⟨htake, hdrop⟩ := takeWhile_isDigit_append hwhole hpoint
  let result (fraction : List Char) (exponent : Int) : Bool × Decimal :=
    (negative, ⟨natOfDigits (n.whole ++ fraction), exponent - fraction.length⟩)
  unfold read?
  rw [hsign]
  dsimp only
  unfold Numeral.text
  rw [htake, hdrop]
  cases hn : n.fraction with
  | some fraction =>
    -- the point stands behind the whole digits
    rw [hn] at hfraction
    obtain ⟨htakeFraction, hdropFraction⟩ := takeWhile_isDigit_append hfraction hexponent
    rw [Option.getD_some] at htakeFraction hdropFraction
    have htail : n.fractionText ++ n.exponentText = '.' :: (fraction ++ n.exponentText) := by
      rw [Numeral.fractionText, hn]
      rfl
    rw [htail, if_neg fun h => n.whole_ne_nil h.1]
    show (readExponent? ((fraction ++ n.exponentText).dropWhile Char.isDigit)).map
      (result ((fraction ++ n.exponentText).takeWhile Char.isDigit)) = _
    rw [htakeFraction, hdropFraction, readExponent?_exponentText, Numeral.decimal, hn]
    rfl
  | none =>
    -- the exponent does, and its letter is no point
    have htail : n.fractionText ++ n.exponentText = n.exponentText := by
      rw [Numeral.fractionText, hn]
      rfl
    have hread := readExponent?_exponentText n
    have hhead := head?_exponentText n
    rw [htail, if_neg fun h => n.whole_ne_nil h.1, Numeral.decimal, hn]
    cases hcons : n.exponentText with
    | nil =>
      rw [hcons] at hread
      show (readExponent? []).map (result []) = _
      rw [hread]
      rfl
    | cons c rest =>
      rw [hcons] at hread hhead
      cases hhead c rfl
      show (readExponent? ('e' :: rest)).map (result []) = _
      rw [hread]
      rfl

end Decimal

end StyleSystem
