/-!
# Binary floating-point numbers

Widths, spacing units and fractional style values are double-precision numbers. A finite one is
`± significand * 2 ^ exponent` in its only normal form (`Binary64.InRange`), so two finite values
are equal exactly when their signs, significands and exponents are. The type has one NaN, and it
keeps the sign of zero.

Scaling by a power of two or ten keeps to naturals if the power is kept as a quotient:
`base ^ exponent` is `power base exponent` over `power base (-exponent)`, and one of the two is 1
(`power_of_nonpos`).

## Arithmetic

Every operation computes its exact result as a quotient of naturals and rounds it once
(`Binary64.round`): to the nearest representable value, a tie going to the even significand, a
result beyond the largest finite value to infinity.

* `divHalfEven` — a quotient rounded to the nearest natural, ties to even.
* `Binary64.round` — the nearest value of a quotient.
* `Binary64.ofInt`, `add`, `mul`, `div`, `neg` — the operations on them.
* `Binary64.toInt?` — the integer that a value is, if it is one.
-/

namespace StyleSystem

/-! ## Powers with signed exponents -/

/-- The numerator of `base ^ exponent`: the power itself, or 1 if the exponent is negative. -/
def power (base : Nat) (exponent : Int) : Nat := Nat.pow base exponent.toNat

theorem power_of_nonpos {base : Nat} {exponent : Int} (h : exponent ≤ 0) :
    power base exponent = 1 := by
  have h' : exponent.toNat = 0 := Int.toNat_eq_zero.2 h
  rw [power, h']
  rfl

theorem power_pos {base : Nat} (h : 0 < base) (exponent : Int) : 0 < power base exponent :=
  Nat.pow_pos h

/-! ## Numbers -/

/-- The quotient rounded to the nearest natural; a quotient halfway between two naturals goes to
the even one. -/
def divHalfEven (num den : Nat) : Nat :=
  let quotient := num / den
  let twice := 2 * (num % den)
  if twice < den ∨ (twice = den ∧ quotient % 2 = 0) then quotient else quotient + 1

/-- **The normal form of a finite value.** The significand fills all 53 bits, unless the exponent
is the least one. -/
def Binary64.InRange (significand : Nat) (exponent : Int) : Prop :=
  significand < power 2 53 ∧ -1074 ≤ exponent ∧ exponent ≤ 971 ∧
    (power 2 52 ≤ significand ∨ exponent = -1074)

instance (significand : Nat) (exponent : Int) :
    Decidable (Binary64.InRange significand exponent) := by
  unfold Binary64.InRange; infer_instance

/-- A double-precision number. -/
inductive Binary64 where
  /-- Not a number. -/
  | nan
  /-- An infinity. -/
  | infinite (negative : Bool)
  /-- The value `± significand * 2 ^ exponent`. -/
  | finite (negative : Bool) (significand : Nat) (exponent : Int)
      (inRange : Binary64.InRange significand exponent)
  deriving DecidableEq, Inhabited

namespace Binary64

/-- Zero with the given sign. -/
def zero (negative : Bool) : Binary64 := .finite negative 0 (-1074) (by decide)

/-- The value `± significand * 2 ^ exponent`, or the infinity of that sign where no finite value
has this normal form. -/
def ofNormal (negative : Bool) (significand : Nat) (exponent : Int) : Binary64 :=
  if h : InRange significand exponent then .finite negative significand exponent h
  else .infinite negative

/-! ### Rounding -/

/-- `num / den < 2 ^ e`, decided on naturals. -/
def quotientBelow (num den : Nat) (e : Int) : Bool :=
  num * power 2 (-e) < den * power 2 e

/-- The exponent of the spacing between the representable values around `num / den`: with it the
quotient has a 53-bit significand, unless it is so small that the least exponent applies. -/
def spacingExponent (num den : Nat) : Int :=
  -- The binary logarithm of the quotient is the estimate or one less.
  let estimate : Int := num.log2 - den.log2
  max (-1074) (if quotientBelow num den estimate then estimate - 53 else estimate - 52)

/-- **The nearest value of `± num / den`,** a tie going to the even significand. -/
def round (negative : Bool) (num den : Nat) : Binary64 :=
  if num = 0 then zero negative
  else
    let exponent := spacingExponent num den
    let significand := divHalfEven (num * power 2 (-exponent)) (den * power 2 exponent)
    -- Rounding up can reach the next power of two, whose significand has one bit more.
    if significand = power 2 53 then ofNormal negative (power 2 52) (exponent + 1)
    else ofNormal negative significand exponent

/-- The nearest value of `± n * 2 ^ e`. -/
def roundScaled (negative : Bool) (n : Nat) (e : Int) : Binary64 :=
  round negative (n * power 2 e) (power 2 (-e))

/-- The nearest value of an integer. -/
def ofInt (z : Int) : Binary64 := round (z < 0) z.natAbs 1

instance (n : Nat) : OfNat Binary64 n := ⟨ofInt n⟩

/-! ### Predicates -/

/-- Neither NaN nor an infinity. -/
def isFinite : Binary64 → Bool
  | .finite .. => true
  | _ => false

/-- Less than zero; neither NaN nor a zero of either sign is. -/
def isBelowZero : Binary64 → Bool
  | .nan => false
  | .infinite negative => negative
  | .finite negative significand _ _ => negative && significand != 0

/-- **Numeric equality.** NaN equals nothing, and the two zeros are equal. -/
def sameNumber : Binary64 → Binary64 → Bool
  | .nan, _ => false
  | .finite _ 0 _ _, .finite _ 0 _ _ => true
  | x, y => x = y

/-- The integer that a value is; none for fractions, infinities and NaN. -/
def toInt? : Binary64 → Option Int
  | .finite negative significand exponent _ =>
    let unit := power 2 (-exponent)
    if significand % unit = 0 then
      let magnitude : Int := (significand / unit * power 2 exponent : Nat)
      some (if negative then -magnitude else magnitude)
    else none
  | _ => none

/-! ### Operations -/

/-- The value with the opposite sign. -/
def neg : Binary64 → Binary64
  | .nan => .nan
  | .infinite negative => .infinite (!negative)
  | .finite negative significand exponent h => .finite (!negative) significand exponent h

/-- The signed significand on a grid with a finer or equal exponent. -/
def onGrid (negative : Bool) (significand : Nat) (exponent grid : Int) : Int :=
  let magnitude : Int := (significand * power 2 (exponent - grid) : Nat)
  if negative then -magnitude else magnitude

/-- The rounded sum. A sum of exactly zero is positive, unless both operands are negative. -/
def add : Binary64 → Binary64 → Binary64
  | .nan, _ | _, .nan => .nan
  | .infinite s, .infinite t => if s = t then .infinite s else .nan
  | .infinite s, .finite .. | .finite .., .infinite s => .infinite s
  | .finite s m e _, .finite t n f _ =>
    let grid := min e f
    let sum := onGrid s m e grid + onGrid t n f grid
    if sum = 0 then zero (s && t) else roundScaled (sum < 0) sum.natAbs grid

/-- The rounded product. Zero times infinity is not a number. -/
def mul : Binary64 → Binary64 → Binary64
  | .nan, _ | _, .nan => .nan
  | .infinite s, .infinite t => .infinite (s ^^ t)
  | .infinite s, .finite t n _ _ | .finite t n _ _, .infinite s =>
    if n = 0 then .nan else .infinite (s ^^ t)
  | .finite s m e _, .finite t n f _ => roundScaled (s ^^ t) (m * n) (e + f)

/-- The rounded quotient. A number other than zero divided by zero is infinite. -/
def div : Binary64 → Binary64 → Binary64
  | .nan, _ | _, .nan => .nan
  | .infinite _, .infinite _ => .nan
  | .infinite s, .finite t _ _ _ => .infinite (s ^^ t)
  | .finite s _ _ _, .infinite t => zero (s ^^ t)
  | .finite s m e _, .finite t n f _ =>
    if n = 0 then if m = 0 then .nan else .infinite (s ^^ t)
    else round (s ^^ t) (m * power 2 (e - f)) (n * power 2 (f - e))

instance : Neg Binary64 := ⟨neg⟩
instance : Add Binary64 := ⟨add⟩
instance : Mul Binary64 := ⟨mul⟩
instance : Div Binary64 := ⟨div⟩

end Binary64

end StyleSystem
