import StyleSystem.Number.Binary64

/-!
# Decimal numbers

A number in double precision is read from a decimal and written as one.

* `Decimal.nearest` — the nearest double-precision value of a decimal `digits * 10 ^ exponent`.
* `Decimal.read?` — the reader of decimal numerals, which takes an optional sign, digits with at most
  one point among or around them, and an optional exponent.
* `Decimal.shortest` — the decimal with the fewest digits that denotes a number.
* `Layout.render` — the text of a number in some format, with its shortest digits.
-/

namespace StyleSystem

/-! ## Decimals and their numerals -/

/-- The value `digits * 10 ^ exponent`. -/
structure Decimal where
  digits : Nat
  exponent : Int
  deriving DecidableEq, Repr

namespace Decimal

/-! ### The nearest value -/

/-- The same value without zeros at the end of the digits. -/
def strip (d : Decimal) : Decimal :=
  if d.digits ≠ 0 ∧ d.digits % 10 = 0 then strip ⟨d.digits / 10, d.exponent + 1⟩ else d
termination_by d.digits
decreasing_by omega

/-- The nearest value of a decimal without zeros at the end. -/
def nearestStripped (negative : Bool) (d : Decimal) : Binary64 :=
  if d.digits = 0 then .zero negative
  -- The next two cases spare a large power of ten: from `10 ^ 400` on every value is infinite, and
  -- below `10 ^ (-400)` it is zero.
  else if 400 < d.exponent then .infinite negative
  else if d.exponent + (d.digits.log2 + 1) < -400 then .zero negative
  else .round negative (d.digits * power 10 d.exponent) (power 10 (-d.exponent))

/-- **The nearest double-precision value of `± d`.** -/
def nearest (negative : Bool) (d : Decimal) : Binary64 := nearestStripped negative d.strip

/-! ### Reading -/

/-- The natural that a run of decimal digits denotes. -/
def natOfDigits (cs : List Char) : Nat := Nat.ofDigitChars 10 cs 0

/-- The sign in front of a numeral, `+` and no sign being positive, and the rest. -/
def readSign : List Char → Bool × List Char
  | '-' :: rest => (true, rest)
  | '+' :: rest => (false, rest)
  | rest => (false, rest)

/-- The exponent that ends a numeral: nothing, or `e`, an optional sign and digits. -/
def readExponent? : List Char → Option Int
  | [] => some 0
  | c :: rest =>
    let (negative, digits) := readSign rest
    if (c = 'e' ∨ c = 'E') ∧ digits ≠ [] ∧ digits.all Char.isDigit then
      some (if negative then -(natOfDigits digits : Int) else natOfDigits digits)
    else none

/-- **The sign and the value of a decimal numeral.** The point may be missing, and so may the
digits on one of its sides. -/
def read? (cs : List Char) : Option (Bool × Decimal) :=
  let (negative, unsigned) := readSign cs
  let whole := unsigned.takeWhile Char.isDigit
  let (fraction, rest) := match unsigned.dropWhile Char.isDigit with
    | '.' :: rest => (rest.takeWhile Char.isDigit, rest.dropWhile Char.isDigit)
    | rest => ([], rest)
  if whole = [] ∧ fraction = [] then none
  else
    (readExponent? rest).map fun exponent =>
      (negative, ⟨natOfDigits (whole ++ fraction), exponent - fraction.length⟩)

end Decimal

/-- The double-precision value nearest to a decimal numeral. -/
def Binary64.read? (cs : List Char) : Option Binary64 :=
  (Decimal.read? cs).map fun (negative, d) => d.nearest negative

/-!
## The shortest decimal of a number

`shortest tie significand exponent` is the decimal with the fewest digits whose nearest
double-precision value is `significand * 2 ^ exponent`; of two such decimals with equally many
digits it is the one closer to that value, and the format decides an exact tie (`Tie`).

The search takes one, two, … seventeen digits. For each count it tries the two points of that
decimal grid around the value, so it needs no arithmetic but that of naturals. What it returns
always denotes the value again: a point of a grid is returned only if it does, and where no grid
has one the value itself is written out, which is a decimal because 2 divides 10.
-/

/-- Which of two equally close decimals of equal length is taken. -/
inductive Tie where
  /-- The larger one. -/
  | up
  /-- The one whose last digit is even. -/
  | even
  deriving DecidableEq, Repr

namespace Decimal

/-- `significand * 2 ^ exponent`, written out. -/
def exact (significand : Nat) (exponent : Int) : Decimal :=
  ⟨significand * power 2 exponent * power 5 (-exponent), min exponent 0⟩

/-- `significand * 2 ^ exponent < 10 ^ k`, decided on naturals. -/
def belowPower (significand : Nat) (exponent k : Int) : Bool :=
  significand * power 2 exponent * power 10 (-k) < power 10 k * power 2 (-exponent)

/-- The number of digits before the point: the least `k` with `significand * 2 ^ exponent <
10 ^ k`. The estimate from the binary logarithm is never above it and short of it by three at
most. -/
def wholeDigits (significand : Nat) (exponent : Int) : Int :=
  let estimate := ((significand.log2 + exponent) * 30103).fdiv 100000
  if belowPower significand exponent estimate then estimate
  else if belowPower significand exponent (estimate + 1) then estimate + 1
  else if belowPower significand exponent (estimate + 2) then estimate + 2
  else estimate + 3

/-- The value as a quotient of naturals in units of `10 ^ grid`. -/
def onGrid (significand : Nat) (exponent grid : Int) : Nat × Nat :=
  (significand * power 2 exponent * power 10 (-grid), power 10 grid * power 2 (-exponent))

/-- The point of the grid `10 ^ grid` that denotes the value: of the two points around it the
closer, if both do. -/
def onGrid? (tie : Tie) (value : Binary64) (significand : Nat) (exponent grid : Int) :
    Option Decimal :=
  let (num, den) := onGrid significand exponent grid
  let below : Decimal := ⟨num / den, grid⟩
  let above : Decimal := ⟨num / den + 1, grid⟩
  let twice := 2 * (num % den)
  -- The value is closer to the point above it, or in the middle with the tie going up.
  let pointsUp := den < twice ∨
    (twice = den ∧ (tie = .up ∨ below.digits % 2 = 1))
  if below.nearest false = value ∧ (above.nearest false = value → ¬ pointsUp) then some below
  else if above.nearest false = value then some above
  else none

/-- **The shortest decimal that denotes `significand * 2 ^ exponent`.** -/
def shortest (tie : Tie) (significand : Nat) (exponent : Int) : Decimal :=
  let value := Binary64.ofNormal false significand exponent
  let k := wholeDigits significand exponent
  let found := (List.range 17).findSome? fun (n : Nat) =>
    onGrid? tie value significand exponent (k - (n + 1))
  (found.getD (exact significand exponent)).strip

end Decimal

/-!
## Number formats

A `Layout` holds the decisions of a format that writes numbers with their shortest digits: which
exponents are written positionally, whether whole numbers keep a `.0`, which way a tie of digits
goes, and how the values that have no digits are spelled. `Layout.render` writes a number in it.
-/

/-- The decisions of a number format. -/
structure Layout where
  /-- The exponents of the leading digit for which the digits are written positionally. -/
  positional : Int → Bool
  /-- Whether a whole number written positionally ends in `.0`. -/
  pointZero : Bool
  /-- The choice between two shortest decimals equally close to the value. -/
  tie : Tie
  /-- The text of NaN. -/
  nan : String
  /-- The text of infinity. -/
  infinity : String

namespace Layout

/-- The digits of `d` with the point in its place; `d` stands for at least one digit. -/
def positionalText (pointZero : Bool) (d : Decimal) : List Char :=
  let digits := Nat.toDigits 10 d.digits
  let whole : Int := digits.length + d.exponent
  if 0 ≤ d.exponent then
    -- a whole number
    digits ++ List.replicate d.exponent.toNat '0' ++ (if pointZero then ['.', '0'] else [])
  -- the point among the digits, or zeros between it and them
  else if 0 < whole then digits.take whole.toNat ++ '.' :: digits.drop whole.toNat
  else '0' :: '.' :: (List.replicate (-whole).toNat '0' ++ digits)

/-- The digits of `d` with the point after the first one, if more follow, and an exponent. -/
def exponentText (d : Decimal) : List Char :=
  let digits := Nat.toDigits 10 d.digits
  let exponent : Int := digits.length + d.exponent - 1
  digits.take 1 ++ (if digits.length = 1 then [] else '.' :: digits.drop 1) ++
    'e' :: (toString exponent).toList

/-- The digits of `d` in the form that its size asks for. -/
def decimalText (layout : Layout) (d : Decimal) : List Char :=
  let leading : Int := (Nat.toDigits 10 d.digits).length + d.exponent - 1
  if layout.positional leading then positionalText layout.pointZero d else exponentText d

/-- The sign in front of a number. -/
def sign (negative : Bool) : List Char := if negative then ['-'] else []

/-- **The text of a number.** -/
def render (layout : Layout) : Binary64 → List Char
  | .nan => layout.nan.toList
  | .infinite negative => sign negative ++ layout.infinity.toList
  | .finite negative significand exponent _ =>
    sign negative ++
      if significand = 0 then if layout.pointZero then ['0', '.', '0'] else ['0']
      else layout.decimalText (.shortest layout.tie significand exponent)

end Layout

end StyleSystem
