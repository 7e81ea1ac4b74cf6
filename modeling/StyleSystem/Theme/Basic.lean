import StyleSystem.Number.Binary64
import StyleSystem.Number.Decimal
import StyleSystem.Value

/-!
# Themes

A theme is a table of breakpoints and a spacing scale. It is built from the built-in theme by
setting one part after the other; `Theme.Step` is one such setting as a value, and `Theme.build`
runs a list of them.

* `Tier` — the tiers of viewport widths.
* `Breakpoints` — the least width of each tier, and the keys of conditional blocks.
* `Spacing` — what a multiplier is in pixels.
* `px` — a number as a length.
-/

namespace StyleSystem

/-!
## Viewport tiers

The five tiers of viewport widths, the smallest first. The smallest one, the base tier, is
unconditional: what a style says for it stands outside every conditional block.
-/

/-- A tier of viewport widths. -/
inductive Tier where
  | xs | sm | md | lg | xl
  deriving DecidableEq, Repr, Inhabited

namespace Tier

/-- The tiers, the smallest first. -/
def all : List Tier := [xs, sm, md, lg, xl]

theorem mem_all (t : Tier) : t ∈ all := by cases t <;> decide

/-- The unconditional tier. -/
def base : Tier := xs

/-- The name of a tier, which is its key in style objects. -/
def name : Tier → String
  | xs => "xs"
  | sm => "sm"
  | md => "md"
  | lg => "lg"
  | xl => "xl"

/-- The tier with a name. Case matters. -/
def ofName? (s : String) : Option Tier := all.find? fun t => t.name = s

/-- Whether a text names a tier. -/
def isName (s : String) : Bool := (ofName? s).isSome

theorem ofName?_name (t : Tier) : ofName? t.name = some t := by cases t <;> decide

theorem ofName?_eq_none_iff {s : String} : ofName? s = none ↔ isName s = false := by
  simp [isName]

theorem isName_name (t : Tier) : isName t.name = true := by simp [isName, ofName?_name]

theorem exists_name_eq {s : String} (h : isName s = true) : ∃ t : Tier, t.name = s := by
  obtain ⟨t, ht⟩ := Option.isSome_iff_exists.1 h
  exact ⟨t, by simpa using List.find?_some ht⟩

/-- Whether a tier is the unconditional one. -/
def isBase (t : Tier) : Bool := t = base

/-- The position of a tier, counted from the smallest. -/
def index : Tier → Nat
  | xs => 0
  | sm => 1
  | md => 2
  | lg => 3
  | xl => 4

instance : LT Tier := ⟨fun s t => s.index < t.index⟩

instance (s t : Tier) : Decidable (s < t) := inferInstanceAs (Decidable (s.index < t.index))

/-- The tiers smaller than a tier. -/
def below (t : Tier) : List Tier := all.filter fun s => s < t

/-- The least viewport width of a tier in pixels, unless a theme sets another one. -/
def defaultWidth : Tier → UInt32
  | xs => 0
  | sm => 600
  | md => 900
  | lg => 1200
  | xl => 1536

end Tier

/-!
## Breakpoints

`Breakpoints` gives each tier its least viewport width and has the rule that turns a tier and its
width into the key of a conditional block. The default rule makes media queries.
-/

/-- The key of the conditional block of a tier, made from the tier and its least width. -/
abbrev BlockRule := Tier → UInt32 → String

/-- The default rule, a media query on the least width. -/
def mediaRule (_ : Tier) (width : UInt32) : String :=
  "@media (min-width:" ++ toString width.toNat ++ "px)"

/-- The least width of every tier, and the rule for block keys, if it is not the default one. -/
structure Breakpoints where
  width : Tier → UInt32 := Tier.defaultWidth
  rule : Option BlockRule := none

namespace Breakpoints

/-- The built-in widths and the default rule. -/
def default : Breakpoints := {}

instance : Inhabited Breakpoints := ⟨default⟩

/-- Sets the least width of one tier. -/
def withWidth (b : Breakpoints) (tier : Tier) (width : UInt32) : Breakpoints :=
  { b with width := fun t => if t = tier then width else b.width t }

/-- Sets the rule for block keys. -/
def withRule (b : Breakpoints) (rule : BlockRule) : Breakpoints := { b with rule := some rule }

/-- The key of the block for a tier and all larger ones. -/
def blockKey (b : Breakpoints) (tier : Tier) : String := b.rule.getD mediaRule tier (b.width tier)

/-- The tiers with their widths, the smallest first. -/
def toList (b : Breakpoints) : List (Tier × UInt32) := Tier.all.map fun t => (t, b.width t)

end Breakpoints

/-!
## The spacing scale

Spacing values are multipliers. A scale turns them into pixels: with a unit it multiplies, and a
scale may as well be any function.
-/

/-- A spacing scale. -/
inductive Spacing where
  /-- Multiplies by a unit in pixels. -/
  | unit (u : Binary64)
  /-- Applies a function. -/
  | custom (f : Binary64 → Binary64)

namespace Spacing

/-- The unit of the built-in scale in pixels. -/
def defaultUnit : Binary64 := 8

/-- The built-in scale. -/
def default : Spacing := .unit defaultUnit

instance : Inhabited Spacing := ⟨default⟩

/-- The pixels of a multiplier. -/
def apply : Spacing → Binary64 → Binary64
  | .unit u, n => n * u
  | .custom f, n => f n

end Spacing

/-!
## Lengths

A number becomes a length by `px`: whole quantities below `10 ^ 15` are written as integers, others
in plain decimal digits. A value that is no number is a length already (`Value.toLength`).
-/

/-- Numbers in lengths and messages: the shortest digits that denote the number, always positional
and without a point if there is nothing after it. -/
def plainNumber : Layout where
  positional := fun _ => true
  pointZero := false
  tie := .up
  nan := "NaN"
  infinity := "inf"

/-- The text of a number in plain digits. -/
def Binary64.plainText (x : Binary64) : String := .ofList (plainNumber.render x)

/-- A pixel quantity without its unit. A whole quantity below `10 ^ 15` is an integer, so that
negative zero has no sign. -/
def pixelDigits (x : Binary64) : String :=
  match x.toInt? with
  | some z => if z.natAbs < power 10 15 then toString z else x.plainText
  | none => x.plainText

/-- **A pixel quantity as a length.** -/
def px (x : Binary64) : String := pixelDigits x ++ "px"

/-- A number as a pixel length; any other value unchanged. -/
def Value.toLength (v : Value) : Value :=
  match v.toBinary64? with
  | some x => .string (px x)
  | none => v

/-! ## Themes -/

/-- The breakpoints and the spacing scale that styles are resolved with. -/
structure Theme where
  breakpoints : Breakpoints := .default
  spacing : Spacing := .default

namespace Theme

/-- The built-in theme. -/
def default : Theme := {}

instance : Inhabited Theme := ⟨default⟩

/-! ### Settings -/

/-- Sets the spacing scale. -/
def withSpacing (θ : Theme) (spacing : Spacing) : Theme := { θ with spacing }

/-- Sets all breakpoints, their rule included. -/
def withBreakpoints (θ : Theme) (breakpoints : Breakpoints) : Theme := { θ with breakpoints }

/-- Sets the least width of one tier. -/
def withWidth (θ : Theme) (tier : Tier) (width : UInt32) : Theme :=
  { θ with breakpoints := θ.breakpoints.withWidth tier width }

/-- Sets the rule for the keys of conditional blocks. -/
def withRule (θ : Theme) (rule : BlockRule) : Theme :=
  { θ with breakpoints := θ.breakpoints.withRule rule }

/-- One setting of a theme. -/
inductive Step where
  /-- Sets the spacing scale. -/
  | spacing (scale : Spacing)
  /-- Sets all breakpoints, their rule included. -/
  | breakpoints (table : Breakpoints)
  /-- Sets the least width of one tier. -/
  | width (tier : Tier) (width : UInt32)
  /-- Sets the rule for the keys of conditional blocks. -/
  | rule (rule : BlockRule)

/-- The theme after one setting. -/
def apply (θ : Theme) : Step → Theme
  | .spacing scale => θ.withSpacing scale
  | .breakpoints table => θ.withBreakpoints table
  | .width tier width => θ.withWidth tier width
  | .rule rule => θ.withRule rule

/-- The built-in theme after a list of settings. -/
def build (steps : List Step) : Theme := steps.foldl apply default

/-- The themes that a list of settings runs through, from `θ` on. -/
def history (θ : Theme) : List Step → List Theme
  | [] => [θ]
  | step :: steps => θ :: history (θ.apply step) steps

/-! ### Use -/

/-- The pixels of a spacing value. -/
def pixels (θ : Theme) (n : Binary64) : Binary64 := θ.spacing.apply n

/-- The key of the conditional block for a tier and all larger ones. -/
def blockKey (θ : Theme) (tier : Tier) : String := θ.breakpoints.blockKey tier

/-- A spacing value as a length: numbers go through the spacing scale, any other value is a length
already. -/
def space (θ : Theme) (v : Value) : Value :=
  match v.toBinary64? with
  | some n => .string (px (θ.pixels n))
  | none => v

end Theme

end StyleSystem
