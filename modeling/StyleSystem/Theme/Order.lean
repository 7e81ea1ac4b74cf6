import Mathlib.Data.Nat.Basic
import Mathlib.Order.Lattice
import StyleSystem.Theme.Basic

/-!
# The order of tiers

The tiers are in a linear order, that of their positions. The widths of a theme should follow it:

* `Tier.IsNext` — a tier and the next larger one.
* `Tier.Ordered` — widths that do not decrease from a tier to the next one, and so not at all
  (`Tier.Ordered.le_of_lt`).
* `Tier.FirstDecrease` — where widths first decrease.

Where they increase with every tier, the media queries of the default rule tell the tiers apart
(`Theme.blockKey_injective`).
-/

namespace StyleSystem

namespace Tier

theorem index_injective : Function.Injective index := by
  intro a b h
  cases a <;> cases b <;> first | rfl | cases h

/-- **Tiers are ordered** as their positions are. -/
instance : LinearOrder Tier := LinearOrder.lift' index index_injective

/-! ### The next tier -/

/-- A tier and the next larger one. -/
def IsNext (smaller larger : Tier) : Prop := larger.index = smaller.index + 1

instance (a b : Tier) : Decidable (IsNext a b) :=
  inferInstanceAs (Decidable (b.index = a.index + 1))

/-- There is a next tier wherever there is a larger one, and it is at most that one. -/
theorem exists_isNext {a b : Tier} (h : a < b) : ∃ next, a.IsNext next ∧ next ≤ b := by
  cases a with
  | xs => exact ⟨sm, rfl, h⟩
  | sm => exact ⟨md, rfl, h⟩
  | md => exact ⟨lg, rfl, h⟩
  | lg => exact ⟨xl, rfl, h⟩
  | xl => cases b <;> exact absurd h (by decide)

theorem IsNext.right_unique {a b b' : Tier} (h : a.IsNext b) (h' : a.IsNext b') : b = b' :=
  index_injective (h.trans h'.symm)

/-! ### Widths in order -/

/-- Widths of which none is less than that of the tier before it. -/
def Ordered (width : Tier → UInt32) : Prop :=
  ∀ a b : Tier, a.IsNext b → width a ≤ width b

/-- **The first decrease of widths,** from a tier to the next one. -/
structure FirstDecrease (width : Tier → UInt32) (smaller larger : Tier) : Prop where
  next : smaller.IsNext larger
  decrease : width larger < width smaller
  before : ∀ a b : Tier, a.IsNext b → a < smaller → width a ≤ width b

variable {width : Tier → UInt32}

/-- **Widths that do not decrease from one tier to the next do not decrease at all.** -/
theorem Ordered.le_of_lt (h : Ordered width) {a b : Tier} (hab : a < b) : width a ≤ width b := by
  -- one tier up from below, and the distance to the larger tier decreases
  obtain ⟨next, hnext, hle⟩ := exists_isNext hab
  rcases hle.lt_or_eq with hlt | rfl
  · calc width a ≤ width next := h a next hnext
      _ ≤ width b := h.le_of_lt hlt
  · exact h a next hnext
termination_by b.index - a.index
decreasing_by
  have hindex : next.index = a.index + 1 := hnext
  have hlt : next.index < b.index := hlt
  omega

/-- Widths that decrease somewhere are not in order. -/
theorem FirstDecrease.not_ordered {a b : Tier} (h : FirstDecrease width a b) : ¬Ordered width :=
  fun hordered => UInt32.not_lt.2 (hordered a b h.next) h.decrease

/-- Widths decrease nowhere before the first decrease. -/
theorem FirstDecrease.not_before {a b a' b' : Tier} (h : FirstDecrease width a b)
    (h' : FirstDecrease width a' b') : ¬a < a' :=
  fun hlt => UInt32.not_lt.2 (h'.before a b h.next hlt) h.decrease

/-- So there is no other first decrease. -/
theorem FirstDecrease.eq {a b a' b' : Tier} (h : FirstDecrease width a b)
    (h' : FirstDecrease width a' b') : a = a' ∧ b = b' := by
  obtain rfl : a = a' := le_antisymm (not_lt.1 (h'.not_before h)) (not_lt.1 (h.not_before h'))
  exact ⟨rfl, h.next.right_unique h'.next⟩

end Tier

/-! ### Media queries -/

/-- Every media query starts with an at sign, which tells it from tiers and properties. -/
theorem head?_mediaRule (t : Tier) (width : UInt32) :
    (mediaRule t width).toList.head? = some '@' := by
  have hhead : "@media (min-width:".toList.head? = some '@' := by decide
  unfold mediaRule
  -- the digits of the width are left opaque, or the rewriting computes them
  generalize toString width.toNat = digits
  rw [String.toList_append, String.toList_append, List.head?_append, List.head?_append, hhead,
    Option.some_or, Option.some_or]

theorem isName_mediaRule (t : Tier) (width : UInt32) :
    Tier.isName (mediaRule t width) = false := by
  -- no tier starts as a media query does
  have hnames : ∀ u ∈ Tier.all, u.name.toList.head? ≠ some '@' := by decide
  rw [← Tier.ofName?_eq_none_iff, Tier.ofName?, List.find?_eq_none]
  intro u hu hname
  refine hnames u hu ?_
  rw [of_decide_eq_true hname, head?_mediaRule]

/-- A media query shows the width in it. -/
theorem mediaRule_injective {s t : Tier} {v w : UInt32} (h : mediaRule s v = mediaRule t w) :
    v = w := by
  unfold mediaRule at h
  have hdigits : v.toNat.repr = w.toNat.repr :=
    (String.append_right_inj _).1 ((String.append_left_inj _).1 h)
  -- a number can be read back from its digits
  have hread : ∀ n : Nat, Nat.ofDigitChars 10 n.repr.toList 0 = n := fun n => by
    rw [Nat.toList_repr, Nat.ofDigitChars_ten_toDigits]
  refine UInt32.toNat_inj.1 ?_
  rw [← hread v.toNat, hdigits, hread]

/-- Without a rule of its own, a theme names its blocks by media queries. -/
theorem Theme.blockKey_of_rule_eq_none {θ : Theme} (h : θ.breakpoints.rule = none) (t : Tier) :
    θ.blockKey t = mediaRule t (θ.breakpoints.width t) := by
  rw [blockKey, Breakpoints.blockKey, h, Option.getD_none]

/-- Tiers of different widths have different media queries. -/
theorem Theme.blockKey_injective {θ : Theme} (hrule : θ.breakpoints.rule = none)
    (hwidths : ∀ s t : Tier, s < t → θ.breakpoints.width s < θ.breakpoints.width t) {s t : Tier}
    (h : θ.blockKey s = θ.blockKey t) : s = t := by
  rw [blockKey_of_rule_eq_none hrule, blockKey_of_rule_eq_none hrule] at h
  have hwidth := mediaRule_injective h
  rcases lt_trichotomy s t with hlt | heq | hlt
  · exact absurd hwidth (UInt32.ne_of_lt (hwidths s t hlt))
  · exact heq
  · exact absurd hwidth.symm (UInt32.ne_of_lt (hwidths t s hlt))

theorem Theme.default_width_lt : ∀ s t : Tier, s < t →
    Theme.default.breakpoints.width s < Theme.default.breakpoints.width t := by
  intro s t
  cases s <;> cases t <;> decide

end StyleSystem
