import StyleSystem.Text.Bytes
import StyleSystem.Theme.Config
import StyleSystem.Theme.Order

/-!
# Themes of configurations

What a configuration makes is settled (`Theme.ofConfig_outcome`): its first fault if it has one, and
otherwise the theme with its widths and its unit. A theme that is made is valid, and its widths are
in order from any tier to any larger one, although only neighbours are compared.

Both searches for a fault go through a list in ascending order, the one of names and the one of
neighbouring tiers, so what they stop at is the least one (`least_of_find?`).

* `unknownName?_eq_some`, `known_of_unknownName?` — what the search through the names finds.
* `firstDecrease?_eq_some`, `ordered_of_firstDecrease?` — what the search through the tiers finds.
* `build_steps` — the theme whose tiers these are has the widths of the configuration.
* `Config.makes_ofConfig`, `Config.Makes.eq` — a configuration makes what it should, and nothing
  else.
-/

namespace StyleSystem

/-!
## What a configuration makes

A configuration makes a theme, or it has a fault, and the faults have an order: a name that no tier
has, then widths that decrease, then a unit that is none (`Config.Makes`). The widths of a
configuration are those of all five tiers, a tier that it leaves out having its default width, so a
single width can be at fault with the default width of either neighbour.
-/

/-- **A number that is no spacing unit.** A zero is one, with either sign. -/
inductive Spacing.InvalidUnit : Binary64 → Prop where
  | nan : InvalidUnit .nan
  | infinite (negative : Bool) : InvalidUnit (.infinite negative)
  | negative {significand : Nat} {exponent : Int} (h : Binary64.InRange significand exponent)
      (hpos : 0 < significand) : InvalidUnit (.finite true significand exponent h)

namespace Config

/-- The names with a width. -/
def names (c : Config) : List String := Entries.keys c.widths.entries

/-- The width of a tier: the one of its name, or the default width of the tier. -/
def width (c : Config) (t : Tier) : UInt32 :=
  (Entries.find? t.name c.widths.entries).getD t.defaultWidth

/-- All names are those of tiers. -/
def Known (c : Config) : Prop := ∀ name ∈ c.names, ∃ t : Tier, t.name = name

/-- **The unknown name that is the least one in the order of bytes.** -/
structure LeastUnknown (c : Config) (name : String) : Prop where
  mem : name ∈ c.names
  unknown : ∀ t : Tier, t.name ≠ name
  least : ∀ other ∈ c.names, (∀ t : Tier, t.name ≠ other) → other ≠ name →
    Text.bytes name < Text.bytes other

/-- **What a configuration makes:** the first of three faults, or a theme with its widths, the
default rule and its unit. -/
inductive Makes (c : Config) : Except ThemeError Theme → Prop where
  /-- There is a name that no tier has. -/
  | unknownTier {name : String} (unknown : c.LeastUnknown name) :
      Makes c (.error (.unknownTier name))
  /-- All names are known, and the widths decrease. -/
  | unordered {a b : Tier} (known : c.Known) (first : Tier.FirstDecrease c.width a b) :
      Makes c (.error (.unordered a (c.width a) b (c.width b)))
  /-- All names are known, the widths do not decrease, and the unit is none. -/
  | invalidSpacing {unit : Binary64} (known : c.Known) (ordered : Tier.Ordered c.width)
      (given : c.spacing = some unit) (invalid : Spacing.InvalidUnit unit) :
      Makes c (.error (.invalidSpacing unit))
  /-- There is no fault. -/
  | theme {θ : Theme} (known : c.Known) (ordered : Tier.Ordered c.width)
      (valid : ∀ unit, c.spacing = some unit → ¬Spacing.InvalidUnit unit)
      (width : ∀ t, θ.breakpoints.width t = c.width t) (rule : θ.breakpoints.rule = none)
      (spacing : θ.spacing = .unit (c.spacing.getD Spacing.defaultUnit)) : Makes c (.ok θ)

end Config

/-! ## The outcome -/

/-- What is found in an ascending list comes before everything else that could have been found. -/
theorem least_of_find? {α : Type} {R : α → α → Prop} {p : α → Bool} {xs : List α}
    (hxs : xs.Pairwise R) {x : α} (h : xs.find? p = some x) {y : α} (hy : y ∈ xs)
    (hpy : p y = true) : y = x ∨ R x y := by
  obtain ⟨-, before, after, rfl, hbefore⟩ := List.find?_eq_some_iff_append.1 h
  rw [List.pairwise_append, List.pairwise_cons] at hxs
  rw [List.mem_append, List.mem_cons] at hy
  rcases hy with hy | rfl | hy
  · have hnot := hbefore y hy
    rw [hpy] at hnot
    cases hnot
  · exact .inl rfl
  · exact .inr (hxs.2.1.1 y hy)

/-! ### Names -/

namespace Config

variable {c : Config}

/-- The names are searched in the order of their bytes, so the first unknown one is the least. -/
theorem unknownName?_eq_some {name : String} (h : c.unknownName? = some name) :
    c.LeastUnknown name := by
  obtain ⟨⟨name, width⟩, hfind, rfl⟩ := Option.map_eq_some_iff.1 h
  refine ⟨Entries.mem_keys_of_mem (List.mem_of_find?_eq_some hfind), ?unknown, ?least⟩
  case unknown =>
    rintro t rfl
    have hunknown := List.find?_some hfind
    rw [Tier.isName_name] at hunknown
    cases hunknown
  case least =>
    intro other hmem hother hne
    obtain ⟨w, hw⟩ := Entries.exists_mem_of_mem_keys hmem
    have hunknown : (!Tier.isName other) = true := by
      rw [Bool.not_eq_true', ← Bool.not_eq_true]
      intro hname
      obtain ⟨t, ht⟩ := Tier.exists_name_eq hname
      exact hother t ht
    -- the search meets the names in ascending order, so that it has found the least one
    rcases least_of_find? c.widths.ascending hfind hw hunknown with heq | hlt
    · cases heq
      exact absurd rfl hne
    · exact Text.bytes_lt_iff.2 hlt

/-- If the search finds nothing, there is a tier for each name. -/
theorem known_of_unknownName? (h : c.unknownName? = none) : c.Known := by
  intro name hmem
  obtain ⟨w, hw⟩ := Entries.exists_mem_of_mem_keys hmem
  have hknown := List.find?_eq_none.1 (Option.map_eq_none_iff.1 h) _ hw
  exact Tier.exists_name_eq (by simpa using hknown)

theorem LeastUnknown.not_known {name : String} (h : c.LeastUnknown name) : ¬c.Known := by
  intro hknown
  obtain ⟨t, ht⟩ := hknown name h.mem
  exact h.unknown t ht

/-- There is no more than one least unknown name. -/
theorem LeastUnknown.eq {name other : String} (h : c.LeastUnknown name)
    (h' : c.LeastUnknown other) : name = other := by
  by_contra hne
  have hlt := h.least other h'.mem h'.unknown (Ne.symm hne)
  exact List.lt_asymm hlt (h'.least name h.mem h.unknown hne)

end Config

/-! ### Widths -/

/-- A tier is known by its name. -/
theorem Tier.name_injective {s t : Tier} (h : s.name = t.name) : s = t := by
  have hname := congrArg Tier.ofName? h
  rwa [Tier.ofName?_name, Tier.ofName?_name, Option.some_inj] at hname

/-- Setting the widths of entries with different names gives each tier the width at its name. -/
theorem Theme.foldl_width (es : Entries UInt32) (hes : (Entries.keys es).Nodup) (θ : Theme) :
    (es.filterMap fun e => (Tier.ofName? e.1).map fun t => Step.width t e.2).foldl apply θ =
      { θ with
        breakpoints :=
          { θ.breakpoints with
            width := fun t => (Entries.find? t.name es).getD (θ.breakpoints.width t) } } := by
  induction es generalizing θ with
  | nil => rfl
  | cons e es ih =>
    obtain ⟨name, width⟩ := e
    rw [Entries.keys_cons, List.nodup_cons] at hes
    cases hname : Tier.ofName? name with
    | none =>
      -- no tier asks for this name
      have hne (t : Tier) : name ≠ t.name := by
        rintro rfl
        rw [Tier.ofName?_name] at hname
        cases hname
      rw [List.filterMap_cons_none (by rw [hname, Option.map_none]), ih hes.2 θ]
      simp only [Entries.find?, if_neg (hne _)]
    | some s =>
      obtain rfl : s.name = name := by simpa using List.find?_some hname
      rw [List.filterMap_cons_some (by rw [hname, Option.map_some]), List.foldl_cons, ih hes.2]
      have hwidth (t : Tier) :
          (Entries.find? t.name es).getD (if t = s then width else θ.breakpoints.width t) =
            (Entries.find? t.name ((s.name, width) :: es)).getD (θ.breakpoints.width t) := by
        by_cases hts : t = s
        · -- the name does not come again
          subst hts
          rw [Entries.find?_eq_none hes.1, if_pos rfl, Entries.find?, if_pos rfl]
          rfl
        · have hne : s.name ≠ t.name := fun h => hts (Tier.name_injective h).symm
          rw [if_neg hts, Entries.find?, if_neg hne]
      exact congrArg
        (fun w => { θ with breakpoints := { θ.breakpoints with width := w } }) (funext hwidth)

namespace Config

theorem nodup_names (c : Config) : c.names.Nodup := by
  refine List.pairwise_map.2 (c.widths.ascending.imp ?_)
  intro e f hlt heq
  rw [heq] at hlt
  exact String.lt_irrefl _ hlt

/-- The theme with the settings of a configuration. -/
theorem build_steps (c : Config) :
    Theme.build c.steps =
      { breakpoints := { width := c.width, rule := none },
        spacing := .unit (c.spacing.getD Spacing.defaultUnit) } := by
  unfold Theme.build steps widthSteps
  rw [List.foldl_append, Theme.foldl_width _ c.nodup_names]
  cases c.spacing with
  | none => rfl
  | some unit => rfl

/-- A theme with the widths and the unit of a configuration is the one that its settings build. -/
theorem eq_build_steps {c : Config} {θ : Theme} (hwidth : ∀ t, θ.breakpoints.width t = c.width t)
    (hrule : θ.breakpoints.rule = none)
    (hspacing : θ.spacing = .unit (c.spacing.getD Spacing.defaultUnit)) :
    θ = Theme.build c.steps := by
  obtain ⟨⟨width, rule⟩, spacing⟩ := θ
  obtain rfl : width = c.width := funext hwidth
  obtain rfl : rule = none := hrule
  rw [build_steps, ← hspacing]

end Config

/-! ### The order of widths -/

namespace Tier

variable {width : Tier → UInt32}

/-- The tiers with their next ones, the smallest first. -/
def neighbours : List (Tier × Tier) := all.zip all.tail

theorem mem_neighbours {a b : Tier} : (a, b) ∈ neighbours ↔ a.IsNext b := by
  cases a <;> cases b <;> decide

theorem ascending_neighbours : neighbours.Pairwise fun p q => p.1 < q.1 := by decide

/-- The search for a decrease goes through the neighbours of a list. -/
theorem firstDecrease?_eq_find? (ts : List Tier) :
    firstDecrease? (ts.map fun t => (t, width t)) =
      ((ts.zip ts.tail).find? fun p => width p.2 < width p.1).map fun p =>
        .unordered p.1 (width p.1) p.2 (width p.2) := by
  induction ts with
  | nil => rfl
  | cons a ts ih =>
    cases ts with
    | nil => rfl
    | cons b ts =>
      rw [List.map_cons, List.map_cons, firstDecrease?, List.tail_cons, List.zip_cons_cons,
        List.find?_cons]
      by_cases hlt : width b < width a
      · rw [if_pos hlt, decide_eq_true hlt]
        rfl
      · rw [if_neg hlt, decide_eq_false hlt]
        exact ih

/-- The search finds the first decrease, since it meets neighbouring tiers in ascending order. -/
theorem firstDecrease?_eq_some {e : ThemeError}
    (h : firstDecrease? (all.map fun t => (t, width t)) = some e) :
    ∃ a b, FirstDecrease width a b ∧ e = .unordered a (width a) b (width b) := by
  rw [firstDecrease?_eq_find?] at h
  obtain ⟨⟨a, b⟩, hfind, rfl⟩ := Option.map_eq_some_iff.1 h
  refine ⟨a, b, ⟨?next, ?decrease, ?before⟩, rfl⟩
  case next => exact mem_neighbours.1 (List.mem_of_find?_eq_some hfind)
  case decrease => simpa using List.find?_some hfind
  case before =>
    intro a' b' hnext hlt
    by_contra hle
    have hdecrease : decide (width b' < width a') = true := decide_eq_true (UInt32.not_le.1 hle)
    have hleast := least_of_find? ascending_neighbours hfind (mem_neighbours.2 hnext) hdecrease
    rcases hleast with heq | hgt
    · cases heq
      exact lt_irrefl _ hlt
    · exact lt_asymm hlt hgt

/-- If the search finds nothing, the widths are in order. -/
theorem ordered_of_firstDecrease? (h : firstDecrease? (all.map fun t => (t, width t)) = none) :
    Ordered width := by
  rw [firstDecrease?_eq_find?, Option.map_eq_none_iff, List.find?_eq_none] at h
  intro a b hnext
  have hnot := h (a, b) (mem_neighbours.2 hnext)
  exact UInt32.not_lt.1 (by simpa using hnot)

end Tier

/-! ### Units -/

namespace Spacing

/-- The test of the code tells the invalid units. -/
theorem invalidUnit_iff {u : Binary64} :
    InvalidUnit u ↔ (u.isFinite && !u.isBelowZero) = false := by
  constructor
  · intro h
    cases h with
    | nan => rfl
    | infinite negative => rfl
    | negative h hpos => simpa [Binary64.isFinite, Binary64.isBelowZero] using Nat.ne_of_gt hpos
  · intro h
    cases u with
    | nan => exact .nan
    | infinite negative => exact .infinite negative
    | finite negative significand exponent inRange =>
      obtain ⟨rfl, hne⟩ : negative = true ∧ significand ≠ 0 := by
        simpa [Binary64.isFinite, Binary64.isBelowZero] using h
      exact .negative inRange (Nat.pos_of_ne_zero hne)

theorem fault?_unit_eq_some {u : Binary64} {e : ThemeError} (h : (unit u).fault? = some e) :
    InvalidUnit u ∧ e = .invalidSpacing u := by
  unfold fault? at h
  dsimp only at h
  split at h
  · cases h
  · rename_i hunit
    cases h
    exact ⟨invalidUnit_iff.2 (Bool.eq_false_iff.2 hunit), rfl⟩

theorem not_invalidUnit_of_fault? {u : Binary64} (h : (unit u).fault? = none) :
    ¬InvalidUnit u := by
  intro hinvalid
  unfold fault? at h
  dsimp only at h
  rw [invalidUnit_iff.1 hinvalid] at h
  cases h

theorem not_invalidUnit_defaultUnit : ¬InvalidUnit defaultUnit :=
  not_invalidUnit_of_fault? (by decide)

end Spacing

/-! ### What a configuration makes -/

namespace Config

variable {c : Config}

/-- **A configuration makes what the code gives:** the three tests stand in the order of the faults.
-/
theorem makes_ofConfig (c : Config) : c.Makes (Theme.ofConfig c) := by
  unfold Theme.ofConfig
  cases hname : c.unknownName? with
  | some name => exact .unknownTier (unknownName?_eq_some hname)
  | none =>
    have hknown := known_of_unknownName? hname
    dsimp only
    -- the tiers of the theme have the widths of the configuration
    rw [build_steps, Theme.fault?]
    cases hdecrease : firstDecrease? (Tier.all.map fun t => (t, c.width t)) with
    | some e =>
      obtain ⟨a, b, hfirst, rfl⟩ := Tier.firstDecrease?_eq_some hdecrease
      rw [Breakpoints.toList, hdecrease]
      exact .unordered hknown hfirst
    | none =>
      have hordered := Tier.ordered_of_firstDecrease? hdecrease
      rw [Breakpoints.toList, hdecrease, Option.none_or]
      cases hfault : (Spacing.unit (c.spacing.getD Spacing.defaultUnit)).fault? with
      | some e =>
        obtain ⟨hinvalid, rfl⟩ := Spacing.fault?_unit_eq_some hfault
        cases hspacing : c.spacing with
        | none =>
          -- the unit that stands in for a missing one is valid
          rw [hspacing] at hinvalid
          exact absurd hinvalid Spacing.not_invalidUnit_defaultUnit
        | some unit =>
          rw [hspacing] at hinvalid
          exact .invalidSpacing hknown hordered hspacing hinvalid
      | none =>
        refine .theme hknown hordered ?_ (fun _ => rfl) rfl rfl
        intro unit hunit
        rw [hunit] at hfault
        exact Spacing.not_invalidUnit_of_fault? hfault

/-- A configuration makes one thing only. -/
theorem Makes.eq {r r' : Except ThemeError Theme} (h : c.Makes r) (h' : c.Makes r') : r = r' := by
  -- each outcome denies a fault that an earlier one has, so both are of one kind
  cases h with
  | unknownTier hunknown =>
    cases h' with
    | unknownTier hunknown' => rw [hunknown.eq hunknown']
    | unordered hknown | invalidSpacing hknown | theme hknown =>
      exact absurd hknown hunknown.not_known
  | unordered hknown hfirst =>
    cases h' with
    | unknownTier hunknown => exact absurd hknown hunknown.not_known
    | unordered _ hfirst' =>
      obtain ⟨rfl, rfl⟩ := hfirst.eq hfirst'
      rfl
    | invalidSpacing _ hordered | theme _ hordered => exact absurd hordered hfirst.not_ordered
  | invalidSpacing hknown hordered hgiven hinvalid =>
    cases h' with
    | unknownTier hunknown => exact absurd hknown hunknown.not_known
    | unordered _ hfirst => exact absurd hordered hfirst.not_ordered
    | invalidSpacing _ _ hgiven' =>
      obtain rfl := Option.some_inj.1 (hgiven.symm.trans hgiven')
      rfl
    | theme _ _ hvalid => exact absurd hinvalid (hvalid _ hgiven)
  | theme hknown hordered hvalid hwidth hrule hspacing =>
    cases h' with
    | unknownTier hunknown => exact absurd hknown hunknown.not_known
    | unordered _ hfirst => exact absurd hordered hfirst.not_ordered
    | invalidSpacing _ _ hgiven hinvalid => exact absurd hinvalid (hvalid _ hgiven)
    | theme _ _ _ hwidth' hrule' hspacing' =>
      rw [eq_build_steps hwidth hrule hspacing, eq_build_steps hwidth' hrule' hspacing']

end Config

/-- A theme that is made passes the test of valid themes, too. -/
theorem Theme.fault?_eq_none_of_ofConfig {c : Config} {θ : Theme} (h : Theme.ofConfig c = .ok θ) :
    θ.fault? = none := by
  unfold Theme.ofConfig at h
  split at h
  · cases h
  · dsimp only at h
    split at h
    · cases h
    · cases h
      assumption

/-- **Configurations are accepted exactly if they are valid, and otherwise refused for their first
fault.** An accepted one has its widths in order and makes a valid theme. -/
theorem Theme.ofConfig_outcome (c : Config) :
    (∀ r, Theme.ofConfig c = r ↔ c.Makes r) ∧
      ∀ θ, Theme.ofConfig c = .ok θ →
        (∀ a b : Tier, a < b → c.width a ≤ c.width b) ∧ θ.fault? = none := by
  refine ⟨fun r => ⟨?_, fun h => c.makes_ofConfig.eq h⟩, fun θ hθ => ?_⟩
  · rintro rfl
    exact c.makes_ofConfig
  · have hmakes := c.makes_ofConfig
    rw [hθ] at hmakes
    cases hmakes with
    | theme _ hordered =>
      exact ⟨fun a b hab => hordered.le_of_lt hab, Theme.fault?_eq_none_of_ofConfig hθ⟩

/-- A configuration with two widths and a unit of its own. -/
def compactConfig : Config where
  spacing := some 4
  widths := ⟨[("md", 768), ("sm", 640)], by decide⟩

/-- A configuration whose only width is less than the default width of the tier before. -/
def narrowConfig : Config where
  widths := ⟨[("lg", 100)], by decide⟩

theorem Theme.ofConfig_outcome_compact :
    (∃ θ, Theme.ofConfig compactConfig = .ok θ ∧
      (∀ a b : Tier, a < b → compactConfig.width a ≤ compactConfig.width b) ∧ θ.fault? = none) ∧
    narrowConfig.Makes (.error (.unordered .md 900 .lg 100)) :=
  ⟨⟨_, rfl, (Theme.ofConfig_outcome compactConfig).2 _ rfl⟩,
    ((Theme.ofConfig_outcome narrowConfig).1 _).1 rfl⟩

end StyleSystem
