import Mathlib.Data.List.DropRight
import StyleSystem.Theme.Basic

/-!
# Runs of settings

A run of settings leaves each field of a theme as the last setting that writes it has it, and
nothing else of the run shows. So two neighbouring settings that write different fields may change
places.

The proof goes through the run from its end. One more setting either writes a field, and then it is
the last one to do so, or leaves the field alone. Both sides say this in the same words: the theme
with `spacing_apply`, `width_apply` and `rule_apply`, the last settings with `lastScale_concat`,
`lastWidth_concat` and `lastRule?_concat`. The case that needs care is a table of breakpoints: it
makes every earlier width and rule irrelevant at once, which `sinceTable` says by becoming empty.
-/

namespace StyleSystem.Theme

/-!
## Fields of themes

A theme has a spacing scale, a rule for block keys and a width for each tier. Every setting writes
one of these fields, except a table of breakpoints, which writes the rule and all widths together
(`Theme.Step.fields`).

`Theme.IsLastWritten` says what a run of settings leaves without running it: each field as the last
setting that writes it has it, and the built-in value where none does.
-/

/-- A part of a theme that settings write as a whole. -/
inductive Field where
  | spacing
  | rule
  | width (tier : Tier)
  deriving DecidableEq, Repr

namespace Step

/-- The fields that a setting writes. -/
def fields : Step → List Field
  | .spacing _ => [.spacing]
  | .breakpoints _ => .rule :: Tier.all.map .width
  | .width tier _ => [.width tier]
  | .rule _ => [.rule]

theorem width_mem_fields (table : Breakpoints) (tier : Tier) :
    Field.width tier ∈ (Step.breakpoints table).fields :=
  List.mem_cons_of_mem _ (List.mem_map_of_mem tier.mem_all)

/-- **Two settings that write different fields,** or the widths of different tiers. -/
def Independent (a b : Step) : Prop := ∀ f ∈ a.fields, f ∉ b.fields

instance (a b : Step) : Decidable (Independent a b) :=
  inferInstanceAs (Decidable (∀ f ∈ a.fields, f ∉ b.fields))

/-! ### What a setting holds -/

/-- The spacing scale that a setting sets. -/
def scale? : Step → Option Spacing
  | .spacing scale => some scale
  | _ => none

/-- The table of breakpoints that a setting sets. -/
def table? : Step → Option Breakpoints
  | .breakpoints table => some table
  | _ => none

/-- The width that a setting of this one tier sets. -/
def widthOf? (t : Tier) : Step → Option UInt32
  | .width tier w => if t = tier then some w else none
  | _ => none

/-- The rule that a setting of the rule alone sets. -/
def rule? : Step → Option BlockRule
  | .rule r => some r
  | _ => none

end Step

/-! ### The last settings of a run -/

/-- The last one of the values that the settings of a run hold. -/
def last? {α : Type} (held? : Step → Option α) (steps : List Step) : Option α :=
  (steps.filterMap held?).getLast?

/-- The settings after the last table of breakpoints; all of them if there is no table. -/
def sinceTable (steps : List Step) : List Step := steps.rtakeWhile fun s => s.table?.isNone

/-- The last spacing scale, or the built-in one. -/
def lastScale (steps : List Step) : Spacing := (last? Step.scale? steps).getD .default

/-- The last width of a tier since the last table, or else its width in that table, or else its
built-in width. -/
def lastWidth (steps : List Step) (t : Tier) : UInt32 :=
  (last? (Step.widthOf? t) (sinceTable steps)).getD
    ((last? Step.table? steps).elim t.defaultWidth fun table => table.width t)

/-- The last rule since the last table, or else the rule of that table, if it has one. -/
def lastRule? (steps : List Step) : Option BlockRule :=
  (last? Step.rule? (sinceTable steps)).or
    ((last? Step.table? steps).bind fun table => table.rule)

/-- **A theme that has each field from the last setting that writes it.** The key of a block comes
from the last rule and the last width of the tier, whichever of them was set first. -/
structure IsLastWritten (steps : List Step) (θ : Theme) : Prop where
  spacing : θ.spacing = lastScale steps
  width : ∀ t, θ.breakpoints.width t = lastWidth steps t
  rule : θ.breakpoints.rule = lastRule? steps
  blockKey : ∀ t, θ.blockKey t = (lastRule? steps).getD mediaRule t (lastWidth steps t)

/-! ## The last settings -/

/-! ### One more setting -/

/-- A setting at the end is the last one to hold something, if it does. -/
theorem last?_concat {α : Type} (held? : Step → Option α) (steps : List Step) (s : Step) :
    last? held? (steps ++ [s]) = (held? s).or (last? held? steps) := by
  unfold last?
  rw [List.filterMap_append]
  cases h : held? s with
  | none => rw [List.filterMap_cons_none h, List.filterMap_nil, List.append_nil, Option.none_or]
  | some a =>
    rw [List.filterMap_cons_some h, List.filterMap_nil, List.getLast?_concat, Option.some_or]

/-- A table at the end makes all earlier settings of widths and the rule irrelevant. -/
theorem sinceTable_concat_table (steps : List Step) (table : Breakpoints) :
    sinceTable (steps ++ [.breakpoints table]) = [] :=
  List.rtakeWhile_concat_neg _ _ _ (by simp [Step.table?])

theorem sinceTable_concat {s : Step} (hs : s.table? = none) (steps : List Step) :
    sinceTable (steps ++ [s]) = sinceTable steps ++ [s] :=
  List.rtakeWhile_concat_pos _ _ _ (by rw [hs]; rfl)

section Concat

variable {steps : List Step} {s : Step}

/-- One more setting, seen from the scale. -/
theorem lastScale_concat :
    lastScale (steps ++ [s]) = s.scale?.getD (lastScale steps) := by
  unfold lastScale
  rw [last?_concat]
  cases s.scale? with
  | none => rfl
  | some scale => rfl

/-- One more setting that is no table, seen from a width. -/
theorem lastWidth_concat (hs : s.table? = none) (t : Tier) :
    lastWidth (steps ++ [s]) t = (s.widthOf? t).getD (lastWidth steps t) := by
  unfold lastWidth
  rw [sinceTable_concat hs, last?_concat, last?_concat, hs, Option.none_or]
  cases s.widthOf? t with
  | none => rfl
  | some width => rfl

theorem lastWidth_concat_table (table : Breakpoints) (t : Tier) :
    lastWidth (steps ++ [.breakpoints table]) t = table.width t := by
  unfold lastWidth
  rw [sinceTable_concat_table, last?_concat]
  rfl

/-- One more setting that is no table, seen from the rule. -/
theorem lastRule?_concat (hs : s.table? = none) :
    lastRule? (steps ++ [s]) = s.rule?.or (lastRule? steps) := by
  unfold lastRule?
  rw [sinceTable_concat hs, last?_concat, last?_concat, hs, Option.none_or, Option.or_assoc]

theorem lastRule?_concat_table (table : Breakpoints) :
    lastRule? (steps ++ [.breakpoints table]) = table.rule := by
  unfold lastRule?
  rw [sinceTable_concat_table, last?_concat]
  rfl

end Concat

/-! ### What a setting leaves -/

theorem Step.eq_breakpoints_of_table? {s : Step} {table : Breakpoints}
    (h : s.table? = some table) : s = .breakpoints table := by
  cases s with
  | breakpoints table' => exact congrArg Step.breakpoints (Option.some_inj.1 h)
  | spacing | width | rule => cases h

theorem spacing_apply (θ : Theme) (s : Step) :
    (θ.apply s).spacing = s.scale?.getD θ.spacing := by
  cases s <;> rfl

/-- A setting that is no table writes one width at most. -/
theorem width_apply {s : Step} (hs : s.table? = none) (θ : Theme) (t : Tier) :
    (θ.apply s).breakpoints.width t = (s.widthOf? t).getD (θ.breakpoints.width t) := by
  cases s with
  | width tier width =>
    show (if t = tier then width else θ.breakpoints.width t) =
      (if t = tier then some width else none).getD (θ.breakpoints.width t)
    by_cases ht : t = tier
    · rw [if_pos ht, if_pos ht, Option.getD_some]
    · rw [if_neg ht, if_neg ht, Option.getD_none]
  | breakpoints table => cases hs
  | spacing | rule => rfl

theorem rule_apply {s : Step} (hs : s.table? = none) (θ : Theme) :
    (θ.apply s).breakpoints.rule = s.rule?.or θ.breakpoints.rule := by
  cases s with
  | breakpoints table => cases hs
  | spacing | width | rule => rfl

/-! ### Runs -/

/-- The keys of blocks are those of the last rule and width as soon as rule and widths are. -/
theorem isLastWritten_of_fields {steps : List Step} {θ : Theme}
    (hspacing : θ.spacing = lastScale steps)
    (hwidth : ∀ t, θ.breakpoints.width t = lastWidth steps t)
    (hrule : θ.breakpoints.rule = lastRule? steps) : IsLastWritten steps θ := by
  refine ⟨hspacing, hwidth, hrule, ?_⟩
  intro t
  unfold blockKey Breakpoints.blockKey
  rw [hrule, hwidth t]

/-- **One setting.** What it writes is written last, and what it does not write stays. -/
theorem IsLastWritten.concat {steps : List Step} {θ : Theme} (h : IsLastWritten steps θ)
    (s : Step) : IsLastWritten (steps ++ [s]) (θ.apply s) := by
  have hspacing : (θ.apply s).spacing = lastScale (steps ++ [s]) := by
    rw [spacing_apply, lastScale_concat, h.spacing]
  cases hs : s.table? with
  | none =>
    refine isLastWritten_of_fields hspacing (fun t => ?_) ?_
    · -- the width of the tier, if the setting is of this tier
      rw [width_apply hs, lastWidth_concat hs, h.width]
    · -- the rule, if the setting is one
      rw [rule_apply hs, lastRule?_concat hs, h.rule]
  | some table =>
    obtain rfl : s = .breakpoints table := Step.eq_breakpoints_of_table? hs
    -- the table has the last word on the rule and on every width, whatever the older theme has
    refine isLastWritten_of_fields hspacing (fun t => ?_) ?_
    · rw [lastWidth_concat_table]
      rfl
    · rw [lastRule?_concat_table]
      rfl

/-- **A whole run.** -/
theorem isLastWritten_build (steps : List Step) : IsLastWritten steps (build steps) := by
  induction steps using List.reverseRecOn with
  | nil => exact isLastWritten_of_fields rfl (fun _ => rfl) rfl
  | append_singleton steps s ih =>
    have hbuild : build (steps ++ [s]) = (build steps).apply s := by
      unfold build
      rw [List.foldl_append]
      rfl
    rw [hbuild]
    exact ih.concat s

/-- The fields make up the theme. -/
theorem IsLastWritten.eq {steps : List Step} {θ θ' : Theme} (h : IsLastWritten steps θ)
    (h' : IsLastWritten steps θ') : θ = θ' := by
  obtain ⟨⟨width, rule⟩, spacing⟩ := θ
  obtain ⟨⟨width', rule'⟩, spacing'⟩ := θ'
  obtain rfl : spacing = spacing' := h.spacing.trans h'.spacing.symm
  obtain rfl : width = width' := funext fun t => (h.width t).trans (h'.width t).symm
  obtain rfl : rule = rule' := h.rule.trans h'.rule.symm
  rfl

/-! ### Settings that change places -/

/-- Different tiers have their widths set in either order. -/
theorem Breakpoints.withWidth_comm {s t : Tier} (hne : s ≠ t) (b : Breakpoints) (w v : UInt32) :
    (b.withWidth s w).withWidth t v = (b.withWidth t v).withWidth s w := by
  have hwidth (r : Tier) : (if r = t then v else if r = s then w else b.width r) =
      if r = s then w else if r = t then v else b.width r := by
    by_cases ht : r = t
    · rw [if_pos ht, if_neg (fun hs => hne (hs.symm.trans ht)), if_pos ht]
    · rw [if_neg ht, if_neg ht]
  exact congrArg (fun width => { b with width := width }) (funext hwidth)

/-- **Settings of different fields commute.** -/
theorem apply_apply_comm {a b : Step} (h : a.Independent b) (θ : Theme) :
    (θ.apply a).apply b = (θ.apply b).apply a := by
  -- two settings of a kind write the same field, two widths excepted, and a table shares its fields
  -- with widths and rules; all other pairs act on different parts of the record
  cases a with
  | spacing scale =>
    cases b with
    | spacing => exact absurd (List.mem_singleton_self _) (h .spacing (List.mem_singleton_self _))
    | breakpoints | width | rule => rfl
  | breakpoints table =>
    cases b with
    | spacing => rfl
    | breakpoints => exact absurd List.mem_cons_self (h .rule List.mem_cons_self)
    | width tier =>
      exact absurd (List.mem_singleton_self _) (h (.width tier) (Step.width_mem_fields table tier))
    | rule => exact absurd (List.mem_singleton_self _) (h .rule List.mem_cons_self)
  | width tier width =>
    cases b with
    | spacing => rfl
    | breakpoints table =>
      exact absurd (Step.width_mem_fields table tier) (h (.width tier) (List.mem_singleton_self _))
    | width tier' width' =>
      have hne : tier ≠ tier' := by
        rintro rfl
        exact h (.width tier) (List.mem_singleton_self _) (List.mem_singleton_self _)
      exact congrArg (fun b => { θ with breakpoints := b })
        (Breakpoints.withWidth_comm hne θ.breakpoints width width')
    | rule => rfl
  | rule rule =>
    cases b with
    | spacing | width => rfl
    | breakpoints => exact absurd List.mem_cons_self (h .rule (List.mem_singleton_self _))
    | rule => exact absurd (List.mem_singleton_self _) (h .rule (List.mem_singleton_self _))

/-- **A run of settings leaves each field as the last setting that writes it has it,** whatever
stands between its settings, and this is all that shows of the run. Neighbouring settings of
different fields may therefore change places anywhere in it. -/
theorem eq_build_iff_isLastWritten :
    (∀ (steps : List Step) (θ : Theme), θ = build steps ↔ IsLastWritten steps θ) ∧
      ∀ (before after : List Step) (a b : Step), a.Independent b →
        build (before ++ a :: b :: after) = build (before ++ b :: a :: after) := by
  refine ⟨fun steps θ => ⟨?_, fun h => h.eq (isLastWritten_build steps)⟩, ?_⟩
  · rintro rfl
    exact isLastWritten_build steps
  · intro before after a b hab
    unfold build
    rw [List.foldl_append, List.foldl_append]
    -- the two runs part before `a` and meet again after `b`
    show after.foldl apply (((before.foldl apply default).apply a).apply b) = _
    rw [apply_apply_comm hab]
    rfl

/-- A rule for container queries that names the tier. -/
def containerRule (tier : Tier) (width : UInt32) : String :=
  "@container " ++ tier.name ++ " (min-width:" ++ toString width.toNat ++ "px)"

/-- A run that sets a rule twice, replaces it by a table, and sets one more width after the rule. -/
def containerSteps : List Step :=
  [.rule mediaRule, .width .lg 1, .breakpoints (Breakpoints.default.withWidth .md 700),
    .rule containerRule, .spacing (.unit 4), .width .md 768]

theorem eq_build_iff_isLastWritten_container :
    (build containerSteps).blockKey .md = "@container md (min-width:768px)" ∧
      (build containerSteps).blockKey .lg = "@container lg (min-width:1200px)" ∧
      Step.Independent (.rule containerRule) (.spacing (.unit 4)) ∧
      build containerSteps =
        build [.rule mediaRule, .width .lg 1, .breakpoints (Breakpoints.default.withWidth .md 700),
          .spacing (.unit 4), .rule containerRule, .width .md 768] := by
  have hbuilt := (eq_build_iff_isLastWritten.1 containerSteps _).1 rfl
  have hab : Step.Independent (.rule containerRule) (.spacing (.unit 4)) := by decide
  refine ⟨?_, ?_, hab, ?_⟩
  · rw [hbuilt.blockKey]
    decide
  · rw [hbuilt.blockKey]
    decide
  · exact eq_build_iff_isLastWritten.2
      [.rule mediaRule, .width .lg 1, .breakpoints (Breakpoints.default.withWidth .md 700)]
      [.width .md 768] _ _ hab

end StyleSystem.Theme
