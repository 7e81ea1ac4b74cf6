import StyleSystem.Proofs.Compilation
import StyleSystem.Proofs.Expansion
import StyleSystem.Proofs.Parts
import StyleSystem.Style.Path

/-!
# The order of declarations

The order in which a style declares its keys decides about the order of the compiled keys, and hardly
about anything else: styles that are the same mapping compile into the same mapping
(`compile_sameMapping`). The exception are the two synonyms of the background color, the only
keys that set a target equally directly (`Shorthand.backgrounds_of_specificity_eq`). So no object may
have values for both of them (`Style.OneBackground`).

Then the entry that prevails at a target is more specific than every other one, and it prevails
wherever it stands (`Value.exists_strictly_prevails`). The rest is asking at each key: a compiled map
has a compiled tier there, or what its other keys compile into.
-/

namespace StyleSystem

open Entries

/-! ### Equally specific keys -/

namespace Shorthand

theorem specificity_ne_explicit : ∀ s ∈ table, s.specificity ≠ .explicit := by decide

theorem key_eq_or_backgrounds : ∀ s ∈ table, ∀ s' ∈ table, ∀ t ∈ s.targets, t ∈ s'.targets →
    s.specificity = s'.specificity → s.key = s'.key ∨ s.key = "bg" ∧ s'.key = "bgcolor" ∨
      s.key = "bgcolor" ∧ s'.key = "bg" := by decide

/-- **The two backgrounds** are the only keys that set a target equally directly. -/
theorem backgrounds_of_specificity_eq {k l t : String} (hk : t ∈ (ofKey k).targets)
    (hl : t ∈ (ofKey l).targets) (hs : (ofKey k).specificity = (ofKey l).specificity)
    (hne : k ≠ l) : k = "bg" ∧ l = "bgcolor" ∨ k = "bgcolor" ∧ l = "bg" := by
  rcases ofKey_cases k with hkt | ⟨-, hke⟩ <;> rcases ofKey_cases l with hlt | ⟨-, hle⟩
  · have hcases := key_eq_or_backgrounds _ hkt _ hlt t hk hl hs
    rw [key_ofKey, key_ofKey] at hcases
    exact hcases.resolve_left hne
  · -- a key that stands for itself is explicit, and a shorthand is not
    exact absurd (hs.trans (congrArg specificity hle)) (specificity_ne_explicit _ hkt)
  · exact absurd (hs.symm.trans (congrArg specificity hke)) (specificity_ne_explicit _ hlt)
  · -- both stand for themselves
    rw [hke, List.mem_singleton] at hk
    rw [hle, List.mem_singleton] at hl
    exact absurd (hk.symm.trans hl) hne

end Shorthand

/-! ### One background -/

namespace Value

/-- Whether a value is an object with values for both synonyms of the background color. -/
def twoBackgrounds : Value → Bool
  | object es => (present? "bg" es).isSome && (present? "bgcolor" es).isSome
  | _ => false

/-- **No two backgrounds,** in the value itself or in an object reached from it. -/
def OneBackground (v : Value) : Prop :=
  ∀ path w, v.lookup? path = some w → w.twoBackgrounds = false

instance (v : Value) : Decidable (OneBackground v) := decidable_of_iff _ forall_lookup?_iff.symm

theorem OneBackground.inside {es : Entries Value} (h : OneBackground (object es)) {k : String}
    {v : Value} (hv : find? k es = some v) : OneBackground v := by
  intro path w hw
  apply h (k :: path) w
  rw [lookup?_cons_object, hv, Option.bind_some, hw]

theorem OneBackground.part {v : Value} (h : OneBackground v) (hv : v.Distinct)
    {part : Entries Value} (hpart : IsPart v part) : OneBackground (object part) := by
  cases hpart with
  | whole inner => exact h
  | selector inner =>
    intro path w hw
    cases path with
    | nil =>
      -- the two keys are no tiers
      have hkeep : ∀ k, Tier.isName k = false → present? k (nonTiers inner) = present? k inner := by
        intro k hk
        rw [present?, find?_nonTiers, hk, if_neg Bool.false_ne_true, present?]
      obtain rfl : object (nonTiers inner) = w := by simpa using hw
      have hinner := h [] (object inner) (lookup?_nil _)
      rw [twoBackgrounds] at hinner ⊢
      rwa [hkeep "bg" (by decide), hkeep "bgcolor" (by decide)]
    | cons k path =>
      rw [lookup?_cons_object, find?_nonTiers] at hw
      split at hw
      · cases hw
      · apply h (k :: path) w
        rwa [lookup?_cons_object]
  | tier hmem => exact h.inside ((find?_eq_some_iff (distinct_object.1 hv).1).2 hmem)

/-! ### Expansion -/

variable {es fs : Entries Value} {t : String} {v : Value}

/-- Two entries that set a target equally directly are two backgrounds. -/
theorem twoBackgrounds_of_specificity_eq (hes : (keys es).Nodup) {p q : String × Value} (hp : p ∈ es)
    (hq : q ∈ es) (hsetp : t ∈ setTargets p) (hsetq : t ∈ setTargets q)
    (hs : specificity p = specificity q) (hne : p.1 ≠ q.1) :
    (object es).twoBackgrounds = true := by
  obtain ⟨hnp, htp⟩ := mem_setTargets.1 hsetp
  obtain ⟨hnq, htq⟩ := mem_setTargets.1 hsetq
  have hpresent : present? p.1 es = some p.2 := (present?_eq_some_iff hes).2 ⟨hp, hnp⟩
  have hpresent' : present? q.1 es = some q.2 := (present?_eq_some_iff hes).2 ⟨hq, hnq⟩
  rw [twoBackgrounds]
  rcases Shorthand.backgrounds_of_specificity_eq htp htq hs hne with ⟨hbg, hbgcolor⟩ | ⟨hbgcolor, hbg⟩
  · rw [← hbg, ← hbgcolor, hpresent, hpresent']
    rfl
  · rw [← hbg, ← hbgcolor, hpresent, hpresent']
    rfl

/-- **Without two backgrounds** the entry that prevails is more specific than every other one. -/
theorem exists_strictly_prevails (hes : (keys es).Nodup)
    (hone : (object es).twoBackgrounds = false) (h : Prevails es t v) :
    ∃ key, (key, v) ∈ es ∧ t ∈ setTargets (key, v) ∧
      ∀ p ∈ es, t ∈ setTargets p → p.1 = key ∨ specificity p < specificity (key, v) := by
  obtain ⟨key, before, after, heq, ht, hbefore, hafter⟩ := h
  have hmem : (key, v) ∈ es := by rw [heq]; simp
  refine ⟨key, hmem, ht, ?_⟩
  intro p hp hset
  by_cases hkey : p.1 = key
  · exact .inl hkey
  refine .inr ?_
  have hplace := hp
  rw [heq, List.mem_append, List.mem_cons] at hplace
  rcases hplace with hplace | rfl | hplace
  · -- in front of it stands nothing more specific, and nothing equally specific either
    have hne : specificity p ≠ specificity (key, v) := by
      intro hs
      rw [twoBackgrounds_of_specificity_eq hes hp hmem hset ht hs hkey] at hone
      cases hone
    exact lt_of_le_of_ne (not_lt.1 (hbefore p hplace hset)) hne
  · exact absurd rfl hkey
  · exact hafter p hplace hset

/-- An entry of one of two objects that are the same mapping has a partner in the other. -/
theorem SameMapping.exists_mem (h : SameMapping (object es) (object fs)) (hes : (keys es).Nodup)
    {k : String} (hv : (k, v) ∈ es) : ∃ w, (k, w) ∈ fs ∧ SameMapping v w := by
  rcases rel_cases (h.find? k) with ⟨hnone, -⟩ | ⟨v', w, hv', hw, hvw⟩
  · exact absurd (mem_keys_of_mem hv) (notMem_keys_of_find?_eq_none hnone)
  · rw [(find?_eq_some_iff hes).2 hv, Option.some_inj] at hv'
    exact ⟨w, mem_of_find? hw, hv' ▸ hvw⟩

theorem SameMapping.keys_expandEntries_subset (h : SameMapping (object es) (object fs))
    (hes : (keys es).Nodup) : keys (expandEntries es) ⊆ keys (expandEntries fs) := by
  intro t ht
  rw [mem_keys_expandEntries] at ht ⊢
  obtain ⟨⟨k, v⟩, hp, hset⟩ := ht
  obtain ⟨w, hw, hvw⟩ := h.exists_mem hes hp
  rw [mem_setTargets, hvw.isNull_eq] at hset
  exact ⟨(k, w), hw, mem_setTargets.2 hset⟩

/-- **Expansion asks for mappings only,** if there are no two backgrounds. -/
theorem SameMapping.find?_expandEntries (h : SameMapping (object es) (object fs))
    (hes : (keys es).Nodup) (hfs : (keys fs).Nodup) (hone : (object es).twoBackgrounds = false)
    (t : String) :
    Option.Rel SameMapping (Entries.find? t (expandEntries es))
      (Entries.find? t (expandEntries fs)) := by
  cases hv : Entries.find? t (expandEntries es) with
  | none =>
    have hnone : t ∉ keys (expandEntries fs) := fun ht =>
      notMem_keys_of_find?_eq_none hv (h.symm.keys_expandEntries_subset hfs ht)
    rw [find?_eq_none hnone]
    exact .none
  | some v =>
    obtain ⟨key, hmem, hset, hother⟩ :=
      exists_strictly_prevails hes hone (find?_expandEntries_eq_some_iff.1 hv)
    -- its partner prevails too, since whatever competes with the partner has a partner here
    obtain ⟨w, hw, hvw⟩ := h.exists_mem hes hmem
    have hprevails : Prevails fs t w := by
      apply prevails_of_mem hfs hw
      · rw [mem_setTargets, hvw.isNull_eq] at hset
        exact mem_setTargets.2 hset
      · rintro ⟨l, u⟩ hu hset'
        by_cases hl : l = key
        · -- a key is not repeated
          subst hl
          have hu' := (find?_eq_some_iff hfs).2 hu
          rw [(find?_eq_some_iff hfs).2 hw, Option.some_inj] at hu'
          exact .inl (by rw [hu'])
        · obtain ⟨u', hmem', huu'⟩ := h.symm.exists_mem hfs hu
          rw [mem_setTargets, huu'.isNull_eq] at hset'
          have hlt := (hother (l, u') hmem' (mem_setTargets.2 hset')).resolve_left hl
          exact .inr hlt
    rw [find?_expandEntries_of_prevails hprevails]
    exact .some hvw

/-! ### Maps -/

theorem SameMapping.nonTiers (h : SameMapping (object es) (object fs)) :
    SameMapping (object (nonTiers es)) (object (nonTiers fs)) := by
  rw [sameMapping_object_iff]
  intro k
  rw [find?_nonTiers, find?_nonTiers]
  split
  · exact .none
  · exact h.find? k

theorem SameMapping.find?_presentTiers (h : SameMapping (object es) (object fs))
    (hes : (keys es).Nodup) (hfs : (keys fs).Nodup) (k : String) :
    Option.Rel SameMapping (Entries.find? k (presentTiers es))
      (Entries.find? k (presentTiers fs)) := by
  rw [Entries.find?_presentTiers hes, Entries.find?_presentTiers hfs]
  split
  · exact rel_present? (fun _ _ hvw => hvw.isNull_eq) (h.find? k)
  · exact .none

/-! ### Compilation -/

variable {θ : Theme} {key : String} {w : Value}

theorem compileTier_sameMapping (h : SameMapping v w)
    (ih : ∀ nested nested', v = object nested → w = object nested' →
      SameMapping (object (compileEntries θ nested)) (object (compileEntries θ nested'))) :
    SameMapping (compileTier θ key v) (compileTier θ key w) := by
  cases hv : v.isObject with
  | true =>
    obtain ⟨nested, rfl⟩ := exists_entries_of_isObject hv
    obtain ⟨nested', rfl⟩ := exists_entries_of_isObject (h.isObject_eq ▸ hv)
    rw [compileTier_object, compileTier_object]
    exact ih nested nested' rfl rfl
  | false =>
    rw [h.eq_of_not_isObject hv]
    exact .refl _

/-- **One value.** The same mapping compiles into the same mapping, if that holds of the parts. -/
theorem compileAt_sameMapping (h : SameMapping v w) (hv : v.Distinct) (hw : w.Distinct)
    (ih : ∀ part part', IsPart v part → IsPart w part' → SameMapping (object part) (object part') →
      SameMapping (object (compileEntries θ part)) (object (compileEntries θ part'))) :
    SameMapping (compileAt θ key v) (compileAt θ key w) := by
  cases hobj : v.isObject with
  | false =>
    rw [h.eq_of_not_isObject hobj]
    exact .refl _
  | true =>
    obtain ⟨inner, rfl⟩ := exists_entries_of_isObject hobj
    obtain ⟨inner', rfl⟩ := exists_entries_of_isObject (h.isObject_eq ▸ hobj)
    have hinner : DistinctEntries inner := distinct_object.1 hv
    have hinner' : DistinctEntries inner' := distinct_object.1 hw
    rw [compileAt_object, compileAt_object, sameMapping_object_iff]
    intro k
    rw [find?_append, find?_append, compiledTiers, compiledTiers, find?_map_values,
      find?_map_values]
    have hrest := (ih _ _ (.selector inner) (.selector inner') h.nonTiers).find? k
    rcases rel_cases (h.find?_presentTiers hinner.1 hinner'.1 k) with
      ⟨hx, hy⟩ | ⟨x, y, hx, hy, hxy⟩
    · rw [hx, hy]
      exact hrest
    · -- the tiers stand in front of the other keys
      rw [hx, hy]
      have hmem : (k, x) ∈ presentTiers inner := mem_of_find? hx
      have hmem' : (k, y) ∈ presentTiers inner' := mem_of_find? hy
      refine .some (compileTier_sameMapping hxy ?_)
      rintro nested nested' rfl rfl
      obtain ⟨tier, rfl⟩ := Tier.exists_name_eq (isName_of_mem_presentTiers hmem)
      exact ih nested nested' (.tier (mem_of_mem_presentTiers hmem))
        (.tier (mem_of_mem_presentTiers hmem')) hxy

/-- **One object.** The same mapping compiles into the same mapping, if there are no two
backgrounds. -/
theorem compileEntries_sameMapping (es fs : Entries Value) (hes : DistinctEntries es)
    (hfs : DistinctEntries fs) (hone : OneBackground (object es))
    (h : SameMapping (object es) (object fs)) :
    SameMapping (object (compileEntries θ es)) (object (compileEntries θ fs)) := by
  induction es using partInduction generalizing fs with
  | step es ih =>
    rw [sameMapping_object_iff]
    intro k
    rw [compileEntries_eq, compileEntries_eq, find?_map_values, find?_map_values]
    -- which declaration prevails does not depend on the order of the keys
    have hexpand := h.find?_expandEntries hes.1 hfs.1 (hone [] _ (lookup?_nil _)) k
    rcases rel_cases hexpand with ⟨hv, hw⟩ | ⟨v, w, hv, hw, hvw⟩
    · rw [hv, hw]
      exact .none
    · rw [hv, hw]
      have hmem : (k, v) ∈ expandEntries es := mem_of_find? hv
      have hmem' : (k, w) ∈ expandEntries fs := mem_of_find? hw
      have hdv : v.Distinct := (distinctEntries_expandEntries hes.2).2 _ hmem
      have hdw : w.Distinct := (distinctEntries_expandEntries hfs.2).2 _ hmem'
      -- the value stood under a key that declares `k`, so the condition holds below it as well
      have honev : OneBackground v := by
        obtain ⟨declaring, hdeclaring, -, -⟩ := mem_expandEntries hmem
        exact hone.inside ((find?_eq_some_iff hes.1).2 hdeclaring)
      refine .some (compileAt_sameMapping hvw hdv hdw ?_)
      intro part part' hpart hpart' hparts
      exact ih (k, v) hmem part hpart part' (hdv.part hpart) (hdw.part hpart')
        (honev.part hdv hpart) hparts

end Value

namespace Style

/-- **A style without two backgrounds** in one object, at any level. -/
def OneBackground (s : Style) : Prop := s.toValue.OneBackground

instance (s : Style) : Decidable s.OneBackground :=
  inferInstanceAs (Decidable s.toValue.OneBackground)

end Style

/-- **The order of declarations does not matter.** Styles that are the same mapping compile into the
same mapping, if no object in them has values for both synonyms of the background color. -/
theorem compile_sameMapping (θ : Theme) {s t : Style} (h : s.SameMapping t)
    (hone : s.OneBackground) : (s.compile θ).SameMapping (t.compile θ) :=
  Value.compileEntries_sameMapping s.entries t.entries s.distinct t.distinct hone h

/-- Keys that set the same targets, a tier map with other keys in it, and one background at each of
two levels. -/
def boxStyle : Style :=
  .ofEntries [
    ("pl", .number (.int 3)), ("px", .number (.int 2)), ("paddingLeft", .null),
    ("bg", .null), ("bgcolor", .string "primary"),
    ("width", .object [("md", .number (.int 400)), ("xs", .object [("m", .number (.int 1)),
      ("my", .number (.int 2))]), ("&:hover", .object [("bg", .string "danger"),
        ("radius", .string "pill")]), ("lg", .null)])]

/-- The same mapping, declared in another order at each level. -/
def permutedStyle : Style :=
  .ofEntries [
    ("width", .object [("lg", .null), ("&:hover", .object [("radius", .string "pill"),
      ("bg", .string "danger")]), ("xs", .object [("my", .number (.int 2)),
        ("m", .number (.int 1))]), ("md", .number (.int 400))]),
    ("bgcolor", .string "primary"), ("bg", .null), ("paddingLeft", .null),
    ("px", .number (.int 2)), ("pl", .number (.int 3))]

theorem compile_sameMapping_boxStyle :
    boxStyle.SameMapping permutedStyle ∧ boxStyle.OneBackground ∧
      (boxStyle.compile .default).SameMapping (permutedStyle.compile .default) := by
  have h : boxStyle.SameMapping permutedStyle := by decide +kernel
  have hone : boxStyle.OneBackground := by decide +kernel
  exact ⟨h, hone, compile_sameMapping .default h hone⟩

-- Of two backgrounds the later one stands.
example :
    let bg := ("bg", Value.string "primary")
    let bgcolor := ("bgcolor", Value.string "danger")
    ¬ ((Style.ofEntries [bg, bgcolor]).compile .default).SameMapping
      ((Style.ofEntries [bgcolor, bg]).compile .default) := by decide +kernel

end StyleSystem
