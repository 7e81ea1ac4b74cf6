import StyleSystem.Proofs.Leaves
import StyleSystem.Proofs.Parts
import StyleSystem.Style.Compiled
import StyleSystem.Theme.Order

/-!
# The normal form of styles

A style is **normal** for a theme if there is nothing left to do in it: at no level is a key a tier
or a shorthand, no value is null, and every plain value stays as it is when it is transformed under
its key. The two main statements say that resolution ends there and stays there.

* `normal_of_resolve` — every resolved style is normal.
* `resolve_resolved` — a resolved style resolves and compiles into itself, key order included.

Both suppose that the block keys of the theme are ordinary keys (`Theme.HasPlainBlockKeys`), since a
rule that calls a block `md` or `px` puts such a key into the result itself. The media queries of the
default rule are ordinary keys whatever the widths (`Theme.hasPlainBlockKeys_of_rule_eq_none`).

The first statement is an invariant. Each write of an object is normal if the parts of its value
normalize into normal objects (`Value.IsWrite.throughout`), and merging keeps a normal object normal,
within one object as well as from one style of a specification to the next. The second follows from
the first: on normal entries expansion, normalization and compilation are the identity.
-/

namespace StyleSystem

open Entries

/-- The keys of the conditional blocks are neither tiers nor shorthands. The base tier has no
block. -/
def Theme.HasPlainBlockKeys (θ : Theme) : Prop :=
  ∀ t : Tier, t.isBase = false →
    Tier.isName (θ.blockKey t) = false ∧ isShorthand (θ.blockKey t) = false

/-- A media query is no shorthand, since it starts with another character than each of them. -/
theorem isShorthand_mediaRule (t : Tier) (width : UInt32) :
    isShorthand (mediaRule t width) = false := by
  have hkeys : ∀ s ∈ Shorthand.table, s.key.toList.head? ≠ some '@' := by decide
  have hnone : Shorthand.find? (mediaRule t width) = none := by
    rw [Shorthand.find?, List.find?_eq_none]
    intro s hs hkey
    refine hkeys s hs ?_
    rw [of_decide_eq_true hkey, head?_mediaRule]
  rw [isShorthand, hnone, Option.isSome_none]

/-- **Media queries are ordinary keys,** whatever the widths in them. -/
theorem Theme.hasPlainBlockKeys_of_rule_eq_none {θ : Theme} (h : θ.breakpoints.rule = none) :
    θ.HasPlainBlockKeys := by
  intro t _
  rw [blockKey_of_rule_eq_none h]
  exact ⟨isName_mediaRule t _, isShorthand_mediaRule t _⟩

/-- An entry in which there is nothing to do. -/
structure NormalEntry (θ : Theme) (key : String) (v : Value) : Prop where
  not_tier : Tier.isName key = false
  not_shorthand : isShorthand key = false
  not_null : v.isNull = false
  transformed : v.isObject = false → transform θ key v = v

instance (θ : Theme) (key : String) (v : Value) : Decidable (NormalEntry θ key v) :=
  decidable_of_iff (Tier.isName key = false ∧ isShorthand key = false ∧ v.isNull = false ∧
      (v.isObject = false → transform θ key v = v))
    ⟨fun h => ⟨h.1, h.2.1, h.2.2.1, h.2.2.2⟩,
      fun h => ⟨h.not_tier, h.not_shorthand, h.not_null, h.transformed⟩⟩

/-- **Normal styles:** there is nothing to do in any entry, at any level. -/
def Style.IsNormal (θ : Theme) (s : Style) : Prop := Value.EveryEntry (NormalEntry θ) s.entries

instance (θ : Theme) (s : Style) : Decidable (s.IsNormal θ) :=
  inferInstanceAs (Decidable (Value.EveryEntry (NormalEntry θ) s.entries))

namespace Value

variable {θ : Theme} {key : String}

/-! ### Normalized objects are normal -/

/-- Whether an entry is normal does not depend on what is in its object, so merging may change that.
-/
theorem shallow_normalEntry : Shallow (NormalEntry θ) := by
  intro key es fs h
  exact ⟨h.not_tier, h.not_shorthand, rfl, nofun⟩

theorem normalEntry_object (hkey : Tier.isName key = false) (hshort : isShorthand key = false)
    (es : Entries Value) : NormalEntry θ key (object es) := ⟨hkey, hshort, rfl, nofun⟩

/-- A transformed value stays as it is from then on (`transform_transform`). -/
theorem normalEntry_transform (hkey : Tier.isName key = false) (hshort : isShorthand key = false)
    {v : Value} (hn : v.isNull = false) : NormalEntry θ key (transform θ key v) :=
  ⟨hkey, hshort, by rw [isNull_transform, hn], fun _ => transform_transform θ key v⟩

/-- **A normalized object** is normal at every level. -/
theorem everyEntry_normalizeEntries (hθ : θ.HasPlainBlockKeys) (es : Entries Value) :
    EveryEntry (NormalEntry θ) (normalizeEntries θ es) := by
  induction es using partInduction with
  | step es ih =>
    apply everyEntry_normalizeEntries_of shallow_normalEntry
    intro p hp q hq
    -- the keys of an expansion are no shorthands, so only tiers are left to exclude
    have hshort : isShorthand p.1 = false := isShorthand_of_mem_expandEntries hp
    have hblock : ∀ t : Tier, t.isBase = false → ∀ fs, NormalEntry θ (θ.blockKey t) (object fs) := by
      intro t ht fs
      obtain ⟨hname, hplain⟩ := hθ t ht
      exact normalEntry_object hname hplain fs
    have hgiven : Tier.isName p.1 = false → ∀ w, Gives p.2 w →
        NormalEntry θ p.1 (transform θ p.1 w) := by
      intro hkey w hw
      exact normalEntry_transform hkey hshort (hw.isNull (isNull_of_mem_expandEntries hp))
    exact hq.throughout hblock (fun hkey fs => normalEntry_object hkey hshort fs) hgiven (ih p hp)

/-! ### On normal objects there is nothing to do -/

/-- Expansion finds nothing to do in normal entries: no shorthand to replace and no null to drop. -/
theorem expandEntries_of_normal {es : Entries Value} (hkeys : (keys es).Nodup)
    (hes : EveryEntry (NormalEntry θ) es) : expandEntries es = es :=
  expandEntries_of_plain hkeys fun _ hp => ⟨(hes.holds hp).not_shorthand, (hes.holds hp).not_null⟩

/-- No normal object is a tier map. -/
theorem hasTier_of_normal {es : Entries Value} (hes : EveryEntry (NormalEntry θ) es) :
    hasTier es = false := by
  rw [hasTier_eq_false_iff]
  intro k hk
  obtain ⟨v, hv⟩ := exists_mem_of_mem_keys hk
  exact (hes.holds hv).not_tier

/-- A normal entry writes itself. -/
theorem writes_of_normal {v : Value} (hv : Throughout (NormalEntry θ) key v)
    (ih : ∀ inner, v = object inner → normalizeEntries θ inner = inner) :
    writes θ key v = [(key, v)] := by
  have hname := hv.1.not_tier
  cases v with
  | object inner =>
    rw [writes_of_not_hasTier (Tier.ofName?_eq_none_iff.2 hname) (hasTier_of_normal (hv.2 inner rfl)),
      ih inner rfl]
  | null | bool _ | number _ | string _ | array _ =>
    rw [writes_of_not_isObject rfl, hname, hv.1.transformed rfl]
    rfl

/-- Compilation leaves a normal value alone, if it leaves the objects in it alone. -/
theorem compileAt_of_normal {v : Value} (hv : Throughout (NormalEntry θ) key v)
    (ih : ∀ inner, v = object inner → compileEntries θ inner = inner) :
    compileAt θ key v = v := by
  cases v with
  | object inner => rw [compileAt_of_not_hasTier (hasTier_of_normal (hv.2 inner rfl)), ih inner rfl]
  | null | bool _ | number _ | string _ | array _ =>
    rw [compileAt_of_not_isObject rfl, hv.1.transformed rfl]

/-- **Normalization leaves a normal object as it is,** key order included: each entry writes itself,
and its keys do not meet. -/
theorem normalizeEntries_of_normal (es : Entries Value) (hd : DistinctEntries es)
    (hes : EveryEntry (NormalEntry θ) es) : normalizeEntries θ es = es := by
  induction es using nestedInduction with
  | step es ih =>
    have hwrites : ∀ p ∈ es, writes θ p.1 p.2 = [p] := by
      intro p hp
      refine writes_of_normal (hes.throughout hp) ?_
      intro inner hinner
      have hmem : (p.1, object inner) ∈ es := hinner ▸ hp
      exact ih p.1 inner hmem (distinct_object.1 (hd.2 _ hmem)) (hes.inside hmem)
    rw [normalizeEntries_eq, expandEntries_of_normal hd.1 hes, List.flatMap_congr hwrites,
      List.flatMap_singleton', mergeEntries_nil_left hd.1]

/-- **Compilation leaves a normal object as it is,** too. -/
theorem compileEntries_of_normal (es : Entries Value) (hd : DistinctEntries es)
    (hes : EveryEntry (NormalEntry θ) es) : compileEntries θ es = es := by
  induction es using nestedInduction with
  | step es ih =>
    have hvalues : ∀ p ∈ es, (p.1, compileAt θ p.1 p.2) = p := by
      intro p hp
      refine Prod.ext rfl (compileAt_of_normal (hes.throughout hp) ?_)
      intro inner hinner
      have hmem : (p.1, object inner) ∈ es := hinner ▸ hp
      exact ih p.1 inner hmem (distinct_object.1 (hd.2 _ hmem)) (hes.inside hmem)
    rw [compileEntries_eq, expandEntries_of_normal hd.1 hes, List.map_congr_left hvalues]
    exact List.map_id es

end Value

/-! ### Resolved styles -/

variable {F : Type} {call : Calls F} {θ : Theme}

/-- One merge of a resolution keeps a style normal. -/
theorem Style.IsNormal.merge_normalize (hθ : θ.HasPlainBlockKeys) {base : Style}
    (hbase : base.IsNormal θ) (s : Style) : (base.merge (s.normalize θ)).IsNormal θ :=
  Value.EveryEntry.mergeEntries Value.shallow_normalEntry hbase
    (Value.everyEntry_normalizeEntries hθ s.entries)

theorem Style.isNormal_empty : Style.empty.IsNormal θ := Value.everyEntry_nil

/-- The empty style is normal, and each merge of a resolution keeps it so. -/
theorem Style.isNormal_of_resolve (hθ : θ.HasPlainBlockKeys) {spec : SpecOver F} {r : Style}
    (hr : spec.resolve call θ = .ok r) : r.IsNormal θ :=
  SpecOver.resolve_keeps Style.isNormal_empty (fun _ s hb => hb.merge_normalize hθ s) hr

theorem Style.IsNormal.normalize_eq {s : Style} (h : s.IsNormal θ) : s.normalize θ = s :=
  Style.ext (Value.normalizeEntries_of_normal s.entries s.distinct h)

theorem Style.IsNormal.compile_eq {s : Style} (h : s.IsNormal θ) : s.compile θ = s :=
  Style.ext (Value.compileEntries_of_normal s.entries s.distinct h)

/-- **Resolution ends in normal form.** -/
theorem normal_of_resolve (hθ : θ.HasPlainBlockKeys) {spec : SpecOver F} {r : Style}
    (hr : spec.resolve call θ = .ok r) : r.IsNormal θ :=
  Style.isNormal_of_resolve hθ hr

/-- A list of two layers: a tier map with a nested selector in it and a tier block, and then a
function of the theme that gives a base block with a null. -/
def layers : Spec :=
  .list [
    .object (.ofEntries [
      ("px", .object [("md", .number (.int 2)), ("&:hover", .object [("bg", .string "primary")])]),
      ("md", .object [("p", .number (.int 3))])]),
    Spec.generator fun _ =>
      .ok (.object (.ofEntries [("xs", .object [("m", .string "auto"), ("color", .null)])]))]

/-- What the layers resolve to where the tier `md` starts at 768 pixels. -/
def layersResolved : Style :=
  .ofEntries [
    ("paddingLeft", .object [("&:hover", .object [("backgroundColor",
      .string "var(--ld-color-primary, var(--color-primary, #3b82f6))")])]),
    ("@media (min-width:768px)", .object [("paddingLeft", .string "16px"),
      ("paddingRight", .string "16px"), ("padding", .string "24px")]),
    ("paddingRight", .object [("&:hover", .object [("backgroundColor",
      .string "var(--ld-color-primary, var(--color-primary, #3b82f6))")])]),
    ("margin", .string "auto")]

theorem resolve_layers :
    layers.resolve (Theme.default.withWidth .md 768) = .ok layersResolved := by decide +kernel

theorem normal_of_resolve_layers :
    (Theme.default.withWidth .md 768).HasPlainBlockKeys ∧
      layers.resolve (Theme.default.withWidth .md 768) = .ok layersResolved ∧
      layersResolved.IsNormal (Theme.default.withWidth .md 768) := by
  have hθ : (Theme.default.withWidth .md 768).HasPlainBlockKeys :=
    Theme.hasPlainBlockKeys_of_rule_eq_none rfl
  exact ⟨hθ, resolve_layers, normal_of_resolve hθ resolve_layers⟩

-- A compiled style need not be normal: it keeps its tiers.
example : ¬ ((Style.ofEntries [("width", .object [("md", .number (.int 400))])]).compile
    .default).IsNormal .default := by decide +kernel

/-- **Resolution is idempotent.** A resolved style resolves into itself, and compilation leaves it
as it is. -/
theorem resolve_resolved (hθ : θ.HasPlainBlockKeys) {spec : SpecOver F} {r : Style}
    (hr : spec.resolve call θ = .ok r) :
    (SpecOver.object r).resolve call θ = .ok r ∧ r.compile θ = r := by
  have hnormal : r.IsNormal θ := Style.isNormal_of_resolve hθ hr
  refine ⟨?_, hnormal.compile_eq⟩
  rw [SpecOver.resolve_object, hnormal.normalize_eq]

theorem resolve_resolved_layers :
    (Theme.default.withWidth .md 768).HasPlainBlockKeys ∧
      layers.resolve (Theme.default.withWidth .md 768) = .ok layersResolved ∧
      (SpecOver.object layersResolved).resolve ThemeFunction.call
        (Theme.default.withWidth .md 768) = .ok layersResolved ∧
      layersResolved.compile (Theme.default.withWidth .md 768) = layersResolved := by
  have hθ : (Theme.default.withWidth .md 768).HasPlainBlockKeys :=
    Theme.hasPlainBlockKeys_of_rule_eq_none rfl
  exact ⟨hθ, resolve_layers, resolve_resolved hθ resolve_layers⟩

end StyleSystem
