import StyleSystem.Proofs.Expansion
import StyleSystem.Proofs.Leaves

/-!
# Tier maps and tier blocks

The two responsive forms mean the same. A property with a tier map, `width: (xs: 100%, md: 400)`,
is read as a list of layers (`Style.tierLayers`): first the property with the nested selector in
the map, if there is one, and then, in ascending order, for each tier with a value the block of that
tier with the property in it. Resolving the layers gives what resolving the map gives, key order
included (`resolve_tierLayers`).

The block of a tier must read the value of the property as the map does. A value that has tiers of
its own would be a tier map there, and in the tier map it is a nested object; so the objects among
the values of the map have no tiers.

The two sides come down to the same writes. A single entry normalizes into its writes
(`Value.normalizeEntries_single`), so a layer for a tier is the one write of that tier, and
merging layers is merging all of their writes.
-/

namespace StyleSystem

open Entries

/-- The keys of a tier map that are no tiers. -/
def Style.nonTiers (s : Style) : Style :=
  ⟨Entries.nonTiers s.entries, (List.filter_sublist.map Prod.fst).nodup s.distinct.1,
    fun p hp => s.distinct.2 p (List.mem_filter.1 hp).1⟩

/-- The layer for one tier of a tier map, if the map has a value for it: the block of the tier with
the property in it. -/
def Style.tierLayer? (key : String) (m : Style) (tier : Tier) : Option Style :=
  match h : m.find? tier.name with
  | none | some .null => none
  | some v => some ((Style.single key v (Style.distinct_of_find? h)).under tier.name)

/-- **The layers of a tier map** under a property: its nested selector, if it has one, and then its
tiers, the smallest first. -/
def Style.tierLayers (key : String) (m : Style) : List Style :=
  (if Entries.nonTiers m.entries = [] then [] else [m.nonTiers.under key]) ++
    Tier.all.filterMap (m.tierLayer? key)

/-! ### A single entry -/

theorem Declaration.ofEntry_of_targets {key target : String} {v : Value}
    (htarget : (Shorthand.ofKey key).targets = [target]) (hn : v.isNull = false) :
    ofEntry key v = [⟨target, (Shorthand.ofKey key).specificity, v⟩] := by
  rw [ofEntry, hn, htarget]
  rfl

namespace Value

variable {θ : Theme} {key target : String}

theorem expandEntries_single (htarget : (Shorthand.ofKey key).targets = [target]) {v : Value}
    (hn : v.isNull = false) : expandEntries [(key, v)] = [(target, v)] := by
  rw [expandEntries, Declaration.ofEntries, List.flatMap_singleton,
    Declaration.ofEntry_of_targets htarget hn]
  rfl

/-- An entry alone in its object normalizes into its writes. -/
theorem normalizeEntries_single (htarget : (Shorthand.ofKey key).targets = [target]) {v : Value}
    (hn : v.isNull = false) :
    normalizeEntries θ [(key, v)] = mergeEntries [] (writes θ target v) := by
  rw [normalizeEntries_eq, expandEntries_single htarget hn, List.flatMap_singleton]

theorem normalizeEntries_selector (htarget : (Shorthand.ofKey key).targets = [target])
    (hname : Tier.isName target = false) (m : Entries Value) :
    normalizeEntries θ [(key, object (nonTiers m))] =
      [(target, object (normalizeEntries θ (nonTiers m)))] := by
  rw [normalizeEntries_single htarget rfl,
    writes_of_not_hasTier (Tier.ofName?_eq_none_iff.2 hname) (hasTier_nonTiers m)]
  exact mergeEntries_nil_left (by simp)

/-- A property whose value has no tiers holds what a tier of a map makes of the value. -/
theorem normalizeEntries_property (htarget : (Shorthand.ofKey key).targets = [target])
    (hname : Tier.isName target = false) {v : Value} (hn : v.isNull = false)
    (hv : ∀ inner, v = object inner → hasTier inner = false) :
    normalizeEntries θ [(key, v)] = [(target, normalizeTier θ target v)] := by
  have hwrites : writes θ target v = [(target, normalizeTier θ target v)] := by
    cases hobj : v.isObject with
    | true =>
      obtain ⟨inner, rfl⟩ := exists_entries_of_isObject hobj
      rw [writes_of_not_hasTier (Tier.ofName?_eq_none_iff.2 hname) (hv inner rfl),
        normalizeTier_object]
    | false =>
      rw [writes_of_not_isObject hobj, hname, normalizeTier_of_not_isObject hobj]
      rfl
  rw [normalizeEntries_single htarget hn, hwrites]
  exact mergeEntries_nil_left (by simp)

theorem targets_ofKey_name (tier : Tier) :
    (Shorthand.ofKey tier.name).targets = [tier.name] := by
  rw [Shorthand.ofKey_of_not_isShorthand
    (Shorthand.isShorthand_of_isName (Tier.isName_name tier))]

/-- **One layer.** The block of a tier with a property in it is the write of that tier. -/
theorem normalizeEntries_tierBlock (htarget : (Shorthand.ofKey key).targets = [target])
    (hname : Tier.isName target = false) (tier : Tier) {v : Value} (hn : v.isNull = false)
    (hv : ∀ inner, v = object inner → hasTier inner = false) :
    normalizeEntries θ [(tier.name, object [(key, v)])] =
      [tierWrite θ target tier (normalizeTier θ target v)] := by
  rw [normalizeEntries_single (targets_ofKey_name tier) rfl, writes_tier (Tier.ofName?_name tier),
    normalizeEntries_property htarget hname hn hv, blockWrites, tierWrite]
  split
  · exact mergeEntries_nil_left (by simp)
  · exact mergeEntries_nil_left (by simp)

end Value

/-! ### The layers of a map -/

namespace Style

variable {θ : Theme} {key target : String} {m : Style}

theorem entries_tierLayer? (htarget : (Shorthand.ofKey key).targets = [target])
    (hname : Tier.isName target = false)
    (hm : ∀ (tier : Tier) inner, m.find? tier.name = some (.object inner) → hasTier inner = false)
    (tier : Tier) :
    (m.tierLayer? key tier).toList.flatMap (fun s => (s.normalize θ).entries) =
      Value.tierWrites θ target m.entries tier := by
  unfold tierLayer?
  split
  · next h => rw [Value.tierWrites, show Entries.find? tier.name m.entries = none from h]; rfl
  · next h =>
    rw [Value.tierWrites, show Entries.find? tier.name m.entries = some .null from h]; rfl
  · next v hnull h =>
    have hn : v.isNull = false := by
      cases v with
      | null => exact absurd rfl hnull
      | _ => rfl
    rw [Value.tierWrites_of_find? h hn, Option.toList_some, List.flatMap_singleton]
    refine Value.normalizeEntries_tierBlock htarget hname tier hn ?_
    rintro inner rfl
    exact hm tier inner h

/-- The layers of a map are normalized into the writes of the map. -/
theorem entries_tierLayers (htarget : (Shorthand.ofKey key).targets = [target])
    (hname : Tier.isName target = false) (ht : hasTier m.entries = true)
    (hm : ∀ (tier : Tier) inner, m.find? tier.name = some (.object inner) → hasTier inner = false) :
    (m.tierLayers key).flatMap (fun s => (s.normalize θ).entries) =
      Value.writes θ target (.object m.entries) := by
  have hselector : (if Entries.nonTiers m.entries = [] then [] else [m.nonTiers.under key]).flatMap
      (fun s => (s.normalize θ).entries) = Value.selectorWrites θ target m.entries := by
    unfold Value.selectorWrites
    split
    · rfl
    · rw [List.flatMap_singleton]
      exact Value.normalizeEntries_selector htarget hname m.entries
  have htiers : (Tier.all.filterMap (m.tierLayer? key)).flatMap
      (fun s => (s.normalize θ).entries) =
        Tier.all.flatMap (Value.tierWrites θ target m.entries) := by
    rw [List.filterMap_eq_flatMap_toList, List.flatMap_assoc]
    exact List.flatMap_congr fun tier _ => entries_tierLayer? htarget hname hm tier
  rw [tierLayers, List.flatMap_append, hselector, htiers,
    Value.writes_of_hasTier (Tier.ofName?_eq_none_iff.2 hname) ht]

end Style

/-- **A tier map means its layers.** A property with a tier map resolves to what the list of its
layers resolves to, key order included, whatever the theme. The property is no tier and stands for
one key, itself or another one. -/
theorem resolve_tierLayers {F : Type} (call : Calls F) (θ : Theme) {key target : String} {m : Style}
    (hkey : Tier.isName key = false) (htarget : (Shorthand.ofKey key).targets = [target])
    (ht : hasTier m.entries = true)
    (hm : ∀ (tier : Tier) inner, m.find? tier.name = some (.object inner) →
      hasTier inner = false) :
    (SpecOver.object (m.under key)).resolve call θ =
      (SpecOver.list ((m.tierLayers key).map .object)).resolve call θ := by
  have hname : Tier.isName target = false := by
    have hmem : target ∈ (Shorthand.ofKey key).targets := by rw [htarget]; simp
    rw [Shorthand.isName_of_mem_targets hmem, hkey]
  rw [SpecOver.resolve_object, SpecOver.resolve_list_object]
  refine congrArg Except.ok (Style.ext ?_)
  calc ((m.under key).normalize θ).entries
      = Value.mergeEntries [] (Value.writes θ target (.object m.entries)) :=
        Value.normalizeEntries_single htarget rfl
    _ = Value.mergeEntries [] ((m.tierLayers key).flatMap fun s => (s.normalize θ).entries) := by
        rw [Style.entries_tierLayers htarget hname ht hm]
    _ = (Style.empty.mergeAll ((m.tierLayers key).map fun s => s.normalize θ)).entries := by
        rw [Style.entries_mergeAll, List.flatMap_map]
        rfl

/-- A tier map with a nested selector, which the block for the base tier merges with. -/
def selectorMap : Style :=
  .ofEntries [("lg", .number (.int 2)), ("&:hover", .object [("bg", .string "primary")]),
    ("md", .null), ("xs", .object [("&:hover", .object [("p", .number (.int 1))])])]

theorem resolve_tierLayers_selectorMap :
    Tier.isName "radius" = false ∧ (Shorthand.ofKey "radius").targets = ["borderRadius"] ∧
      hasTier selectorMap.entries = true ∧
      (∀ (tier : Tier) inner, selectorMap.find? tier.name = some (.object inner) →
        hasTier inner = false) ∧
      (SpecOver.object (selectorMap.under "radius")).resolve ThemeFunction.call .default =
        (SpecOver.list ((selectorMap.tierLayers "radius").map .object)).resolve ThemeFunction.call
          .default := by
  have hm : ∀ (tier : Tier) inner, selectorMap.find? tier.name = some (.object inner) →
      hasTier inner = false := by
    have hentries : selectorMap.entries = [("lg", .number (.int 2)),
        ("&:hover", .object [("bg", .string "primary")]), ("md", .null),
        ("xs", .object [("&:hover", .object [("p", .number (.int 1))])])] := by decide +kernel
    intro tier inner h
    rw [Style.find?, hentries] at h
    -- only the base tier has an object
    cases tier <;> simp [Entries.find?, Tier.name] at h
    rw [← h]
    decide
  have hradius : (Shorthand.ofKey "radius").targets = ["borderRadius"] := by decide
  have ht : hasTier selectorMap.entries = true := by decide +kernel
  exact ⟨by decide, hradius, ht, hm, resolve_tierLayers _ _ (by decide) hradius ht hm⟩

-- A value with tiers of its own is a tier map only in the layer.
example :
    let m := Style.ofEntries [("xs", .object [("lg", .number (.int 1))])]
    (SpecOver.object (m.under "width")).resolve ThemeFunction.call .default ≠
      (SpecOver.list ((m.tierLayers "width").map .object)).resolve ThemeFunction.call .default := by
  decide +kernel

end StyleSystem
