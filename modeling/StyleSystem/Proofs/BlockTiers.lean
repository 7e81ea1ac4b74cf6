import StyleSystem.Proofs.MergeByKey
import StyleSystem.Proofs.NormalForm
import StyleSystem.Style.Arrival

/-!
# The blocks of a normalized object

Normalization writes the block of a tier where an entry first asks for it, and later writes to the
block leave it there. So the blocks of a normalized object stand in the order in which its entries
ask for them (`Value.blockTiers_normalizeEntries`). This supposes that the keys of an object are no
block keys (`Value.NoBlock`), and that block keys are told apart from each other and from properties
(`Theme.HasOwnBlockKeys`). The media queries of the default rule are, as long as no two tiers have
the same width.
-/

namespace StyleSystem

open Entries

/-! ### Block keys -/

/-- Block keys that tell the tiers apart and are no properties that a shorthand stands for. -/
structure Theme.HasOwnBlockKeys (θ : Theme) : Prop where
  tierOfBlock?_blockKey : ∀ t, θ.tierOfBlock? (θ.blockKey t) = some t
  tierOfBlock?_target : ∀ s ∈ Shorthand.table, ∀ k ∈ s.targets, θ.tierOfBlock? k = none

/-- **Media queries tell the tiers apart,** if the widths increase with the tiers. -/
theorem Theme.hasOwnBlockKeys_of_rule_eq_none {θ : Theme} (hrule : θ.breakpoints.rule = none)
    (hwidths : ∀ s t : Tier, s < t → θ.breakpoints.width s < θ.breakpoints.width t) :
    θ.HasOwnBlockKeys := by
  constructor
  · intro t
    have hfind : θ.tierOfBlock? (θ.blockKey t) = Tier.all.find? fun u => u = t := by
      unfold tierOfBlock?
      congr 1
      funext u
      exact decide_eq_decide.2 ⟨blockKey_injective hrule hwidths, congrArg θ.blockKey⟩
    rw [hfind]
    cases t <;> rfl
  · -- no property starts as a media query does
    have htargets : ∀ s ∈ Shorthand.table, ∀ k ∈ s.targets, k.toList.head? ≠ some '@' := by decide
    intro s hs k hk
    rw [tierOfBlock?, List.find?_eq_none]
    intro t _ hkey
    refine htargets s hs k hk ?_
    rw [← of_decide_eq_true hkey, blockKey_of_rule_eq_none hrule, head?_mediaRule]

namespace Value

variable {θ : Theme}

/-- A key that is the key of no block. -/
def NoBlock (θ : Theme) (key : String) (_ : Value) : Prop := θ.tierOfBlock? key = none

instance (key : String) (v : Value) : Decidable (NoBlock θ key v) :=
  inferInstanceAs (Decidable (θ.tierOfBlock? key = none))

/-- Expansion makes no block key: a new key is the target of a shorthand. -/
theorem noBlock_of_mem_expandEntries (hθ : θ.HasOwnBlockKeys) {es : Entries Value}
    (hes : EveryEntry (NoBlock θ) es) {p : String × Value} (hp : p ∈ expandEntries es) :
    θ.tierOfBlock? p.1 = none :=
  hes.key_of_mem_expandEntries hθ.tierOfBlock?_target hp

/-! ### The blocks of one object -/

theorem blockTiers_append (es fs : Entries Value) :
    θ.blockTiers (es ++ fs) = θ.blockTiers es ++ θ.blockTiers fs := by
  rw [Theme.blockTiers, keys_append, List.filterMap_append]
  rfl

theorem blockTiers_flatMap {α : Type} (l : List α) (f : α → Entries Value) :
    θ.blockTiers (l.flatMap f) = l.flatMap fun a => θ.blockTiers (f a) := by
  induction l with
  | nil => rfl
  | cons a l ih => rw [List.flatMap_cons, List.flatMap_cons, blockTiers_append, ih]

theorem blockTiers_single {key : String} (h : θ.tierOfBlock? key = none) (v : Value) :
    θ.blockTiers [(key, v)] = [] := by
  rw [Theme.blockTiers, keys_cons, List.filterMap_cons_none h]
  rfl

theorem blockTiers_block (hθ : θ.HasOwnBlockKeys) (t : Tier) (v : Value) :
    θ.blockTiers [(θ.blockKey t, v)] = [t] := by
  rw [Theme.blockTiers, keys_cons, List.filterMap_cons_some (hθ.tierOfBlock?_blockKey t)]
  rfl

/-- A tier has one block key, so tiers stand in the order of their keys. -/
theorem filterMap_tierOfBlock?_eraseDups (ks : List String) :
    ks.eraseDups.filterMap θ.tierOfBlock? = (ks.filterMap θ.tierOfBlock?).eraseDups := by
  refine filterMap_eraseDups ?_ ks
  intro k l t hk hl
  have hk' := List.find?_some hk
  have hl' := List.find?_some hl
  rw [← of_decide_eq_true hk', ← of_decide_eq_true hl']

theorem blockTiers_mergeEntries_nil (writes : Entries Value) :
    θ.blockTiers (mergeEntries [] writes) = (θ.blockTiers writes).eraseDups := by
  rw [Theme.blockTiers, keys_mergeEntries_nil, filterMap_tierOfBlock?_eraseDups]
  rfl

/-- **Merging two objects** leaves the blocks of the target in front of the new ones of the source.
-/
theorem blockTiers_mergeEntries {es : Entries Value} (hes : (keys es).Nodup)
    (fs : Entries Value) :
    θ.blockTiers (mergeEntries es fs) = (θ.blockTiers es ++ θ.blockTiers fs).eraseDups := by
  rw [Theme.blockTiers, keys_mergeEntries hes, filterMap_tierOfBlock?_eraseDups,
    List.filterMap_append]
  rfl

/-- A tier of a map writes its block, if it has a value and is not the base tier. -/
theorem blockTiers_tierWrites (hθ : θ.HasOwnBlockKeys) {key : String}
    (hkey : θ.tierOfBlock? key = none) (m : Entries Value) (tier : Tier) :
    θ.blockTiers (tierWrites θ key m tier) =
      [tier].filter fun t => !t.isBase && (present? t.name m).isSome := by
  cases hp : present? tier.name m with
  | none => simp [tierWrites_of_present?_eq_none hp, hp, Theme.blockTiers]
  | some v =>
    rw [tierWrites_of_present? hp, tierWrite]
    cases hbase : tier.isBase with
    | true => simp [blockTiers_single hkey, hbase]
    | false => simp [blockTiers_block hθ, hbase, hp]

theorem conditionalTiers_eq_flatMap (m : Entries Value) :
    conditionalTiers m = Tier.all.flatMap fun tier =>
      [tier].filter fun t => !t.isBase && (present? t.name m).isSome := by
  rw [conditionalTiers, ← List.filter_flatMap, List.flatMap_singleton']

/-- An object without tiers asks for no blocks. -/
theorem conditionalTiers_of_not_hasTier {m : Entries Value} (h : hasTier m = false) :
    conditionalTiers m = [] := by
  rw [hasTier_eq_false_iff] at h
  rw [conditionalTiers, List.filter_eq_nil_iff]
  intro t _
  have hnone : find? t.name m = none := find?_eq_none fun hmem => by
    have hname := h t.name hmem
    rw [Tier.isName_name] at hname
    cases hname
  rw [present?, hnone]
  simp

/-- Of what a property writes, the tiers of its map are blocks and nothing else. -/
theorem blockTiers_writes_property (hθ : θ.HasOwnBlockKeys) {key : String}
    (hkey : θ.tierOfBlock? key = none) (hname : Tier.ofName? key = none) (m : Entries Value) :
    θ.blockTiers (writes θ key (object m)) = conditionalTiers m := by
  cases ht : hasTier m with
  | false =>
    rw [writes_of_not_hasTier hname ht, blockTiers_single hkey, conditionalTiers_of_not_hasTier ht]
  | true =>
    have hselector : θ.blockTiers (selectorWrites θ key m) = [] := by
      unfold selectorWrites
      split
      · rfl
      · exact blockTiers_single hkey _
    -- the selector is no block, and the tiers come in ascending order on both sides
    rw [writes_of_hasTier hname ht, blockTiers_append, hselector, List.nil_append,
      blockTiers_flatMap, conditionalTiers_eq_flatMap]
    exact List.flatMap_congr fun t _ => blockTiers_tierWrites hθ hkey m t

/-- The blocks among the writes of an entry are those it asks for. -/
theorem blockTiers_writes (hθ : θ.HasOwnBlockKeys) {key : String}
    (hkey : θ.tierOfBlock? key = none) (v : Value)
    (ih : ∀ inner, v = object inner → θ.blockTiers (normalizeEntries θ inner) = blockOrder inner) :
    θ.blockTiers (writes θ key v) = entryBlocks key v := by
  cases hobj : v.isObject with
  | false =>
    rw [writes_of_not_isObject hobj, entryBlocks_of_not_isObject key hobj]
    split
    · rfl
    · exact blockTiers_single hkey _
  | true =>
    obtain ⟨inner, rfl⟩ := exists_entries_of_isObject hobj
    cases hname : Tier.ofName? key with
    | some tier =>
      rw [writes_tier hname, entryBlocks_tier hname, blockWrites]
      split
      · exact ih inner rfl
      · exact blockTiers_block hθ tier _
    | none => rw [blockTiers_writes_property hθ hkey hname, entryBlocks_property hname]

theorem nodup_normalizeEntries (θ : Theme) (es : Entries Value) :
    (keys (normalizeEntries θ es)).Nodup := by
  rw [normalizeEntries_eq]
  exact nodup_mergeEntries (by simp) _

/-- **The blocks of a normalized object** stand in the order in which its entries ask for them. -/
theorem blockTiers_normalizeEntries (hθ : θ.HasOwnBlockKeys) (es : Entries Value)
    (hes : EveryEntry (NoBlock θ) es) :
    θ.blockTiers (normalizeEntries θ es) = blockOrder es := by
  induction es using partInduction with
  | step es ih =>
    have hwrites : ∀ p ∈ expandEntries es,
        θ.blockTiers (writes θ p.1 p.2) = entryBlocks p.1 p.2 := by
      intro p hp
      refine blockTiers_writes hθ (noBlock_of_mem_expandEntries hθ hes hp) p.2 ?_
      intro inner hinner
      have hpart : IsPart p.2 inner := hinner ▸ .whole inner
      exact ih p hp inner hpart (hes.part_of_mem_expandEntries hp hpart)
    rw [normalizeEntries_eq, blockTiers_mergeEntries_nil, blockTiers_flatMap,
      List.flatMap_congr hwrites, blockOrder_eq]

end Value

end StyleSystem
