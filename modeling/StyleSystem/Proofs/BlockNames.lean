import Mathlib.Data.Set.Function
import StyleSystem.Proofs.Leaves
import StyleSystem.Proofs.Parts
import StyleSystem.Value

/-!
# The names of conditional blocks

The widths and the rule of a theme have one use, to name the conditional blocks, and a name has one
use, to tell a key from other keys. So two themes with the same spacing scale resolve a specification
to the same style up to the names of the blocks (`resolve_renameBlock`), as long as each tells its
blocks apart and the specification has none of the names itself. Otherwise a block would be merged
with another one, or with what the specification has under its name, in one run and not in the other.
The base tier has no block, and its name and its width may be anything.

Both runs merge the same writes up to a renaming of keys. The renaming tells the keys that are ever
written apart (`Theme.injOn_renameBlock`), so it goes through every merge
(`Value.renameEntries_mergeEntries`).
-/

namespace StyleSystem

/-!
## Renaming of keys

A function of keys renames those of an object and of every object reached from it through objects.
The order of the entries and the plain values stay as they are, and so does a list.

Renaming may make two keys equal. As long as it keeps a key apart from those of an object, writing to
the key and renaming is the same as renaming and writing to the renamed key
(`Value.renameEntries_update`).
-/

namespace Value

open Entries

mutual

/-- A value with the keys of the objects in it renamed. -/
def rename (ρ : String → String) : Value → Value
  | object entries => object (renameEntries ρ entries)
  | v => v

/-- Entries with renamed keys, at every level. -/
def renameEntries (ρ : String → String) : List (String × Value) → List (String × Value)
  | [] => []
  | (k, v) :: rest => (ρ k, rename ρ v) :: renameEntries ρ rest

end

variable {ρ : String → String}

/-- Renaming goes into objects. -/
@[simp] theorem rename_object (es : Entries Value) :
    rename ρ (object es) = object (renameEntries ρ es) := by
  rw [rename]

/-- Plain values stay as they are. -/
theorem rename_of_not_isObject {v : Value} (h : v.isObject = false) : rename ρ v = v := by
  cases v with
  | object es => cases h
  | null | bool _ | number _ | string _ | array _ => rw [rename]; nofun

@[simp] theorem isObject_rename (v : Value) : (rename ρ v).isObject = v.isObject := by
  cases v with
  | object es => rw [rename_object]; rfl
  | null | bool _ | number _ | string _ | array _ => rw [rename_of_not_isObject rfl]

@[simp] theorem renameEntries_nil : renameEntries ρ [] = [] := by rw [renameEntries]

@[simp] theorem renameEntries_cons (k : String) (v : Value) (es : Entries Value) :
    renameEntries ρ ((k, v) :: es) = (ρ k, rename ρ v) :: renameEntries ρ es := by
  rw [renameEntries]

theorem renameEntries_eq_map (es : Entries Value) :
    renameEntries ρ es = es.map fun p => (ρ p.1, rename ρ p.2) := by
  induction es with
  | nil => rw [renameEntries_nil]; rfl
  | cons p es ih => rw [renameEntries_cons, ih]; rfl

theorem renameEntries_append (es fs : Entries Value) :
    renameEntries ρ (es ++ fs) = renameEntries ρ es ++ renameEntries ρ fs := by
  simp only [renameEntries_eq_map, List.map_append]

theorem renameEntries_flatMap {α : Type} (l : List α) (f : α → Entries Value) :
    renameEntries ρ (l.flatMap f) = l.flatMap fun a => renameEntries ρ (f a) := by
  simp only [renameEntries_eq_map, List.map_flatMap]

/-- Renaming keeps the order of the keys. -/
theorem keys_renameEntries (es : Entries Value) :
    keys (renameEntries ρ es) = (keys es).map ρ := by
  rw [renameEntries_eq_map, keys, keys, List.map_map, List.map_map]
  rfl

/-- **Writing to a renamed key.** It is a renamed write, if no other key there gets the same name and
the new value comes from the old one in the same way. -/
theorem renameEntries_update {k : String} {f g : Option Value → Value} {es : Entries Value}
    (hk : ∀ l ∈ keys es, ρ l = ρ k → l = k)
    (hfg : ∀ old, (∀ w, old = some w → (k, w) ∈ es) → g (old.map (rename ρ)) = rename ρ (f old)) :
    renameEntries ρ (update k f es) = update (ρ k) g (renameEntries ρ es) := by
  induction es with
  | nil =>
    have hnew : g none = rename ρ (f none) := hfg none (by simp)
    rw [update, renameEntries_cons, renameEntries_nil, update, hnew]
  | cons p es ih =>
    obtain ⟨l, v⟩ := p
    rw [update, renameEntries_cons, update]
    by_cases hl : l = k
    · -- the write falls on the first entry
      subst hl
      have hold : g (some (rename ρ v)) = rename ρ (f (some v)) := by
        refine hfg (some v) ?_
        rintro w ⟨⟩
        exact List.mem_cons_self
      rw [if_pos rfl, if_pos rfl, renameEntries_cons, hold]
    · -- names of two keys are different, so that both writes go further down
      have hne : ρ l ≠ ρ k := fun h => hl (hk l List.mem_cons_self h)
      have hrest : renameEntries ρ (update k f es) = update (ρ k) g (renameEntries ρ es) := by
        refine ih (fun l' hl' => hk l' (List.mem_cons_of_mem _ hl')) ?_
        intro old hold
        exact hfg old fun w hw => List.mem_cons_of_mem _ (hold w hw)
      rw [if_neg hl, if_neg hne, renameEntries_cons, hrest]

end Value

/-! ## Two themes -/

open Entries

/-! ### Names of blocks -/

namespace Theme

/-- The conditional tier whose block has a key. -/
def blockTier? (θ : Theme) (key : String) : Option Tier :=
  Tier.all.find? fun t => !t.isBase && θ.blockKey t = key

/-- **The renaming from one theme to another one.** The key of a block becomes what the other theme
calls the block, and any other key stays. -/
def renameBlock (θ θ' : Theme) (key : String) : String :=
  ((θ.blockTier? key).map θ'.blockKey).getD key

/-- Conditional tiers have different block keys. -/
def HasDistinctBlocks (θ : Theme) : Prop :=
  ∀ s t : Tier, s.isBase = false → t.isBase = false → θ.blockKey s = θ.blockKey t → s = t

/-- A key that is no block key of either theme. -/
def IsFree (θ θ' : Theme) (key : String) : Prop :=
  ∀ t : Tier, t.isBase = false → θ.blockKey t ≠ key ∧ θ'.blockKey t ≠ key

/-- **Two themes that differ in the names of blocks only.** They have the same spacing scale, each
tells its blocks apart, and no block has the name of a property that a shorthand stands for. -/
structure SameUpToBlocks (θ θ' : Theme) : Prop where
  /-- The same spacing scale, as a function. -/
  pixels : ∀ n, θ.pixels n = θ'.pixels n
  /-- The first theme tells its blocks apart. -/
  distinct : θ.HasDistinctBlocks
  /-- The second theme tells its blocks apart. -/
  distinct' : θ'.HasDistinctBlocks
  /-- Expansion writes no block key. -/
  target : ∀ s ∈ Shorthand.table, ∀ k ∈ s.targets, IsFree θ θ' k

/-- The keys of normalized objects, block keys and free ones. -/
def writtenKeys (θ θ' : Theme) : Set String :=
  {key | (∃ t : Tier, t.isBase = false ∧ key = θ.blockKey t) ∨ IsFree θ θ' key}

instance (θ : Theme) : Decidable θ.HasDistinctBlocks :=
  decidable_of_iff (∀ s ∈ Tier.all, ∀ t ∈ Tier.all,
      s.isBase = false → t.isBase = false → θ.blockKey s = θ.blockKey t → s = t)
    ⟨fun h s t => h s s.mem_all t t.mem_all, fun h s _ t _ => h s t⟩

-- Two tiers with one width share a block.
example : ¬ (Theme.default.withWidth .sm 900).HasDistinctBlocks := by decide +kernel

instance (θ θ' : Theme) (key : String) : Decidable (IsFree θ θ' key) :=
  decidable_of_iff (∀ t ∈ Tier.all, t.isBase = false → θ.blockKey t ≠ key ∧ θ'.blockKey t ≠ key)
    ⟨fun h t => h t t.mem_all, fun h t _ => h t⟩

variable {θ θ' : Theme}

theorem blockTier?_eq_some {key : String} {t : Tier} (h : θ.blockTier? key = some t) :
    t.isBase = false ∧ θ.blockKey t = key := by
  have ht := List.find?_some h
  simpa using ht

/-- Each block takes the name that it has in the other theme. -/
theorem renameBlock_blockKey (hθ : θ.HasDistinctBlocks) {t : Tier} (ht : t.isBase = false) :
    θ.renameBlock θ' (θ.blockKey t) = θ'.blockKey t := by
  have hsome : θ.blockTier? (θ.blockKey t) = some t := by
    cases h : θ.blockTier? (θ.blockKey t) with
    | none =>
      have hnone := List.find?_eq_none.1 h t t.mem_all
      simp [ht] at hnone
    | some u =>
      -- the tier that is found has the same key, so it is the same tier
      obtain ⟨hu, hkey⟩ := blockTier?_eq_some h
      rw [hθ u t hu ht hkey]
  rw [renameBlock, hsome]
  rfl

/-- A key that is the name of no block keeps its name. -/
theorem renameBlock_of_isFree {key : String} (h : IsFree θ θ' key) :
    θ.renameBlock θ' key = key := by
  have hnone : θ.blockTier? key = none := by
    cases ht : θ.blockTier? key with
    | none => rfl
    | some t =>
      obtain ⟨hbase, hkey⟩ := blockTier?_eq_some ht
      exact absurd hkey (h t hbase).1
  rw [renameBlock, hnone]
  rfl

/-- The renaming tells written keys apart. -/
theorem injOn_renameBlock (h : SameUpToBlocks θ θ') :
    Set.InjOn (θ.renameBlock θ') (θ.writtenKeys θ') := by
  rintro k (⟨s, hs, rfl⟩ | hk) l (⟨t, ht, rfl⟩ | hl) heq
  · -- two blocks
    rw [renameBlock_blockKey h.distinct hs, renameBlock_blockKey h.distinct ht] at heq
    rw [h.distinct' s t hs ht heq]
  · -- a block and a free key, which is no name of the second theme either
    rw [renameBlock_blockKey h.distinct hs, renameBlock_of_isFree hl] at heq
    exact absurd heq (hl s hs).2
  · rw [renameBlock_of_isFree hk, renameBlock_blockKey h.distinct ht] at heq
    exact absurd heq.symm (hk t ht).2
  · rwa [renameBlock_of_isFree hk, renameBlock_of_isFree hl] at heq

end Theme

namespace Value

/-! ### Renaming and merging -/

section Merge

variable {K : Set String} {ρ : String → String}

theorem shallow_mem : Shallow fun k _ => k ∈ K := fun _ _ _ h => h

-- The recursion is that of `onto` and `mergeEntries`, on the value that comes over the other one.
mutual

/-- Renaming goes through one write of a merge. -/
theorem onto_rename (hρ : Set.InjOn ρ K) {key : String} {v : Value}
    (hv : Throughout (fun k _ => k ∈ K) key v) {old : Option Value}
    (hold : ∀ w, old = some w → Throughout (fun k _ => k ∈ K) key w) :
    onto (rename ρ v) (old.map (rename ρ)) = rename ρ (onto v old) := by
  cases hobj : v.isObject with
  | false =>
    have hobj' : (rename ρ v).isObject = false := by rw [isObject_rename, hobj]
    rw [onto_plain hobj, onto_plain hobj']
  | true =>
    obtain ⟨es, rfl⟩ := exists_entries_of_isObject hobj
    cases old with
    | none => rw [Option.map_none, onto_none, onto_none]
    | some w =>
      cases hw : w.isObject with
      | false =>
        have hw' : (rename ρ w).isObject = false := by rw [isObject_rename, hw]
        rw [Option.map_some, onto_of_not_isObject _ hw, onto_of_not_isObject _ hw']
      | true =>
        -- only here are two objects merged
        obtain ⟨fs, rfl⟩ := exists_entries_of_isObject hw
        have hfs : EveryEntry (fun k _ => k ∈ K) fs := (hold _ rfl).2 fs rfl
        have hes : EveryEntry (fun k _ => k ∈ K) es := hv.2 es rfl
        rw [Option.map_some, rename_object, rename_object, onto_object_object, onto_object_object,
          rename_object, renameEntries_mergeEntries hρ hfs hes]
termination_by sizeOf v

/-- **Renaming goes through a merge,** if it tells the keys of both sides apart. -/
theorem renameEntries_mergeEntries (hρ : Set.InjOn ρ K) {target source : Entries Value}
    (ht : EveryEntry (fun k _ => k ∈ K) target) (hs : EveryEntry (fun k _ => k ∈ K) source) :
    renameEntries ρ (mergeEntries target source) =
      mergeEntries (renameEntries ρ target) (renameEntries ρ source) := by
  match source with
  | [] => rw [mergeEntries_nil, renameEntries_nil, mergeEntries_nil]
  | (k, v) :: rest =>
    have hv : Throughout (fun k _ => k ∈ K) k v := hs.throughout List.mem_cons_self
    have hrest := hs.subset (List.subset_cons_self (k, v) rest)
    have hwrite : renameEntries ρ (update k (onto v) target) =
        update (ρ k) (onto (rename ρ v)) (renameEntries ρ target) := by
      apply renameEntries_update
      · -- the renaming tells `k` from the keys of the target
        intro l hl heq
        obtain ⟨w, hw⟩ := exists_mem_of_mem_keys hl
        exact hρ (ht.holds hw) hv.1 heq
      · intro old hold
        exact onto_rename hρ hv fun w hw => ht.throughout (hold w hw)
    -- after the write the target still has keys from `K` only, so the rest may be merged into it
    have htarget : EveryEntry (fun k _ => k ∈ K) (update k (onto v) target) := by
      have hone := ht.mergeEntries shallow_mem (everyEntry_cons.2 ⟨hv, everyEntry_nil⟩)
      rwa [mergeEntries_cons, mergeEntries_nil] at hone
    rw [mergeEntries_cons, renameEntries_cons, mergeEntries_cons, ← hwrite]
    exact renameEntries_mergeEntries hρ htarget hrest
termination_by sizeOf source

end

end Merge

/-! ### Two runs -/

variable {θ θ' : Theme} {key : String} {v : Value}

/-- Expansion makes no name of a block: a new key is the target of a shorthand. -/
theorem isFree_of_mem_expandEntries (h : Theme.SameUpToBlocks θ θ') {es : Entries Value}
    (hes : EveryEntry (fun k _ => Theme.IsFree θ θ' k) es) {p : String × Value}
    (hp : p ∈ expandEntries es) : Theme.IsFree θ θ' p.1 :=
  hes.key_of_mem_expandEntries h.target hp

/-- A write has written keys only, if the parts of the value have them once they are normalized. -/
theorem IsWrite.writtenKeys (hkey : Theme.IsFree θ θ' key)
    (ih : ∀ part, IsPart v part →
      EveryEntry (fun k _ => k ∈ θ.writtenKeys θ') (normalizeEntries θ part))
    {q : String × Value} (hq : IsWrite θ key v q) :
    Throughout (fun k _ => k ∈ θ.writtenKeys θ') q.1 q.2 := by
  have hblock : ∀ t : Tier, t.isBase = false → Entries Value → θ.blockKey t ∈ θ.writtenKeys θ' :=
    fun t ht _ => .inl ⟨t, ht, rfl⟩
  have hfree : key ∈ θ.writtenKeys θ' := .inr hkey
  exact hq.throughout hblock (fun _ _ => hfree) (fun _ _ _ => hfree) ih

/-- A normalized object has written keys only. -/
theorem everyEntry_normalizeEntries_writtenKeys (h : Theme.SameUpToBlocks θ θ') (es : Entries Value)
    (hes : EveryEntry (fun k _ => Theme.IsFree θ θ' k) es) :
    EveryEntry (fun k _ => k ∈ θ.writtenKeys θ') (normalizeEntries θ es) := by
  induction es using partInduction with
  | step es ih =>
    apply everyEntry_normalizeEntries_of shallow_mem
    intro p hp q hq
    refine hq.writtenKeys (isFree_of_mem_expandEntries h hes hp) ?_
    intro part hpart
    exact ih p hp part hpart (hes.part_of_mem_expandEntries hp hpart)

/-- A transformation depends on the spacing scale of the theme alone, so both themes transform
alike. -/
theorem rename_transform (h : Theme.SameUpToBlocks θ θ') (property : String)
    (hv : v.isObject = false) :
    rename (θ.renameBlock θ') (transform θ property v) = transform θ' property v := by
  have hobj : (transform θ property v).isObject = false := by rw [isObject_transform, hv]
  rw [rename_of_not_isObject hobj, transform_congr h.pixels]

theorem rename_normalizeTier (h : Theme.SameUpToBlocks θ θ') (property : String)
    (ih : ∀ nested, v = object nested →
      renameEntries (θ.renameBlock θ') (normalizeEntries θ nested) = normalizeEntries θ' nested) :
    rename (θ.renameBlock θ') (normalizeTier θ property v) = normalizeTier θ' property v := by
  cases hobj : v.isObject with
  | false =>
    rw [normalizeTier_of_not_isObject hobj, normalizeTier_of_not_isObject hobj,
      rename_transform h property hobj]
  | true =>
    obtain ⟨nested, rfl⟩ := exists_entries_of_isObject hobj
    rw [normalizeTier_object, normalizeTier_object, rename_object, ih nested rfl]

theorem renameEntries_blockWrites (h : Theme.SameUpToBlocks θ θ') (tier : Tier)
    (block : Entries Value) :
    renameEntries (θ.renameBlock θ') (blockWrites θ tier block) =
      blockWrites θ' tier (renameEntries (θ.renameBlock θ') block) := by
  unfold blockWrites
  cases hbase : tier.isBase with
  | true => rfl
  | false => simp [Theme.renameBlock_blockKey h.distinct hbase]

/-- A tier writes the same in both runs, in the block that each theme has for it. -/
theorem renameEntries_tierWrites (h : Theme.SameUpToBlocks θ θ') (hkey : Theme.IsFree θ θ' key)
    {inner : Entries Value} (tier : Tier)
    (ih : ∀ nested, (tier.name, object nested) ∈ inner →
      renameEntries (θ.renameBlock θ') (normalizeEntries θ nested) = normalizeEntries θ' nested) :
    renameEntries (θ.renameBlock θ') (tierWrites θ key inner tier) =
      tierWrites θ' key inner tier := by
  cases hp : present? tier.name inner with
  | none =>
    rw [tierWrites_of_present?_eq_none hp, tierWrites_of_present?_eq_none hp, renameEntries_nil]
  | some v =>
    have hvalue : rename (θ.renameBlock θ') (normalizeTier θ key v) = normalizeTier θ' key v := by
      apply rename_normalizeTier h
      rintro nested rfl
      exact ih nested (mem_of_find? (find?_of_present? hp))
    have hname : θ.renameBlock θ' key = key := Theme.renameBlock_of_isFree hkey
    rw [tierWrites_of_present? hp, tierWrites_of_present? hp, tierWrite, tierWrite]
    -- the base tier writes the property itself, so its block key is not asked for
    cases hbase : tier.isBase with
    | true => simp [hname, hvalue]
    | false => simp [hname, hvalue, Theme.renameBlock_blockKey h.distinct hbase]

/-- A nested selector is written the same in both runs, since it stands in no block. -/
theorem renameEntries_selectorWrites (hkey : Theme.IsFree θ θ' key) {inner : Entries Value}
    (ih : renameEntries (θ.renameBlock θ') (normalizeEntries θ (nonTiers inner)) =
      normalizeEntries θ' (nonTiers inner)) :
    renameEntries (θ.renameBlock θ') (selectorWrites θ key inner) = selectorWrites θ' key inner := by
  unfold selectorWrites
  split
  · exact renameEntries_nil
  · rw [renameEntries_cons, renameEntries_nil, rename_object, ih, Theme.renameBlock_of_isFree hkey]

/-- **The writes of an entry** in the two runs are the same up to the renaming, if the parts of its
value normalize to the same up to the renaming. -/
theorem renameEntries_writes (h : Theme.SameUpToBlocks θ θ') (hkey : Theme.IsFree θ θ' key)
    (ih : ∀ part, IsPart v part →
      renameEntries (θ.renameBlock θ') (normalizeEntries θ part) = normalizeEntries θ' part) :
    renameEntries (θ.renameBlock θ') (writes θ key v) = writes θ' key v := by
  have hname : θ.renameBlock θ' key = key := Theme.renameBlock_of_isFree hkey
  cases hobj : v.isObject with
  | false =>
    -- a plain value, transformed with the same spacing scale
    rw [writes_of_not_isObject hobj, writes_of_not_isObject hobj]
    split
    · exact renameEntries_nil
    · rw [renameEntries_cons, renameEntries_nil, hname, rename_transform h key hobj]
  | true =>
    obtain ⟨inner, rfl⟩ := exists_entries_of_isObject hobj
    cases htier : Tier.ofName? key with
    | some tier =>
      -- the block of a tier, the one key that is renamed here
      rw [writes_tier htier, writes_tier htier, renameEntries_blockWrites h, ih inner (.whole inner)]
    | none =>
      cases ht : hasTier inner with
      | true =>
        -- a tier map: the nested selector in it, and then its tiers
        have htiers : ∀ tier ∈ Tier.all,
            renameEntries (θ.renameBlock θ') (tierWrites θ key inner tier) =
              tierWrites θ' key inner tier :=
          fun tier _ => renameEntries_tierWrites h hkey tier fun nested hn => ih nested (.tier hn)
        rw [writes_of_hasTier htier ht, writes_of_hasTier htier ht, renameEntries_append,
          renameEntries_selectorWrites hkey (ih _ (.selector inner)), renameEntries_flatMap,
          List.flatMap_congr htiers]
      | false =>
        rw [writes_of_not_hasTier htier ht, writes_of_not_hasTier htier ht, renameEntries_cons,
          renameEntries_nil, hname, rename_object, ih inner (.whole inner)]

/-- **Normalization by two themes** that differ in the names of blocks only. -/
theorem renameEntries_normalizeEntries (h : Theme.SameUpToBlocks θ θ') (es : Entries Value)
    (hes : EveryEntry (fun k _ => Theme.IsFree θ θ' k) es) :
    renameEntries (θ.renameBlock θ') (normalizeEntries θ es) = normalizeEntries θ' es := by
  induction es using partInduction with
  | step es ih =>
    have hfree : ∀ p ∈ expandEntries es, Theme.IsFree θ θ' p.1 :=
      fun p hp => isFree_of_mem_expandEntries h hes hp
    have hparts : ∀ p ∈ expandEntries es, ∀ part, IsPart p.2 part →
        EveryEntry (fun k _ => Theme.IsFree θ θ' k) part :=
      fun p hp part hpart => hes.part_of_mem_expandEntries hp hpart
    -- the renaming goes through the merge of the writes, and then through each of them
    have hkeys : EveryEntry (fun k _ => k ∈ θ.writtenKeys θ')
        ((expandEntries es).flatMap fun p => writes θ p.1 p.2) := by
      apply everyEntry_writes
      intro p hp q hq
      refine hq.writtenKeys (hfree p hp) ?_
      intro part hpart
      exact everyEntry_normalizeEntries_writtenKeys h part (hparts p hp part hpart)
    have hwrites : ∀ p ∈ expandEntries es,
        renameEntries (θ.renameBlock θ') (writes θ p.1 p.2) = writes θ' p.1 p.2 := by
      intro p hp
      apply renameEntries_writes h (hfree p hp)
      intro part hpart
      exact ih p hp part hpart (hparts p hp part hpart)
    rw [normalizeEntries_eq, normalizeEntries_eq,
      renameEntries_mergeEntries (Theme.injOn_renameBlock h) everyEntry_nil hkeys,
      renameEntries_nil, renameEntries_flatMap, List.flatMap_congr hwrites]

end Value

/-! ### Specifications -/

open Value

/-- **Widths and the rule only name blocks.** Take two themes with the same spacing scale, each with
different keys for different conditional tiers, and a specification without functions of the theme
that has none of these keys at any level. What it resolves to with the one theme is what it resolves
to with the other, up to the renaming of block keys. -/
theorem resolve_renameBlock {F : Type} (call : Calls F) {θ θ' : Theme}
    (h : Theme.SameUpToBlocks θ θ') (s : SpecOver F) (hs : s.isGeneratorFree = true)
    (hkeys : ∀ style ∈ s.styles, EveryEntry (fun k _ => Theme.IsFree θ θ' k) style.entries) :
    ∃ r r', s.resolve call θ = .ok r ∧ s.resolve call θ' = .ok r' ∧
      r'.entries = renameEntries (θ.renameBlock θ') r.entries := by
  refine ⟨_, _, SpecOver.resolve_of_isGeneratorFree hs call θ,
    SpecOver.resolve_of_isGeneratorFree hs call θ', ?_⟩
  have hwritten : EveryEntry (fun k _ => k ∈ θ.writtenKeys θ')
      (s.styles.flatMap fun style => normalizeEntries θ style.entries) := by
    apply everyEntry_flatMap
    intro style hstyle
    exact everyEntry_normalizeEntries_writtenKeys h style.entries (hkeys style hstyle)
  have hstyles : ∀ style ∈ s.styles,
      renameEntries (θ.renameBlock θ') (normalizeEntries θ style.entries) =
        normalizeEntries θ' style.entries :=
    fun style hstyle => renameEntries_normalizeEntries h style.entries (hkeys style hstyle)
  -- both resolutions are a run of writes, and the renaming is injective on what is written
  calc (Style.empty.mergeAll (s.styles.map fun t => t.normalize θ')).entries
      = mergeEntries [] (s.styles.flatMap fun t => normalizeEntries θ' t.entries) := by
        rw [Style.entries_mergeAll, List.flatMap_map]
        rfl
    _ = mergeEntries (renameEntries (θ.renameBlock θ') [])
          (renameEntries (θ.renameBlock θ')
            (s.styles.flatMap fun t => normalizeEntries θ t.entries)) := by
        rw [renameEntries_nil, renameEntries_flatMap, List.flatMap_congr hstyles]
    _ = renameEntries (θ.renameBlock θ')
          (mergeEntries [] (s.styles.flatMap fun t => normalizeEntries θ t.entries)) := by
        rw [renameEntries_mergeEntries (Theme.injOn_renameBlock h) everyEntry_nil hwritten]
    _ = renameEntries (θ.renameBlock θ')
          (Style.empty.mergeAll (s.styles.map fun t => t.normalize θ)).entries := by
        rw [Style.entries_mergeAll, List.flatMap_map]
        rfl

/-- The built-in theme with container queries as block keys. The base tier has a name as well, which
is never used. -/
def containers : Theme := Theme.default.withRule fun t _ => "@container " ++ t.name

/-- A tier map and a tier block, next to a key with the name of the base tier. -/
def responsive : Spec :=
  .list [
    .object (.ofEntries [("px", .object [("xs", .number (.int 1)), ("md", .number (.int 2))])]),
    .object (.ofEntries [("md", .object [("height", .number (.int 4))]),
      ("@container xs", .object [("m", .object [("lg", .number (.int 3))])])])]

/-- What they resolve to, by the names of two blocks. -/
def responsiveResolved (md lg : String) : Style :=
  .ofEntries [
    ("paddingLeft", .string "8px"),
    (md, .object [("paddingLeft", .string "16px"), ("paddingRight", .string "16px"),
      ("height", .string "4px")]),
    ("paddingRight", .string "8px"),
    ("@container xs", .object [(lg, .object [("margin", .string "24px")])])]

theorem resolve_responsive :
    responsive.resolve .default =
        .ok (responsiveResolved "@media (min-width:900px)" "@media (min-width:1200px)") ∧
      responsive.resolve containers = .ok (responsiveResolved "@container md" "@container lg") := by
  constructor <;> decide +kernel

theorem resolve_renameBlock_responsive :
    Theme.SameUpToBlocks .default containers ∧ responsive.isGeneratorFree = true ∧
      (∀ style ∈ responsive.styles,
        EveryEntry (fun k _ => Theme.IsFree .default containers k) style.entries) ∧
      responsive.resolve .default =
        .ok (responsiveResolved "@media (min-width:900px)" "@media (min-width:1200px)") ∧
      responsive.resolve containers = .ok (responsiveResolved "@container md" "@container lg") ∧
      (responsiveResolved "@container md" "@container lg").entries =
        renameEntries (Theme.default.renameBlock containers)
          (responsiveResolved "@media (min-width:900px)" "@media (min-width:1200px)").entries := by
  have hthemes : Theme.SameUpToBlocks .default containers :=
    ⟨fun _ => rfl, by decide +kernel, by decide +kernel, by decide +kernel⟩
  have hs : responsive.isGeneratorFree = true := by decide
  have hkeys : ∀ style ∈ responsive.styles,
      EveryEntry (fun k _ => Theme.IsFree .default containers k) style.entries := by
    decide +kernel
  obtain ⟨r, r', hr, hr', hrename⟩ := resolve_renameBlock ThemeFunction.call hthemes responsive hs
    hkeys
  have heq := Except.ok.inj (hr.symm.trans resolve_responsive.1)
  have heq' := Except.ok.inj (hr'.symm.trans resolve_responsive.2)
  rw [heq, heq'] at hrename
  exact ⟨hthemes, hs, hkeys, resolve_responsive.1, resolve_responsive.2, hrename⟩

end StyleSystem
