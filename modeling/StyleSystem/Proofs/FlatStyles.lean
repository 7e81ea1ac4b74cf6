import StyleSystem.Proofs.Expansion
import StyleSystem.Proofs.Leaves
import StyleSystem.Proofs.MergeByKey
import StyleSystem.Proofs.Parts
import StyleSystem.Property
import StyleSystem.Style.Normal
import StyleSystem.Style.Shorthand
import StyleSystem.Theme.Order

/-!
# Resolving flat styles

A flat style resolves to what `Style.IsFlatResolution` says (`resolve_flat`), as long as no property
of it has the key of a block.

Its normal form is one merge of many writes, read key by key. At a property there is one write at
most, its plain value or that of the base tier. At the key of a block there are the writes of all
properties with a tier map, each an object with one plain value (`Value.valuesAt_writes_block`). They
merge into the object that has, for each property, the last value that is written; and this is the
value of the largest tier, since the tiers of a map are written in ascending order.

The base tier is never one of the tiers of a block. A theme may give it the key of another tier, and
then the block with this key still has nothing of it (`base_not_inBlock`).
-/

namespace StyleSystem

/-!
## Flat styles

In a flat style every property has a plain value or a map from tiers to plain values, and nothing
stands under a tier. What such a style resolves to can be said outright, with no order in which
anything is merged; `Style.IsFlatResolution` says it.

* Outside of every block, a property has its plain value or that of the base tier.
* In the block with some key, a property has the value of the largest tier that the block is for and
  that the map of the property has a value for (`Value.GivesInBlock`). Several tiers may share a
  block, if their widths or the rule of the theme make it so. The base tier has no block, even where
  its block key is that of another tier.
* Nothing else is there.
-/

open Entries

/-- Whether a value is plain, or a map that has plain values for one tier or more and no other
keys. -/
def Value.isFlat : Value → Bool
  | .object m => !m.isEmpty && m.all fun p => Tier.isName p.1 && !p.2.isObject
  | _ => true

/-- **Flat styles:** no key is a tier, and each value is plain or a map from tiers to plain values. -/
def Style.IsFlat (s : Style) : Prop :=
  ∀ p ∈ s.entries, Tier.isName p.1 = false ∧ p.2.isFlat = true

instance (s : Style) : Decidable s.IsFlat :=
  inferInstanceAs (Decidable (∀ p ∈ s.entries, Tier.isName p.1 = false ∧ p.2.isFlat = true))

/-- Whether the theme has conditional blocks with a key. -/
def Theme.HasBlock (θ : Theme) (q : String) : Prop := ∃ t : Tier, t.isBase = false ∧ θ.blockKey t = q

/-- **The value of a property in a block:** what its tier map says for the largest tier of the block
that it has a value for. -/
def Value.GivesInBlock (θ : Theme) (q property : String) (m : Entries Value) (w : Value) : Prop :=
  ∃ t v, t.isBase = false ∧ θ.blockKey t = q ∧ present? t.name m = some v ∧
    (∀ u, t < u → θ.blockKey u = q → present? u.name m = none) ∧ w = transform θ property v

/-- A flat style gives a property a value in the block with some key. -/
def Style.GivesInBlock (s : Style) (θ : Theme) (q property : String) (w : Value) : Prop :=
  ∃ m, s.expand.find? property = some (.object m) ∧ Value.GivesInBlock θ q property m w

/-- **What a flat style resolves to.** -/
structure Style.IsFlatResolution (θ : Theme) (s r : Style) : Prop where
  /-- A property with a plain value. -/
  plain : ∀ k v, s.expand.find? k = some v → v.isObject = false →
    r.find? k = some (transform θ k v)
  /-- A property with a tier map, outside of every block. -/
  base : ∀ k m, s.expand.find? k = some (.object m) →
    r.find? k = (present? Tier.base.name m).map (transform θ k)
  /-- A block in which some property has a value. -/
  block : ∀ q, θ.HasBlock q → (∃ k w, s.GivesInBlock θ q k w) →
    ∃ es, r.find? q = some (.object es) ∧ ∀ k w, Entries.find? k es = some w ↔ s.GivesInBlock θ q k w
  /-- A block in which no property has a value. -/
  no_block : ∀ q, θ.HasBlock q → (∀ k w, ¬ s.GivesInBlock θ q k w) → r.find? q = none
  /-- Any other key. -/
  nothing_else : ∀ k, s.expand.find? k = none → ¬ θ.HasBlock k → r.find? k = none

/-! ## Their resolution -/

/-! ### The last of the tiers -/

/-- What is found for the tiers in ascending order ends in what is found for the largest. -/
theorem Tier.getLast?_filterMap_all {β : Type} (f : Tier → Option β) (w : β) :
    (all.filterMap f).getLast? = some w ↔ ∃ t, f t = some w ∧ ∀ u, t < u → f u = none := by
  have hdesc : all.reverse.Pairwise fun t u => u < t := by decide
  -- the last tier with a value is the first one from the other end
  rw [List.getLast?_filterMap, List.findSome?_eq_some_iff]
  constructor
  · rintro ⟨larger, t, smaller, hall, ht, hlarger⟩
    refine ⟨t, ht, ?_⟩
    intro u htu
    have hu : u ∈ larger ++ t :: smaller := hall ▸ List.mem_reverse.2 (mem_all u)
    rw [hall, List.pairwise_append, List.pairwise_cons] at hdesc
    rw [List.mem_append, List.mem_cons] at hu
    rcases hu with hu | rfl | hu
    · exact hlarger u hu
    · exact absurd htu (lt_irrefl u)
    · exact absurd htu (lt_asymm (hdesc.2.1.1 u hu))
  · rintro ⟨t, ht, hlarger⟩
    obtain ⟨larger, smaller, hall⟩ := List.append_of_mem (List.mem_reverse.2 (mem_all t))
    refine ⟨larger, t, smaller, hall, ht, ?_⟩
    intro u hu
    rw [hall, List.pairwise_append] at hdesc
    exact hlarger u (hdesc.2.2 u hu t List.mem_cons_self)

theorem Tier.isBase_of_lt {t u : Tier} (h : t < u) : u.isBase = false := by
  revert h
  cases t <;> cases u <;> decide

namespace Value

variable {θ : Theme} {k q : String} {m : Entries Value}

/-! ### The writes of one property -/

theorem isFlat_object (h : isFlat (object m) = true) :
    hasTier m = true ∧ nonTiers m = [] ∧ ∀ p ∈ m, p.2.isObject = false := by
  simp only [isFlat, Bool.and_eq_true, Bool.not_eq_true', List.all_eq_true] at h
  obtain ⟨hne, hall⟩ := h
  refine ⟨?_, ?_, fun p hp => (hall p hp).2⟩
  · cases m with
    | nil => cases hne
    | cons p m => simp [hasTier, (hall p List.mem_cons_self).1]
  · rw [nonTiers, List.filter_eq_nil_iff]
    intro p hp
    simp [(hall p hp).1]

theorem isObject_of_mem_contents {v : Value} (hv : isFlat v = true) {p : String × Value}
    (hp : p ∈ v.contents) : p.2.isObject = false := by
  cases hobj : v.isObject with
  | false =>
    rw [contents_of_not_isObject hobj] at hp
    cases hp
  | true =>
    obtain ⟨m, rfl⟩ := exists_entries_of_isObject hobj
    exact (isFlat_object hv).2.2 p hp

/-- A flat map writes its tiers and nothing else. -/
theorem writes_of_isFlat (hk : Tier.isName k = false) (hm : isFlat (object m) = true) :
    writes θ k (object m) = Tier.all.flatMap fun t =>
      ((present? t.name m).map fun v => tierWrite θ k t (transform θ k v)).toList := by
  obtain ⟨ht, hrest, hplain⟩ := isFlat_object hm
  have hselector : selectorWrites θ k m = [] := by rw [selectorWrites, if_pos hrest]
  rw [writes_of_hasTier (Tier.ofName?_eq_none_iff.2 hk) ht, hselector, List.nil_append]
  refine List.flatMap_congr fun t _ => ?_
  cases hv : present? t.name m with
  | none => rw [tierWrites_of_present?_eq_none hv]; rfl
  | some v =>
    have hobj : v.isObject = false := hplain _ (mem_of_find? (find?_of_present? hv))
    rw [tierWrites_of_present? hv, normalizeTier_of_not_isObject hobj]
    rfl

/-- A property writes at its own key and at those of blocks. -/
theorem IsWrite.key {v : Value} {e : String × Value} (h : IsWrite θ k v e)
    (hk : Tier.isName k = false) : e.1 = k ∨ θ.HasBlock e.1 := by
  cases h with
  | baseBlock hkey _ _ | block hkey _ =>
    -- only a tier writes these
    rw [Tier.isName, hkey] at hk
    cases hk
  | selector _ _ _ | nested _ _ | plain _ _ => exact .inl rfl
  | @tier _ t _ _ _ _ =>
    unfold tierWrite
    by_cases hbase : t.isBase = true
    · rw [if_pos hbase]
      exact .inl rfl
    · rw [if_neg hbase]
      exact .inr ⟨t, by simpa using hbase, rfl⟩

/-- **At the key of the property,** a tier map writes the value of the base tier. -/
theorem valuesAt_writes_self (hk : Tier.isName k = false) (hm : isFlat (object m) = true)
    (hblock : ¬ θ.HasBlock k) :
    valuesAt k (writes θ k (object m)) =
      ((present? Tier.base.name m).map (transform θ k)).toList := by
  -- every other tier goes to a block
  have hother : ∀ t : Tier, t.isBase = false →
      valuesAt k ((present? t.name m).map fun v => tierWrite θ k t (transform θ k v)).toList = [] := by
    intro t ht
    have hne : θ.blockKey t ≠ k := fun h => hblock ⟨t, ht, h⟩
    cases present? t.name m with
    | none => rfl
    | some v => simp [tierWrite, ht, valuesAt_cons, hne]
  have hbase : valuesAt k ((present? Tier.base.name m).map fun v =>
      tierWrite θ k Tier.base (transform θ k v)).toList =
        ((present? Tier.base.name m).map (transform θ k)).toList := by
    cases present? Tier.base.name m with
    | none => rfl
    | some v => simp [tierWrite, Tier.isBase, valuesAt_cons]
  have hall : Tier.all = [Tier.base, .sm, .md, .lg, .xl] := rfl
  rw [writes_of_isFlat hk hm, valuesAt_flatMap, hall]
  simp only [List.flatMap_cons, List.flatMap_nil, hbase, hother .sm rfl, hother .md rfl,
    hother .lg rfl, hother .xl rfl, List.append_nil]

/-- The entries that a property adds to the block with some key, the smallest tier first. -/
def inBlock (θ : Theme) (q : String) (p : String × Value) : Entries Value :=
  Tier.all.filterMap fun t =>
    if t.isBase = false ∧ θ.blockKey t = q then
      (present? t.name p.2.contents).map fun v => (p.1, transform θ p.1 v)
    else none

/-- **At the key of a block,** a property writes objects with one entry each. -/
theorem valuesAt_writes_block (hk : Tier.isName k = false) {v : Value} (hv : isFlat v = true)
    (hne : k ≠ q) :
    valuesAt q (writes θ k v) = (inBlock θ q (k, v)).map fun e => object [e] := by
  cases hobj : v.isObject with
  | false =>
    -- a plain value goes to no block
    have hnone : inBlock θ q (k, v) = [] := by
      unfold inBlock
      rw [contents_of_not_isObject hobj, List.filterMap_eq_nil_iff]
      intro t _
      split <;> rfl
    rw [writes_of_not_isObject hobj, hk, if_neg Bool.false_ne_true, valuesAt_cons, if_neg hne, hnone]
    rfl
  | true =>
    obtain ⟨m, rfl⟩ := exists_entries_of_isObject hobj
    rw [writes_of_isFlat hk hv, valuesAt_flatMap, inBlock, List.map_filterMap,
      List.filterMap_eq_flatMap_toList]
    refine List.flatMap_congr fun t _ => ?_
    rw [contents_object]
    cases present? t.name m with
    | none => simp
    | some w =>
      by_cases hbase : t.isBase = true
      · simp [tierWrite, hbase, valuesAt_cons, hne]
      · by_cases hq : θ.blockKey t = q
        · simp [tierWrite, hbase, valuesAt_cons, hq]
        · simp [tierWrite, hbase, valuesAt_cons, hq]

theorem mem_inBlock {p e : String × Value} (h : e ∈ inBlock θ q p) :
    e.1 = p.1 ∧ ∃ x, (∃ t : Tier, (t.name, x) ∈ p.2.contents) ∧ e.2 = transform θ p.1 x := by
  obtain ⟨t, -, ht⟩ := List.mem_filterMap.1 h
  split at ht
  · obtain ⟨x, hx, rfl⟩ := Option.map_eq_some_iff.1 ht
    exact ⟨rfl, x, ⟨t, mem_of_find? (find?_of_present? hx)⟩, rfl⟩
  · cases ht

theorem valuesAt_inBlock (v : Value) :
    valuesAt k (inBlock θ q (k, v)) = Tier.all.filterMap fun t =>
      if t.isBase = false ∧ θ.blockKey t = q then
        (present? t.name v.contents).map (transform θ k)
      else none := by
  unfold valuesAt inBlock
  rw [List.filterMap_filterMap]
  congr 1
  funext t
  split
  · cases present? t.name v.contents <;> simp
  · rfl

/-- What a property adds to a block ends in its value there. -/
theorem getLast?_valuesAt_inBlock {v w : Value} :
    (valuesAt k (inBlock θ q (k, v))).getLast? = some w ↔ GivesInBlock θ q k v.contents w := by
  rw [valuesAt_inBlock, Tier.getLast?_filterMap_all]
  constructor
  · rintro ⟨t, ht, hlarger⟩
    split at ht
    · next hblock =>
      obtain ⟨x, hx, rfl⟩ := Option.map_eq_some_iff.1 ht
      refine ⟨t, x, hblock.1, hblock.2, hx, ?_, rfl⟩
      intro u htu hu
      -- a tier larger than another one is not the base tier
      have hnone := hlarger u htu
      rw [if_pos ⟨Tier.isBase_of_lt htu, hu⟩] at hnone
      exact Option.map_eq_none_iff.1 hnone
    · cases ht
  · rintro ⟨t, x, hbase, hq, hx, hlarger, rfl⟩
    refine ⟨t, ?_, ?_⟩
    · rw [if_pos ⟨hbase, hq⟩, hx, Option.map_some]
    · intro u htu
      split
      · next hblock => rw [hlarger u htu hblock.2, Option.map_none]
      · rfl

end Value

/-! ### The writes of a flat style -/

namespace Style

variable {θ : Theme} {s : Style}

/-- An expanded flat style is flat. -/
theorem IsFlat.expand (hs : s.IsFlat) : s.expand.IsFlat := by
  intro p hp
  obtain ⟨declaring, hmem, ht, -⟩ := Value.mem_expandEntries hp
  have hdeclaring := hs _ hmem
  rw [Shorthand.isName_of_mem_targets ht]
  exact hdeclaring

theorem find?_normalize (s : Style) (θ : Theme) (k : String) :
    (s.normalize θ).find? k =
      Value.written none (s.expand.entries.flatMap fun p => valuesAt k (Value.writes θ p.1 p.2)) := by
  have hwrites : (s.normalize θ).entries =
      Value.mergeEntries [] (s.expand.entries.flatMap fun p => Value.writes θ p.1 p.2) :=
    Value.normalizeEntries_eq θ s.entries
  rw [find?, hwrites, Value.find?_mergeEntries_eq_written, valuesAt_flatMap]
  rfl

/-- **A key of no block** has what its own property writes there. -/
theorem find?_normalize_of_not_hasBlock (hs : s.IsFlat) {k : String} (hk : ¬ θ.HasBlock k) :
    (s.normalize θ).find? k = Value.written none
      ((s.expand.find? k).toList.flatMap fun v => valuesAt k (Value.writes θ k v)) := by
  rw [find?_normalize, flatMap_eq_of_nodup s.expand.distinct.1 ?_]
  · rfl
  · intro p hp hne
    rw [valuesAt_eq_nil_iff]
    intro hmem
    obtain ⟨v, hv⟩ := exists_mem_of_mem_keys hmem
    rcases (Value.isWrite_of_mem_writes hv).key (hs.expand p hp).1 with h | h
    · exact hne h.symm
    · exact hk h

/-- All that the properties of a style add to the block with some key. -/
def blockEntries (s : Style) (θ : Theme) (q : String) : Entries Value :=
  s.expand.entries.flatMap (Value.inBlock θ q)

/-- **The key of a block** has all that the properties add to the block, merged. -/
theorem find?_normalize_of_hasBlock (hs : s.IsFlat) {q : String}
    (hq : s.expand.find? q = none) :
    (s.normalize θ).find? q =
      if s.blockEntries θ q = [] then none
      else some (.object (Value.mergeEntries [] (s.blockEntries θ q))) := by
  have hvalues : (s.expand.entries.flatMap fun p => valuesAt q (Value.writes θ p.1 p.2)) =
      (s.blockEntries θ q).map fun e => .object [e] := by
    rw [blockEntries, List.map_flatMap]
    refine List.flatMap_congr fun p hp => ?_
    obtain ⟨hk, hv⟩ := hs.expand p hp
    refine Value.valuesAt_writes_block hk hv ?_
    rintro rfl
    exact notMem_keys_of_find?_eq_none hq (mem_keys_of_mem hp)
  rw [find?_normalize, hvalues]
  by_cases hnil : s.blockEntries θ q = []
  · rw [if_pos hnil, hnil]
    rfl
  · have hmap : (s.blockEntries θ q).map (fun e => Value.object [e]) ≠ [] := by simpa using hnil
    have hnone : ∀ fs, (none : Option Value) ≠ some (.object fs) := nofun
    -- what is in the objects, one entry each, is what the properties add
    rw [if_neg hnil, Value.written_of_not_object ?_ ?_ hmap hnone, List.flatMap_map]
    · exact congrArg (fun es => some (Value.object (Value.mergeEntries [] es)))
        (List.flatMap_singleton' _)
    · intro v hv
      obtain ⟨e, -, rfl⟩ := List.mem_map.1 hv
      rfl
    · intro v hv
      obtain ⟨e, -, rfl⟩ := List.mem_map.1 hv
      simp [keys]

theorem isObject_of_mem_blockEntries (hs : s.IsFlat) {q : String} {e : String × Value}
    (he : e ∈ s.blockEntries θ q) : e.2.isObject = false := by
  obtain ⟨p, hp, he⟩ := List.mem_flatMap.1 he
  obtain ⟨-, x, ⟨t, hx⟩, hex⟩ := Value.mem_inBlock he
  rw [hex, isObject_transform]
  exact Value.isObject_of_mem_contents (hs.expand p hp).2 hx

/-- The values for a property in a block come from the property itself. -/
theorem valuesAt_blockEntries (s : Style) (θ : Theme) (q k : String) :
    valuesAt k (s.blockEntries θ q) =
      (s.expand.find? k).toList.flatMap fun v => valuesAt k (Value.inBlock θ q (k, v)) := by
  rw [blockEntries, valuesAt_flatMap, flatMap_eq_of_nodup s.expand.distinct.1 ?_]
  · rfl
  · intro p _ hne
    rw [List.eq_nil_iff_forall_not_mem]
    intro v hv
    exact hne (Value.mem_inBlock (mem_valuesAt.1 hv)).1.symm

/-- A plain value says nothing for any tier, so it need not be excluded. -/
theorem givesInBlock_iff {q k : String} {w : Value} :
    s.GivesInBlock θ q k w ↔
      ∃ v, s.expand.find? k = some v ∧ Value.GivesInBlock θ q k v.contents w := by
  constructor
  · rintro ⟨m, hm, h⟩
    exact ⟨.object m, hm, h⟩
  · rintro ⟨v, hv, h⟩
    cases hobj : v.isObject with
    | true =>
      obtain ⟨m, rfl⟩ := Value.exists_entries_of_isObject hobj
      exact ⟨m, hv, h⟩
    | false =>
      obtain ⟨t, x, -, -, hx, -⟩ := h
      rw [Value.contents_of_not_isObject hobj] at hx
      cases hx

/-- **What a block has for a property** is what the style gives the property there. -/
theorem find?_blockEntries (hs : s.IsFlat) {q k : String} {w : Value} :
    Entries.find? k (Value.mergeEntries [] (s.blockEntries θ q)) = some w ↔
      s.GivesInBlock θ q k w := by
  have hplain : ∀ v ∈ valuesAt k (s.blockEntries θ q), v.isObject = false :=
    fun v hv => isObject_of_mem_blockEntries hs (mem_valuesAt.1 hv)
  have hnil : Entries.find? k ([] : Entries Value) = none := rfl
  -- plain values replace each other, so the last one is left
  rw [Value.find?_mergeEntries_eq_written, Value.written_of_plains hplain, hnil, Option.or_none,
    valuesAt_blockEntries, givesInBlock_iff]
  cases s.expand.find? k with
  | none => simp
  | some v =>
    rw [Option.toList_some, List.flatMap_singleton, Value.getLast?_valuesAt_inBlock]
    simp

/-- A block in which no property has a value has no entries. -/
theorem blockEntries_eq_nil_iff (hs : s.IsFlat) {q : String} :
    s.blockEntries θ q = [] ↔ ∀ k w, ¬ s.GivesInBlock θ q k w := by
  constructor
  · intro hnil k w h
    rw [← find?_blockEntries hs, hnil] at h
    cases h
  · intro h
    by_contra hne
    -- the first entry has a key, and something stands there after the merge
    obtain ⟨e, he⟩ := List.exists_mem_of_ne_nil _ hne
    have hkey : e.1 ∈ keys (Value.mergeEntries [] (s.blockEntries θ q)) := by
      rw [Value.keys_mergeEntries_nil, List.mem_eraseDups]
      exact mem_keys_of_mem he
    obtain ⟨w, hw⟩ := exists_mem_of_mem_keys hkey
    have hfind := (find?_eq_some_iff (Value.nodup_mergeEntries (by simp) _)).2 hw
    exact h _ _ ((find?_blockEntries hs).1 hfind)

end Style

/-- **Flat styles.** A flat style in which no property has the key of a block resolves, and to what
is said of it: each property has its plain value, or that of the base tier, and each block has for
each property the value of the largest of its tiers. -/
theorem resolve_flat {F : Type} (call : Calls F) (θ : Theme) (s : Style) (hs : s.IsFlat)
    (hblocks : ∀ q, θ.HasBlock q → s.expand.find? q = none) :
    ∃ r, (SpecOver.object s).resolve call θ = .ok r ∧ s.IsFlatResolution θ r := by
  refine ⟨s.normalize θ, SpecOver.resolve_object s call θ, ?_⟩
  have hproperty : ∀ {k v}, s.expand.find? k = some v → ¬ θ.HasBlock k := by
    intro k v hv hk
    rw [hblocks k hk] at hv
    cases hv
  have hname : ∀ {k v}, s.expand.find? k = some v → Tier.isName k = false := fun hv =>
    (hs.expand _ (mem_of_find? hv)).1
  have hflat : ∀ {k v}, s.expand.find? k = some v → v.isFlat = true := fun hv =>
    (hs.expand _ (mem_of_find? hv)).2
  constructor
  · -- a plain value
    intro k v hv hobj
    rw [Style.find?_normalize_of_not_hasBlock hs (hproperty hv), hv, Option.toList_some,
      List.flatMap_singleton, Value.writes_of_not_isObject hobj, hname hv,
      if_neg Bool.false_ne_true, valuesAt_cons, if_pos rfl, valuesAt_nil]
    exact Value.written_toList (some _)
  · -- a tier map, outside of every block
    intro k m hm
    have hblock := hproperty hm
    rw [Style.find?_normalize_of_not_hasBlock hs hblock, hm, Option.toList_some,
      List.flatMap_singleton, Value.valuesAt_writes_self (hname hm) (hflat hm) hblock,
      Value.written_toList]
  · -- a block
    rintro q hq ⟨k, w, hkw⟩
    have hne : s.blockEntries θ q ≠ [] := fun hnil =>
      (Style.blockEntries_eq_nil_iff hs).1 hnil k w hkw
    refine ⟨_, ?_, fun k w => Style.find?_blockEntries hs⟩
    rw [Style.find?_normalize_of_hasBlock hs (hblocks q hq), if_neg hne]
  · -- a block that is not there
    intro q hq hnone
    rw [Style.find?_normalize_of_hasBlock hs (hblocks q hq),
      if_pos ((Style.blockEntries_eq_nil_iff hs).2 hnone)]
  · -- any other key
    intro k hk hblock
    rw [Style.find?_normalize_of_not_hasBlock hs hblock, hk]
    rfl

/-- A theme in which the two largest tiers share a block. -/
def wideTheme : Theme := Theme.default.withWidth .xl 1200

/-- Two properties of one shorthand with a tier map, one of them overridden, a map of nulls, and
plain values. -/
def panel : Style :=
  .ofEntries [
    ("px", .object [("xl", .number (.int 3)), ("lg", .number (.int 2)), ("xs", .number (.int 1))]),
    ("bg", .string "primary"), ("pr", .object [("md", .number (.int 4)), ("lg", .null)]),
    ("m", .object [("xs", .null), ("sm", .null)]),
    ("width", .object [("lg", .number (.int 400)), ("xl", .null)])]

/-- What the panel resolves to. -/
def panelResolved : Style :=
  .ofEntries [
    ("paddingLeft", .string "8px"),
    ("@media (min-width:1200px)",
      .object [("paddingLeft", .string "24px"), ("width", .string "400px")]),
    ("@media (min-width:900px)", .object [("paddingRight", .string "32px")]),
    ("backgroundColor", .string "var(--ld-color-primary, var(--color-primary, #3b82f6))")]

theorem resolve_panel :
    (SpecOver.object panel).resolve ThemeFunction.call wideTheme = .ok panelResolved := by
  decide +kernel

theorem resolve_flat_panel :
    panel.IsFlat ∧ (∀ q, wideTheme.HasBlock q → panel.expand.find? q = none) ∧
      (SpecOver.object panel).resolve ThemeFunction.call wideTheme = .ok panelResolved ∧
      panel.IsFlatResolution wideTheme panelResolved := by
  have hflat : panel.IsFlat := by decide +kernel
  have hblocks : ∀ q, wideTheme.HasBlock q → panel.expand.find? q = none := by
    rintro q ⟨t, -, rfl⟩
    cases t <;> decide +kernel
  obtain ⟨r, hr, hpanel⟩ := resolve_flat ThemeFunction.call wideTheme panel hflat hblocks
  rw [resolve_panel] at hr
  cases hr
  exact ⟨hflat, hblocks, resolve_panel, hpanel⟩

/-! ### The base tier -/

/-- A flat style gives a property a value for some tier with a block key, the base tier among them:
what its tier map says for the largest of these tiers that it has a value for. -/
def Style.GivesForKey (s : Style) (θ : Theme) (q property : String) (w : Value) : Prop :=
  ∃ m t v, s.expand.find? property = some (.object m) ∧ θ.blockKey t = q ∧
    present? t.name m = some v ∧ (∀ u, t < u → θ.blockKey u = q → present? u.name m = none) ∧
    w = transform θ property v

/-- A theme in which the smallest conditional tier has the width of the base tier. -/
def groundTheme : Theme := Theme.default.withWidth .sm 0

/-- A tier map for the base tier alone. -/
def baseOnly : Style := .ofEntries [("width", .object [("xs", .number (.int 1))])]

/-- **The base tier has no block.** The block key of the base tier may be that of another tier, for
which there are blocks. Its values stand outside of them all the same. -/
theorem base_not_inBlock :
    baseOnly.IsFlat ∧ (∀ q, groundTheme.HasBlock q → baseOnly.expand.find? q = none) ∧
      groundTheme.HasBlock (groundTheme.blockKey Tier.base) ∧
      baseOnly.GivesForKey groundTheme (groundTheme.blockKey Tier.base) "width" (.string "1px") ∧
      ((SpecOver.object baseOnly).resolve ThemeFunction.call groundTheme).map
        (fun r => r.find? (groundTheme.blockKey Tier.base)) = .ok none := by
  refine ⟨by decide +kernel, ?_, ⟨.sm, rfl, by decide +kernel⟩, ?_, by decide +kernel⟩
  · rintro q ⟨t, -, rfl⟩
    cases t <;> decide +kernel
  · refine ⟨[("xs", .number (.int 1))], Tier.base, .number (.int 1), by decide +kernel, rfl,
      by decide +kernel, ?_, by decide +kernel⟩
    -- the map has no value for any other tier
    intro u hu _
    cases u with
    | xs => exact absurd hu (lt_irrefl _)
    | sm | md | lg | xl => rfl

end StyleSystem
