import StyleSystem.Property
import StyleSystem.Style.Basic
import StyleSystem.Style.Shorthand
import StyleSystem.Theme.Basic
import StyleSystem.Value

/-!
# Responsive forms

A style may depend on the viewport in two forms, a map from tiers to the values of one property
and a block of style under a tier:

* `width: (xs: 100%, md: 400)`
* `md: (width: 400)`

Normalization turns both into conditional blocks under the block keys of the theme; what is said for
the base tier stands outside of every block. It expands the shorthands of each object and
transforms its plain values as well, so no tier is left among the keys.

An entry of an expanded object comes down to a list of writes (`writes`), and all the writes of an
object are merged one after the other into the empty object:

* an entry under a tier writes its object as the block of that tier; a plain value under a tier has
  no block to go to and writes nothing;
* a property with a tier map writes the nested selector made of the other keys of the map, if it
  has any, and then the values of the tiers in ascending order, null tiers left out;
* any other entry writes its value, compiled.
-/

namespace StyleSystem

/-!
## Tier maps

An object may have tier names among its keys. Under a property such an object says which value the
property takes from each tier on, and its other keys are a nested selector. `tiers` and `nonTiers`
separate the two.
-/

namespace Entries

variable {α : Type}

/-- Whether a tier is among the keys. -/
def hasTier (es : Entries α) : Bool := es.any fun p => Tier.isName p.1

/-- The entries whose key is a tier. -/
def tiers (es : Entries α) : Entries α := es.filter fun p => Tier.isName p.1

/-- The entries whose key is no tier. -/
def nonTiers (es : Entries α) : Entries α := es.filter fun p => !Tier.isName p.1

/-- The tiers of a map whose value is not null. -/
def presentTiers (es : Entries Value) : Entries Value := (tiers es).filter fun p => !p.2.isNull

/-- A nested selector is smaller than the map that it was taken out of, which recursions over both
rely on. -/
theorem sizeOf_nonTiers_lt (es : Entries Value) : sizeOf (nonTiers es) < sizeOf (Value.object es) :=
  Nat.lt_of_le_of_lt (Value.sizeOf_filter_le _ es) (Value.sizeOf_lt_object es)

/-! ### Which keys are tiers -/

/-- Only the keys of an object say whether it is a tier map. -/
theorem hasTier_eq_true_iff {es : Entries α} :
    hasTier es = true ↔ ∃ k ∈ keys es, Tier.isName k = true := by
  simp [hasTier, keys]

theorem hasTier_eq_false_iff {es : Entries α} :
    hasTier es = false ↔ ∀ k ∈ keys es, Tier.isName k = false := by
  simp [hasTier, keys]

theorem hasTier_congr {α β : Type} {es : Entries α} {fs : Entries β} (h : keys es = keys fs) :
    hasTier es = hasTier fs := by
  rw [Bool.eq_iff_iff, hasTier_eq_true_iff, hasTier_eq_true_iff, h]

@[simp] theorem hasTier_append (es fs : Entries α) :
    hasTier (es ++ fs) = (hasTier es || hasTier fs) := by simp [hasTier]

/-- No tier is left in the nested selector of a map. -/
theorem hasTier_nonTiers (es : Entries α) : hasTier (nonTiers es) = false := by
  rw [hasTier_eq_false_iff]
  intro k hk
  obtain ⟨v, hv⟩ := exists_mem_of_mem_keys hk
  simpa using (List.mem_filter.1 hv).2

/-- Without tiers an object is a nested selector as a whole. -/
theorem nonTiers_of_not_hasTier {es : Entries α} (h : hasTier es = false) : nonTiers es = es := by
  rw [nonTiers, List.filter_eq_self]
  intro p hp
  rw [hasTier_eq_false_iff] at h
  rw [h p.1 (mem_keys_of_mem hp), Bool.not_false]

theorem tiers_of_not_hasTier {es : Entries α} (h : hasTier es = false) : tiers es = [] := by
  rw [tiers, List.filter_eq_nil_iff]
  intro p hp
  rw [hasTier_eq_false_iff] at h
  rw [h p.1 (mem_keys_of_mem hp)]
  simp

theorem find?_tiers (t : Tier) (es : Entries α) : find? t.name (tiers es) = find? t.name es :=
  find?_filter fun _ _ => Tier.isName_name t

/-- The nested selector has the value of every key that is no tier. -/
theorem find?_nonTiers (k : String) (es : Entries α) :
    find? k (nonTiers es) = if Tier.isName k then none else find? k es := by
  cases hk : Tier.isName k with
  | true =>
    refine find?_eq_none ?_
    intro hmem
    rw [hasTier_eq_false_iff.1 (hasTier_nonTiers es) k hmem] at hk
    cases hk
  | false => exact find?_filter fun _ _ => by rw [hk, Bool.not_false]

theorem isName_of_mem_presentTiers {es : Entries Value} {p : String × Value}
    (h : p ∈ presentTiers es) : Tier.isName p.1 = true :=
  (List.mem_filter.1 (List.mem_filter.1 h).1).2

theorem isNull_of_mem_presentTiers {es : Entries Value} {p : String × Value}
    (h : p ∈ presentTiers es) : p.2.isNull = false := by
  simpa using (List.mem_filter.1 h).2

theorem presentTiers_sublist (es : Entries Value) : (presentTiers es).Sublist es :=
  List.filter_sublist.trans List.filter_sublist

theorem mem_of_mem_presentTiers {es : Entries Value} {p : String × Value}
    (h : p ∈ presentTiers es) : p ∈ es := (presentTiers_sublist es).subset h

/-- The tiers with a value are found by their names, and a null tier is not found. -/
theorem find?_presentTiers {es : Entries Value} (hes : (keys es).Nodup) (k : String) :
    find? k (presentTiers es) = if Tier.isName k then present? k es else none := by
  have hnodup : (keys (presentTiers es)).Nodup := ((presentTiers_sublist es).map Prod.fst).nodup hes
  refine Option.ext fun v => ?_
  rw [find?_eq_some_iff hnodup, presentTiers, tiers, List.mem_filter, List.mem_filter]
  cases Tier.isName k <;> simp [present?_eq_some_iff hes]

end Entries

/-! ## Normalization -/

namespace Value

/-- The write of a value for one property from a tier on: the base tier writes the property itself,
another tier a block that holds the property. -/
def tierWrite (θ : Theme) (property : String) (tier : Tier) (v : Value) : String × Value :=
  if tier.isBase then (property, v) else (θ.blockKey tier, object [(property, v)])

/-- The writes of a normalized block under a tier. -/
def blockWrites (θ : Theme) (tier : Tier) (block : Entries Value) : Entries Value :=
  if tier.isBase then block else [(θ.blockKey tier, object block)]

mutual

/-- The entries of an object normalized. -/
def normalizeEntries (θ : Theme) (es : Entries Value) : Entries Value :=
  mergeEntries [] ((expandEntries es).attach.flatMap fun ⟨p, _⟩ => writes θ p.1 p.2)
termination_by sizeOf es
decreasing_by exact sizeOf_lt_of_mem_expandEntries ‹_›

/-- The writes of an entry. -/
def writes (θ : Theme) (key : String) : Value → Entries Value
  | object inner =>
    match Tier.ofName? key with
    | some tier => blockWrites θ tier (normalizeEntries θ inner)
    | none =>
      if Entries.hasTier inner then
        -- The nested selector goes first, so that a value of the base tier stands over it.
        (if Entries.nonTiers inner = [] then []
          else [(key, object (normalizeEntries θ (Entries.nonTiers inner)))]) ++
        Tier.all.flatMap fun tier =>
          match _found : Entries.find? tier.name inner with
          | none | some null => []
          | some v => [tierWrite θ key tier (normalizeTier θ key v)]
      else [(key, object (normalizeEntries θ inner))]
  | v => if Tier.isName key then [] else [(key, transform θ key v)]
termination_by v => sizeOf v
decreasing_by
  · -- a block under a tier
    simp only [object.sizeOf_spec]; omega
  · -- the keys of a tier map that are no tiers
    have h := sizeOf_filter_le (fun p => !Tier.isName p.1) inner
    simp only [object.sizeOf_spec, Entries.nonTiers]; omega
  · -- the value of one tier of a map
    have h := sizeOf_lt_of_mem (Entries.mem_of_find? _found)
    simp only [object.sizeOf_spec]; omega
  · -- a nested selector
    simp only [object.sizeOf_spec]; omega

/-- A value of a tier map, normalized under the property of the map. -/
def normalizeTier (θ : Theme) (property : String) : Value → Value
  | object nested => object (normalizeEntries θ nested)
  | v => transform θ property v
termination_by v => sizeOf v
decreasing_by simp only [object.sizeOf_spec]; omega

end

/-! ### Equations -/

/-- The writes of a tier of a map for one property. -/
def tierWrites (θ : Theme) (property : String) (inner : Entries Value) (tier : Tier) :
    Entries Value :=
  match Entries.find? tier.name inner with
  | none | some null => []
  | some v => [tierWrite θ property tier (normalizeTier θ property v)]

/-- The writes of the nested selector in a tier map. -/
def selectorWrites (θ : Theme) (property : String) (inner : Entries Value) : Entries Value :=
  if Entries.nonTiers inner = [] then []
  else [(property, object (normalizeEntries θ (Entries.nonTiers inner)))]

/-- A tier writes what it has a value for, and nothing else. -/
theorem mem_tierWrites {θ : Theme} {property : String} {inner : Entries Value} {tier : Tier}
    {q : String × Value} (h : q ∈ tierWrites θ property inner tier) :
    ∃ v, Entries.find? tier.name inner = some v ∧ v.isNull = false ∧
      q = tierWrite θ property tier (normalizeTier θ property v) := by
  unfold tierWrites at h
  split at h
  · cases h
  · cases h
  · rename_i v hv hf
    refine ⟨v, hf, ?_, List.mem_singleton.1 h⟩
    cases v with
    | null => exact absurd rfl hv
    | _ => rfl

theorem tierWrites_of_find? {θ : Theme} {property : String} {inner : Entries Value} {tier : Tier}
    {v : Value} (hv : Entries.find? tier.name inner = some v) (hn : v.isNull = false) :
    tierWrites θ property inner tier =
      [tierWrite θ property tier (normalizeTier θ property v)] := by
  rw [tierWrites, hv]
  cases v with
  | null => cases hn
  | _ => rfl

theorem tierWrites_of_present? {θ : Theme} {property : String} {inner : Entries Value} {tier : Tier}
    {v : Value} (h : Entries.present? tier.name inner = some v) :
    tierWrites θ property inner tier =
      [tierWrite θ property tier (normalizeTier θ property v)] :=
  tierWrites_of_find? (Entries.find?_of_present? h) (Entries.isNull_of_present? h)

/-- A tier that is missing or null writes nothing. -/
theorem tierWrites_of_present?_eq_none {θ : Theme} {property : String} {inner : Entries Value}
    {tier : Tier} (h : Entries.present? tier.name inner = none) :
    tierWrites θ property inner tier = [] := by
  rcases Entries.find?_of_present?_eq_none h with hnone | hnull
  · rw [tierWrites, hnone]
  · rw [tierWrites, hnull]

/-- **A normalized object** is the merge of what the entries of its expansion write. -/
theorem normalizeEntries_eq (θ : Theme) (es : Entries Value) :
    normalizeEntries θ es =
      mergeEntries [] ((expandEntries es).flatMap fun p => writes θ p.1 p.2) := by
  rw [normalizeEntries, List.flatMap_def, List.flatMap_def]
  congr 2
  exact List.attach_map_val (f := fun p : String × Value => writes θ p.1 p.2)

/-- An entry under a tier writes the block of the tier. -/
theorem writes_tier {θ : Theme} {key : String} {tier : Tier} {block : Entries Value}
    (h : Tier.ofName? key = some tier) :
    writes θ key (object block) = blockWrites θ tier (normalizeEntries θ block) := by
  rw [writes, h]

/-- A tier map writes its nested selector and then its tiers, the smallest first. -/
theorem writes_of_hasTier {θ : Theme} {key : String} {inner : Entries Value}
    (h : Tier.ofName? key = none) (ht : Entries.hasTier inner = true) :
    writes θ key (object inner) =
      selectorWrites θ key inner ++ Tier.all.flatMap (tierWrites θ key inner) := by
  rw [writes, h]
  simp only [ht, if_true, selectorWrites]
  congr 2
  funext tier
  simp only [tierWrites]
  split <;> simp_all

/-- Any other object writes itself, normalized. -/
theorem writes_of_not_hasTier {θ : Theme} {key : String} {inner : Entries Value}
    (h : Tier.ofName? key = none) (ht : Entries.hasTier inner = false) :
    writes θ key (object inner) = [(key, object (normalizeEntries θ inner))] := by
  rw [writes, h]
  simp [ht]

/-- A plain value is written as it is transformed, unless it stands under a tier. -/
theorem writes_of_not_isObject {θ : Theme} {key : String} {v : Value} (h : v.isObject = false) :
    writes θ key v = if Tier.isName key then [] else [(key, transform θ key v)] := by
  cases v <;> simp_all [writes, isObject]

theorem normalizeTier_object (θ : Theme) (property : String) (nested : Entries Value) :
    normalizeTier θ property (object nested) = object (normalizeEntries θ nested) := by
  rw [normalizeTier]

theorem normalizeTier_of_not_isObject {θ : Theme} {property : String} {v : Value}
    (h : v.isObject = false) : normalizeTier θ property v = transform θ property v := by
  cases v <;> simp_all [normalizeTier, isObject]

/-! ### Distinct keys -/

theorem distinct_tierWrite {θ : Theme} {property : String} {tier : Tier} {v : Value}
    (h : Distinct v) : Distinct (tierWrite θ property tier v).2 := by
  unfold tierWrite
  split
  · exact h
  · refine distinct_object.2 ⟨by simp, ?_⟩
    intro p hp
    rw [List.mem_singleton.1 hp]
    exact h

theorem distinct_blockWrites {θ : Theme} {tier : Tier} {block : Entries Value}
    (h : DistinctEntries block) : ∀ p ∈ blockWrites θ tier block, Distinct p.2 := by
  unfold blockWrites
  split
  · exact h.2
  · intro p hp
    rw [List.mem_singleton.1 hp]
    exact distinct_object.2 h

mutual

/-- **Normalization repeats no key,** in whichever object of the result. The induction goes through
the entries of the expansion, and there through the three kinds of objects that are normalized in
turn. -/
theorem distinctEntries_normalizeEntries (θ : Theme) (es : Entries Value)
    (h : ∀ p ∈ es, Distinct p.2) : DistinctEntries (normalizeEntries θ es) := by
  rw [normalizeEntries_eq]
  refine distinctEntries_mergeEntries _ ?_ _ (by simp [DistinctEntries])
  intro q hq
  obtain ⟨p, hp, hq⟩ := List.mem_flatMap.1 hq
  exact distinct_writes θ p.1 p.2 ((distinctEntries_expandEntries h).2 p hp) q hq
termination_by sizeOf es
decreasing_by exact sizeOf_lt_of_mem_expandEntries hp

/-- The values that an entry writes repeat no key either. -/
theorem distinct_writes (θ : Theme) (key : String) (v : Value) (h : Distinct v) :
    ∀ q ∈ writes θ key v, Distinct q.2 := by
  match v with
  | object inner =>
    have hi := distinct_object.1 h
    intro q hq
    match hk : Tier.ofName? key with
    | some tier =>
      -- a block under a tier
      rw [writes_tier hk] at hq
      exact distinct_blockWrites (distinctEntries_normalizeEntries θ inner hi.2) q hq
    | none =>
      by_cases ht : Entries.hasTier inner = true
      · rw [writes_of_hasTier hk ht] at hq
        rcases List.mem_append.1 hq with hq | hq
        · -- the nested selector in front of the tiers
          unfold selectorWrites at hq
          split at hq
          · cases hq
          · rw [List.mem_singleton.1 hq]
            exact distinct_object.2 (distinctEntries_normalizeEntries θ (Entries.nonTiers inner)
              fun p hp => hi.2 p (List.mem_filter.1 hp).1)
        · -- the value of one tier
          obtain ⟨tier, -, hq⟩ := List.mem_flatMap.1 hq
          obtain ⟨w, hw, -, rfl⟩ := mem_tierWrites hq
          exact distinct_tierWrite
            (distinct_normalizeTier θ key w (hi.2 _ (Entries.mem_of_find? hw)))
      · -- a nested selector without tiers
        rw [writes_of_not_hasTier hk (by simpa using ht)] at hq
        rw [List.mem_singleton.1 hq]
        exact distinct_object.2 (distinctEntries_normalizeEntries θ inner hi.2)
  | null | bool _ | number _ | string _ | array _ =>
    rw [writes_of_not_isObject rfl]
    intro q hq
    split at hq
    · cases hq
    · rw [List.mem_singleton.1 hq]; exact distinct_transform h
termination_by sizeOf v
decreasing_by
  · simp only [object.sizeOf_spec]; omega
  · have h := sizeOf_filter_le (fun p => !Tier.isName p.1) inner
    simp only [object.sizeOf_spec, Entries.nonTiers]; omega
  · have h := sizeOf_lt_of_mem (Entries.mem_of_find? hw)
    simp only [object.sizeOf_spec]; omega
  · simp only [object.sizeOf_spec]; omega

theorem distinct_normalizeTier (θ : Theme) (property : String) (v : Value) (h : Distinct v) :
    Distinct (normalizeTier θ property v) := by
  match v with
  | object nested =>
    rw [normalizeTier_object, distinct_object]
    exact distinctEntries_normalizeEntries θ nested (distinct_object.1 h).2
  | null | bool _ | number _ | string _ | array _ =>
    rw [normalizeTier_of_not_isObject rfl]; exact distinct_transform h
termination_by sizeOf v
decreasing_by simp only [object.sizeOf_spec]; omega

end

end Value

/-- **A style normalized with a theme.** -/
def Style.normalize (s : Style) (θ : Theme) : Style :=
  ⟨Value.normalizeEntries θ s.entries, Value.distinctEntries_normalizeEntries θ _ s.distinct.2⟩

end StyleSystem
