import Mathlib.Data.List.Flatten
import StyleSystem.Proofs.BlockTiers
import StyleSystem.Proofs.MergeByKey

/-!
# The order of conditional blocks

A browser lets a later block stand over an earlier one, so the blocks of an object should stand in
ascending order of their tiers. Resolution does not sort them: a block stands where its key was
first written.

* `blockTiers_resolve` — the outermost blocks of a resolved list of styles stand in the order in
  which the styles ask for them.
* `blocks_ascend` — the blocks ascend at every level, if the arrivals of the styles are in order.
* `inOrder_of_blocks_ascend` — and only then, if no plain value meets an object.

Without that condition they need not (`blocks_not_ascending`): the tiers of one property ascend, but
the first block of the next property may be for a smaller tier.

Below the outermost level, several objects may come to one place, from one style or from several, and
are merged there. `Value.Assembled` says what is left of their arrivals: the blocks at a place stand
in the order of the arrivals at the place. If a plain value has come there or above, some arrivals
may be missing, since it drops what it is written over.

Merging two objects appends their arrivals (`Assembled.written`). From this it follows that a
normalized object is assembled from the arrivals of its style (`assembled_normalizeEntries`): each
write brings the arrivals of the value in it (`Brings`), and what runs of writes bring is appended as
well.
-/

namespace StyleSystem

open Entries

/-! ### Ascending tiers -/

namespace Tier

theorem ascending_append {ts us : List Tier} :
    Ascending (ts ++ us) ↔ Ascending ts ∧ Ascending (us.removeAll ts) ∧
      ∀ t ∈ ts, ∀ u ∈ us, u ∉ ts → t < u := by
  have hmem : ∀ u, u ∈ (us.removeAll ts).eraseDups ↔ u ∈ us ∧ u ∉ ts := by
    intro u
    rw [List.mem_eraseDups, List.removeAll, List.mem_filter]
    simp
  simp only [Ascending, List.eraseDups_append, List.pairwise_append, List.mem_eraseDups, hmem,
    and_imp]

theorem Ascending.filter {ts : List Tier} (h : Ascending ts) (p : Tier → Bool) :
    Ascending (ts.filter p) := by
  rw [Ascending, ← filter_eraseDups]
  exact List.Pairwise.filter p h

theorem ascendingAlways_nil : AscendingAlways [] :=
  ⟨fun _ h => absurd h List.not_mem_nil, List.Pairwise.nil⟩

theorem AscendingAlways.sublist {tss uss : List (List Tier)} (h : AscendingAlways uss)
    (hsub : tss.Sublist uss) : AscendingAlways tss :=
  ⟨fun ts hts => h.each ts (hsub.subset hts), h.pairs.sublist hsub⟩

/-- Lists that ascend, each in itself and any two one after the other, ascend together. -/
theorem AscendingAlways.flatten {tss : List (List Tier)} (h : AscendingAlways tss) :
    Ascending tss.flatten := by
  induction tss with
  | nil => exact List.Pairwise.nil
  | cons ts tss ih =>
    have hrest := ih (h.sublist (List.sublist_cons_self ts tss))
    have hpairs := (List.pairwise_cons.1 h.pairs).1
    rw [List.flatten_cons, ascending_append]
    refine ⟨h.each ts List.mem_cons_self, hrest.filter _, ?_⟩
    intro t ht u hu hnew
    obtain ⟨us, hus, hu⟩ := List.mem_flatten.1 hu
    exact (ascending_append.1 (hpairs us hus)).2.2 t ht u hu hnew

end Tier

namespace Arrival

theorem InOrderAt.cons {key : String} {place : List String} {as : List Arrival} :
    InOrderAt (key :: place) as ↔ InOrderAt place (below key as) := by
  simp only [InOrderAt, tiersAt_cons, clearedAt_cons]

/-- Places at which nothing arrives are in order, too. -/
theorem InOrder.at {as : List Arrival} (h : InOrder as) (place : List String) :
    InOrderAt place as := by
  by_cases hplace : ∃ a ∈ as, a.path = place
  · obtain ⟨a, ha, rfl⟩ := hplace
    exact h a ha
  · have hnone : tiersAt place as = [] := by
      rw [tiersAt, List.filterMap_eq_nil_iff]
      intro a ha
      exact if_neg fun hpath => hplace ⟨a, ha, hpath⟩
    unfold InOrderAt
    rw [hnone]
    split
    · exact Tier.ascendingAlways_nil
    · exact List.Pairwise.nil

/-- What arrives at a place in order ascends, also if some of it is left out where it may be. -/
theorem InOrderAt.ascending {place : List String} {as : List Arrival} (h : InOrderAt place as)
    {tss : List (List Tier)} (hsub : tss.Sublist (tiersAt place as))
    (hall : ClearedAt place as ∨ tss = tiersAt place as) : Tier.Ascending tss.flatten := by
  unfold InOrderAt at h
  split at h
  case isTrue => exact (h.sublist hsub).flatten
  case isFalse hkept =>
    rw [hall.resolve_left hkept]
    exact h

end Arrival

namespace Value

open Arrival

variable {θ : Theme}

/-! ### What a value is assembled from -/

/-- **A value assembled from arrivals** at its place and below, or no value at all. The blocks of an
object stand in the order of the arrivals at its place, or of some of them, if a plain value has come
there or above; and what stands under a key is assembled from the arrivals under the key. -/
inductive Assembled (θ : Theme) : List Arrival → Option Value → Prop where
  /-- There is no value where nothing arrives. -/
  | absent {as : List Arrival} (h : as = [] ∨ ClearedAt [] as) : Assembled θ as none
  /-- A plain value clears its place when it arrives. -/
  | plain {as : List Arrival} {v : Value} (hv : v.isObject = false) (h : ClearedAt [] as) :
    Assembled θ as (some v)
  /-- The objects that have come are merged. -/
  | merged {as : List Arrival} {es : Entries Value} (nodup : (keys es).Nodup)
    (blocks : ∃ tss : List (List Tier), tss.Sublist (tiersAt [] as) ∧
      (ClearedAt [] as ∨ tss = tiersAt [] as) ∧ θ.blockTiers es = tss.flatten.eraseDups)
    (inside : ∀ k, Assembled θ (below k as) (find? k es)) : Assembled θ as (some (object es))

variable {as bs : List Arrival} {es fs : Entries Value}

/-- The same of the values inside an object only. -/
def AssembledInside (θ : Theme) (as : List Arrival) (es : Entries Value) : Prop :=
  ∀ k, Assembled θ (below k as) (find? k es)

theorem Assembled.inside (h : Assembled θ as (some (object es))) : AssembledInside θ as es := by
  cases h with
  | plain hv _ => cases hv
  | merged _ _ inside => exact inside

/-- Where a plain value has come, more may have come than is left. -/
theorem Assembled.of_clearedAt {v : Option Value} (h : Assembled θ as v) (hsub : as.Sublist bs)
    (hbs : ClearedAt [] bs) : Assembled θ bs v := by
  induction h generalizing bs with
  | absent _ => exact .absent (.inr hbs)
  | plain hv _ => exact .plain hv hbs
  | merged nodup blocks _ ih =>
    obtain ⟨tss, htss, -, heq⟩ := blocks
    refine .merged nodup ⟨tss, htss.trans (hsub.filterMap _), .inl hbs, heq⟩ ?_
    intro k
    exact ih k (hsub.filterMap _) (clearedAt_cons.1 (hbs.of_nil [k]))

/-- **What is written over a value** brings its arrivals behind those that are there already. -/
theorem Assembled.written {old new : Option Value} (ho : Assembled θ as old)
    (hn : Assembled θ bs new) : Assembled θ (as ++ bs) (written old new.toList) := by
  have hleft : as.Sublist (as ++ bs) := List.sublist_append_left as bs
  have hright : bs.Sublist (as ++ bs) := List.sublist_append_right as bs
  -- the value that is there is arbitrary, so the induction is into the new one
  induction hn generalizing as old with
  | absent h =>
    rw [Option.toList_none, written_nil]
    rcases h with rfl | hcleared
    · rwa [List.append_nil]
    · exact ho.of_clearedAt hleft (hcleared.subset hright.subset)
  | plain hv h =>
    rw [Option.toList_some, written_cons, written_nil, onto_plain hv]
    exact .plain hv (h.subset hright.subset)
  | @merged bs fs nodup blocks inside ih =>
    rw [Option.toList_some, written_cons, written_nil]
    have hnew : Assembled θ bs (some (object fs)) := .merged nodup blocks inside
    cases ho with
    | absent h =>
      rw [onto_none]
      rcases h with rfl | hcleared
      · exact hnew
      · exact hnew.of_clearedAt hright (hcleared.subset hleft.subset)
    | plain hv h =>
      -- the new object stands alone
      rw [onto_of_not_isObject _ hv]
      exact hnew.of_clearedAt hright (h.subset hleft.subset)
    | @merged _ es henodup heblocks heinside =>
      obtain ⟨tss, htss, hall, hes⟩ := heblocks
      obtain ⟨uss, huss, hall', hfs⟩ := blocks
      rw [onto_object_object]
      refine .merged (nodup_mergeEntries henodup fs) ⟨tss ++ uss, ?_, ?_, ?_⟩ ?_
      · rw [tiersAt_append]
        exact htss.append huss
      · rcases hall with hcleared | rfl
        · exact .inl (hcleared.subset hleft.subset)
        · rcases hall' with hcleared | rfl
          · exact .inl (hcleared.subset hright.subset)
          · exact .inr (tiersAt_append [] as bs).symm
      · rw [blockTiers_mergeEntries henodup, hes, hfs, eraseDups_eraseDups_append,
          eraseDups_append_eraseDups, List.flatten_append]
      · intro k
        rw [below_append, find?_mergeEntries_of_nodup nodup]
        exact ih k (heinside k) (List.sublist_append_left _ _) (List.sublist_append_right _ _)

theorem AssembledInside.mergeEntries (he : AssembledInside θ as es)
    (hf : AssembledInside θ bs fs) (hfs : (keys fs).Nodup) :
    AssembledInside θ (as ++ bs) (mergeEntries es fs) := by
  intro k
  rw [below_append, find?_mergeEntries_of_nodup hfs]
  exact (he k).written (hf k)

/-- A single entry is assembled from the arrivals of its value. -/
theorem Assembled.single {v : Value} (h : Assembled θ as (some v)) (key : String) :
    AssembledInside θ (as.map (under key)) [(key, v)] := by
  intro k
  by_cases hk : key = k
  · subst hk
    rw [below_map_under, find?, if_pos rfl]
    exact h
  · rw [below_map_under_of_ne hk, find?, if_neg hk]
    exact .absent (.inl rfl)

/-! ### What writes bring -/

/-- Merging the writes adds the arrivals to those that the values inside are assembled from. -/
def Brings (θ : Theme) (as : List Arrival) (writes : Entries Value) : Prop :=
  ∀ bs es, AssembledInside θ bs es → AssembledInside θ (bs ++ as) (mergeEntries es writes)

theorem AssembledInside.brings (h : AssembledInside θ as fs) (hfs : (keys fs).Nodup) :
    Brings θ as fs :=
  fun _ _ he => he.mergeEntries h hfs

theorem Assembled.brings {v : Value} (h : Assembled θ as (some v)) (key : String) :
    Brings θ (as.map (under key)) [(key, v)] := (h.single key).brings (by simp [keys])

theorem brings_nil : Brings θ [] [] := by
  intro bs es he
  rwa [mergeEntries_nil, List.append_nil]

theorem Brings.append (he : Brings θ as es) (hf : Brings θ bs fs) :
    Brings θ (as ++ bs) (es ++ fs) := by
  intro cs target h
  rw [mergeEntries_append, ← List.append_assoc]
  exact hf _ _ (he _ _ h)

theorem brings_flatMap {α : Type} {l : List α} {f : α → List Arrival} {g : α → Entries Value}
    (h : ∀ a ∈ l, Brings θ (f a) (g a)) : Brings θ (l.flatMap f) (l.flatMap g) := by
  induction l with
  | nil => exact brings_nil
  | cons a l ih =>
    rw [List.flatMap_cons, List.flatMap_cons]
    exact (h a List.mem_cons_self).append (ih fun b hb => h b (List.mem_cons_of_mem _ hb))

theorem assembled_plain {v : Value} (hv : v.isObject = false) :
    Assembled θ [⟨[], none⟩] (some v) :=
  .plain hv ⟨_, List.mem_singleton_self _, rfl, List.nil_prefix⟩

/-- A value of a tier map, if it is assembled from its arrivals where it is an object. -/
theorem assembled_normalizeTier (key : String) {v : Value}
    (ih : ∀ nested, v = object nested →
      Assembled θ (arrivals θ nested) (some (object (normalizeEntries θ nested)))) :
    Assembled θ (valueArrivals θ v) (some (normalizeTier θ key v)) := by
  cases hobj : v.isObject with
  | true =>
    obtain ⟨nested, rfl⟩ := exists_entries_of_isObject hobj
    rw [valueArrivals_object, normalizeTier_object]
    exact ih nested rfl
  | false =>
    rw [valueArrivals_of_not_isObject θ hobj, normalizeTier_of_not_isObject hobj]
    exact assembled_plain (by rw [isObject_transform, hobj])

theorem brings_tierWrites {key : String} (hkey : θ.tierOfBlock? key = none) {m : Entries Value}
    (tier : Tier) (ih : ∀ nested, (tier.name, object nested) ∈ m →
      Assembled θ (arrivals θ nested) (some (object (normalizeEntries θ nested)))) :
    Brings θ (tierArrivals θ key m tier) (tierWrites θ key m tier) := by
  cases hp : present? tier.name m with
  | none =>
    rw [tierWrites_of_present?_eq_none hp, tierArrivals_of_present?_eq_none hp]
    exact brings_nil
  | some v =>
    have hv : Assembled θ (valueArrivals θ v) (some (normalizeTier θ key v)) := by
      refine assembled_normalizeTier key fun nested hnested => ih nested ?_
      rw [← hnested]
      exact mem_of_find? (find?_of_present? hp)
    rw [tierWrites_of_present? hp, tierArrivals_of_present? hp, tierWrite]
    split
    · -- the base tier writes the property without a block
      exact hv.brings key
    · -- the block has the property in it and no blocks of its own
      have hblocks : θ.blockTiers [(key, normalizeTier θ key v)] = [] := blockTiers_single hkey _
      refine Assembled.brings (.merged (by simp [keys]) ⟨[], ?_, ?_, hblocks⟩ (hv.single key)) _
      · exact List.nil_sublist _
      · exact .inr (tiersAt_nil_map_under key _).symm

theorem tierArrivals_of_not_hasTier {m : Entries Value} (h : hasTier m = false) (key : String)
    (tier : Tier) : tierArrivals θ key m tier = [] := by
  refine tierArrivals_of_present?_eq_none ?_
  rw [present?, find?_eq_none, Option.filter_none]
  intro hmem
  have hname := hasTier_eq_false_iff.1 h tier.name hmem
  rw [Tier.isName_name] at hname
  cases hname

theorem brings_selectorWrites (key : String) {m : Entries Value}
    (h : Assembled θ (arrivals θ (nonTiers m)) (some (object (normalizeEntries θ (nonTiers m))))) :
    Brings θ (selectorArrivals θ key m) (selectorWrites θ key m) := by
  unfold selectorArrivals selectorWrites
  split
  · exact brings_nil
  · exact h.brings key

theorem assembled_nil : Assembled θ [] (some (object [])) :=
  .merged List.nodup_nil ⟨[], List.nil_sublist _, .inr rfl, rfl⟩ fun _ => .absent (.inl rfl)

theorem brings_writes_property {key : String} (hkey : θ.tierOfBlock? key = none)
    (hname : Tier.ofName? key = none) {m : Entries Value}
    (ih : ∀ part, IsPart (object m) part →
      Assembled θ (arrivals θ part) (some (object (normalizeEntries θ part)))) :
    Brings θ (entryArrivals θ key (object m)) (writes θ key (object m)) := by
  rw [entryArrivals_property hname]
  cases ht : hasTier m with
  | true =>
    rw [writes_of_hasTier hname ht]
    have htiers : ∀ tier ∈ Tier.all, Brings θ (tierArrivals θ key m tier) (tierWrites θ key m tier) :=
      fun tier _ => brings_tierWrites hkey tier fun nested hnested => ih nested (.tier hnested)
    exact (brings_selectorWrites key (ih _ (.selector m))).append (brings_flatMap htiers)
  | false =>
    have htiers : Tier.all.flatMap (tierArrivals θ key m) = [] :=
      List.flatMap_eq_nil_iff.2 fun tier _ => tierArrivals_of_not_hasTier ht key tier
    rw [writes_of_not_hasTier hname ht, htiers, List.append_nil, selectorArrivals,
      nonTiers_of_not_hasTier ht]
    split
    case isTrue hnil =>
      -- an empty object has come, and it brings nothing
      subst hnil
      have hempty : normalizeEntries θ [] = [] := by rw [normalizeEntries_eq]; rfl
      rw [hempty]
      exact assembled_nil.brings key
    case isFalse => exact (ih _ (.whole m)).brings key

/-- The root of an object is no place inside of it. -/
theorem AssembledInside.tail_arrivals (h : AssembledInside θ (arrivals θ es) fs) :
    AssembledInside θ (arrivals θ es).tail fs := by
  intro k
  have hvalue := h k
  rw [arrivals_eq] at hvalue ⊢
  exact hvalue

/-- **What an entry brings,** if the parts of its value are assembled from their arrivals. -/
theorem brings_writes {key : String} (hkey : θ.tierOfBlock? key = none) {v : Value}
    (ih : ∀ part, IsPart v part →
      Assembled θ (arrivals θ part) (some (object (normalizeEntries θ part)))) :
    Brings θ (entryArrivals θ key v) (writes θ key v) := by
  cases hobj : v.isObject with
  | false =>
    rw [entryArrivals_of_not_isObject θ key hobj, writes_of_not_isObject hobj]
    split
    · exact brings_nil
    · exact Assembled.brings (assembled_plain (by rw [isObject_transform, hobj])) key
  | true =>
    obtain ⟨inner, rfl⟩ := exists_entries_of_isObject hobj
    have hblock := ih inner (.whole inner)
    cases hname : Tier.ofName? key with
    | some tier =>
      rw [entryArrivals_tier hname, writes_tier hname, blockWrites]
      split
      · -- the entries of a block for the base tier are written one by one
        exact hblock.inside.tail_arrivals.brings (nodup_normalizeEntries θ inner)
      · exact hblock.brings _
    | none => exact brings_writes_property hkey hname ih

/-! ### Normalized objects -/

theorem path_ne_nil_of_mem_map_under {key : String} {a : Arrival} (h : a ∈ as.map (under key)) :
    a.path ≠ [] := by
  obtain ⟨b, -, rfl⟩ := List.mem_map.1 h
  exact List.cons_ne_nil _ _

theorem path_ne_nil_of_mem_property {key : String} (hname : Tier.ofName? key = none)
    {m : Entries Value} {a : Arrival} (h : a ∈ entryArrivals θ key (object m)) : a.path ≠ [] := by
  rw [entryArrivals_property hname] at h
  rcases List.mem_append.1 h with h | h
  · unfold selectorArrivals at h
    split at h
    · cases h
    · exact path_ne_nil_of_mem_map_under h
  · obtain ⟨tier, -, h⟩ := List.mem_flatMap.1 h
    cases hp : present? tier.name m with
    | none =>
      rw [tierArrivals_of_present?_eq_none hp] at h
      cases h
    | some v =>
      rw [tierArrivals_of_present? hp] at h
      split at h
      · exact path_ne_nil_of_mem_map_under h
      · exact path_ne_nil_of_mem_map_under h

/-- Nothing but the object itself arrives at its place. -/
theorem path_ne_nil_of_mem_tail_arrivals (θ : Theme) (es : Entries Value) :
    ∀ a ∈ (arrivals θ es).tail, a.path ≠ [] := by
  induction es using partInduction with
  | step es ih =>
    rw [arrivals_eq, List.tail_cons]
    intro a ha
    obtain ⟨⟨key, v⟩, hp, ha⟩ := List.mem_flatMap.1 ha
    cases hobj : v.isObject with
    | false =>
      rw [entryArrivals_of_not_isObject θ key hobj] at ha
      split at ha
      · cases ha
      · rw [List.mem_singleton.1 ha]
        exact List.cons_ne_nil key []
    | true =>
      obtain ⟨inner, rfl⟩ := exists_entries_of_isObject hobj
      cases hname : Tier.ofName? key with
      | some tier =>
        rw [entryArrivals_tier hname] at ha
        split at ha
        · -- what is said for the base tier has come outside of a block, and nothing more
          exact ih _ hp inner (.whole inner) a ha
        · exact path_ne_nil_of_mem_map_under ha
      | none => exact path_ne_nil_of_mem_property hname ha

theorem tiersAt_nil_arrivals (θ : Theme) (es : Entries Value) :
    tiersAt [] (arrivals θ es) = [blockOrder es] := by
  have htail : tiersAt [] (arrivals θ es).tail = [] := by
    rw [tiersAt, List.filterMap_eq_nil_iff]
    exact fun a ha => if_neg (path_ne_nil_of_mem_tail_arrivals θ es a ha)
  rw [arrivals_eq, List.tail_cons] at htail
  rw [arrivals_eq]
  show blockOrder es :: tiersAt [] _ = _
  rw [htail]

/-- **A normalized object** is assembled from the arrivals of the object. -/
theorem assembled_normalizeEntries (hθ : θ.HasOwnBlockKeys) (es : Entries Value)
    (hes : EveryEntry (NoBlock θ) es) :
    Assembled θ (arrivals θ es) (some (object (normalizeEntries θ es))) := by
  induction es using partInduction with
  | step es ih =>
    have hentries : ∀ p ∈ expandEntries es,
        Brings θ (entryArrivals θ p.1 p.2) (writes θ p.1 p.2) := by
      intro p hp
      apply brings_writes (noBlock_of_mem_expandEntries hθ hes hp)
      intro part hpart
      exact ih p hp part hpart (hes.part_of_mem_expandEntries hp hpart)
    -- the object is the only one to arrive at its place, and brings its blocks in their order
    have hblocks : θ.blockTiers (normalizeEntries θ es) = [blockOrder es].flatten.eraseDups := by
      rw [blockTiers_normalizeEntries hθ es hes, List.flatten_singleton, blockOrder_eq,
        eraseDups_eraseDups]
    have hinside : AssembledInside θ (arrivals θ es) (normalizeEntries θ es) := by
      rw [arrivals_eq, normalizeEntries_eq]
      exact brings_flatMap hentries [] [] fun _ => .absent (.inl rfl)
    refine .merged (nodup_normalizeEntries θ es) ⟨[blockOrder es], ?_, ?_, hblocks⟩ hinside
    · rw [tiersAt_nil_arrivals]
    · exact .inr (tiersAt_nil_arrivals θ es).symm

/-! ### Levels of an assembled object -/

/-- Blocks ascend in what is assembled from arrivals in order. -/
theorem Assembled.ascending (h : Assembled θ as (some (object es)))
    (has : ∀ place, InOrderAt place as) {level : Entries Value} (hlevel : HasLevel es level) :
    (θ.blockTiers level).Pairwise (· < ·) := by
  induction hlevel generalizing as with
  | here es =>
    cases h with
    | plain hv _ => cases hv
    | merged _ blocks _ =>
      obtain ⟨tss, htss, hall, heq⟩ := blocks
      rw [heq]
      exact (has []).ascending htss hall
  | @inside es inner level k hmem _ ih =>
    cases h with
    | plain hv _ => cases hv
    | merged nodup _ hinside =>
      have hk := hinside k
      rw [(find?_eq_some_iff nodup).2 hmem] at hk
      exact ih hk fun place => InOrderAt.cons.1 (has (k :: place))

/-- **All that is mentioned is there,** as long as no plain value has come: where tiers are mentioned
at a place, there is an object whose blocks stand in the order of these mentions. -/
theorem Assembled.exists_level (h : Assembled θ as (some (object es))) {place : List String}
    (hkept : ¬ ClearedAt place as) :
    tiersAt place as = [] ∨ ∃ level, HasLevel es level ∧
      θ.blockTiers level = (tiersAt place as).flatten.eraseDups := by
  induction place generalizing as es with
  | nil =>
    cases h with
    | plain hv _ => cases hv
    | merged _ blocks _ =>
      obtain ⟨tss, -, hall, heq⟩ := blocks
      rw [hall.resolve_left hkept] at heq
      exact .inr ⟨es, .here es, heq⟩
  | cons k place ih =>
    rw [clearedAt_cons] at hkept
    rw [tiersAt_cons]
    have hk := h.inside k
    generalize hfind : find? k es = v at hk
    cases hk with
    | absent hnone =>
      rcases hnone with hnone | hcleared
      · rw [hnone]
        exact .inl rfl
      · -- what was cleared further down was cleared here, which is excluded
        exact absurd (hcleared.of_nil place) hkept
    | plain _ hcleared => exact absurd (hcleared.of_nil place) hkept
    | @merged _ inner nodup blocks hinside =>
      rcases ih (.merged nodup blocks hinside) hkept with hnil | ⟨level, hlevel, heq⟩
      · exact .inl hnil
      · exact .inr ⟨level, .inside (mem_of_find? hfind) hlevel, heq⟩

end Value

open Value

variable {θ : Theme}

/-! ### Lists of styles -/

/-- What a list of styles brings over a style that is there already. -/
theorem Style.assembled_mergeAll (hθ : θ.HasOwnBlockKeys) {styles : List Style}
    (hstyles : ∀ s ∈ styles, EveryEntry (NoBlock θ) s.entries) {as : List Arrival} {base : Style}
    (hbase : Assembled θ as (some base.toValue)) :
    Assembled θ (as ++ styles.flatMap fun s => arrivals θ s.entries)
      (some (base.mergeAll (styles.map fun s => s.normalize θ)).toValue) := by
  induction styles generalizing as base with
  | nil =>
    rw [List.flatMap_nil, List.append_nil]
    exact hbase
  | cons s styles ih =>
    have hs : Assembled θ (arrivals θ s.entries) (some (s.normalize θ).toValue) :=
      assembled_normalizeEntries hθ s.entries (hstyles s List.mem_cons_self)
    have hmerge : Assembled θ (as ++ arrivals θ s.entries)
        (some (base.merge (s.normalize θ)).toValue) := by
      have hwritten := hbase.written hs
      rwa [Option.toList_some, written_cons, written_nil, toValue, toValue, onto_object_object]
        at hwritten
    rw [List.flatMap_cons, ← List.append_assoc]
    exact ih (fun t ht => hstyles t (List.mem_cons_of_mem _ ht)) hmerge

theorem Style.assembled_mergeAll_empty (hθ : θ.HasOwnBlockKeys) {styles : List Style}
    (hstyles : ∀ s ∈ styles, EveryEntry (NoBlock θ) s.entries) :
    Assembled θ (styles.flatMap fun s => arrivals θ s.entries)
      (some (object (Style.empty.mergeAll (styles.map fun s => s.normalize θ)).entries)) := by
  have hempty : Assembled θ [] (some Style.empty.toValue) := assembled_nil
  exact Style.assembled_mergeAll hθ hstyles hempty

/-- **The outermost blocks** of a resolved list of styles stand in the order in which the styles
ask for them. -/
theorem blockTiers_resolve {F : Type} (call : Calls F) (hθ : θ.HasOwnBlockKeys)
    {styles : List Style} (hstyles : ∀ s ∈ styles, EveryEntry (NoBlock θ) s.entries) :
    ∃ r, (SpecOver.list (styles.map .object)).resolve call θ = .ok r ∧
      θ.blockTiers r.entries = (styles.flatMap fun s => blockOrder s.entries).eraseDups := by
  refine ⟨_, SpecOver.resolve_list_object styles call θ, ?_⟩
  rw [Style.entries_mergeAll, List.flatMap_map]
  have hentries : ∀ s ∈ styles, θ.blockTiers (s.normalize θ).entries = blockOrder s.entries :=
    fun s hs => blockTiers_normalizeEntries hθ s.entries (hstyles s hs)
  rw [← List.flatMap_congr hentries, ← blockTiers_flatMap]
  exact blockTiers_mergeEntries_nil _

/-- **Blocks in ascending order.** With the default rule and widths that increase with the tiers, a
list of styles that names no block itself resolves to a style in which the blocks ascend at every
level, if the arrivals of the styles are in order. -/
theorem blocks_ascend {F : Type} (call : Calls F) (θ : Theme)
    (hrule : θ.breakpoints.rule = none)
    (hwidths : ∀ s t : Tier, s < t → θ.breakpoints.width s < θ.breakpoints.width t)
    (styles : List Style) (hstyles : ∀ s ∈ styles, EveryEntry (NoBlock θ) s.entries)
    (horder : Arrival.InOrder (styles.flatMap fun s => arrivals θ s.entries)) :
    ∃ r, (SpecOver.list (styles.map .object)).resolve call θ = .ok r ∧
      ∀ level, HasLevel r.entries level → (θ.blockTiers level).Pairwise (· < ·) := by
  have hθ := Theme.hasOwnBlockKeys_of_rule_eq_none hrule hwidths
  refine ⟨_, SpecOver.resolve_list_object styles call θ, ?_⟩
  intro level hlevel
  exact (Style.assembled_mergeAll_empty hθ hstyles).ascending horder.at hlevel

/-- **Nothing less will do,** if no plain value comes to a place of an object or above it: blocks
ascend at every level only if the arrivals are in order. -/
theorem inOrder_of_blocks_ascend {F : Type} {call : Calls F} (hθ : θ.HasOwnBlockKeys)
    {styles : List Style} (hstyles : ∀ s ∈ styles, EveryEntry (NoBlock θ) s.entries)
    (hkept : ∀ a ∈ styles.flatMap fun s => arrivals θ s.entries, a.tiers? ≠ none →
      ¬ Arrival.ClearedAt a.path (styles.flatMap fun s => arrivals θ s.entries)) {r : Style}
    (hr : (SpecOver.list (styles.map .object)).resolve call θ = .ok r)
    (hlevels : ∀ level, HasLevel r.entries level → (θ.blockTiers level).Pairwise (· < ·)) :
    Arrival.InOrder (styles.flatMap fun s => arrivals θ s.entries) := by
  rw [SpecOver.resolve_list_object, Except.ok.injEq] at hr
  have hr' := Style.assembled_mergeAll_empty hθ hstyles
  rw [hr] at hr'
  generalize styles.flatMap (fun s => arrivals θ s.entries) = as at hkept hr' ⊢
  intro a ha
  unfold Arrival.InOrderAt
  split
  case isTrue hcleared =>
    -- objects come to other places, so there is nothing here
    have hnone : Arrival.tiersAt a.path as = [] := by
      rw [Arrival.tiersAt, List.filterMap_eq_nil_iff]
      intro b hb
      split
      case isTrue hpath =>
        by_contra hne
        exact hkept b hb hne (hpath ▸ hcleared)
      case isFalse => rfl
    rw [hnone]
    exact Tier.ascendingAlways_nil
  case isFalse hclear =>
    rcases hr'.exists_level hclear with hnil | ⟨level, hlevel, heq⟩
    · rw [hnil]
      exact List.Pairwise.nil
    · unfold Tier.Ascending
      rw [← heq]
      exact hlevels level hlevel

/-! ### The built-in theme -/

/-- Three styles that ask for their blocks in ascending order, in a nested selector as well. The last
one asks for the smallest block, which is there already. -/
def ladder : List Style :=
  [.ofEntries [("width", .object [("md", .number (.int 2)), ("sm", .number (.int 1))]),
      ("&:hover", .object [("p", .object [("lg", .number (.int 3))])])],
    .ofEntries [("md", .object [("height", .number (.int 4))]),
      ("xl", .object [("height", .number (.int 5))]),
      ("&:hover", .object [("bg", .object [("xl", .string "primary")])])],
    .ofEntries [("top", .object [("sm", .number (.int 6))])]]

theorem blocks_ascend_ladder :
    Theme.default.breakpoints.rule = none ∧
      (∀ s t : Tier, s < t →
        Theme.default.breakpoints.width s < Theme.default.breakpoints.width t) ∧
      (∀ s ∈ ladder, EveryEntry (NoBlock .default) s.entries) ∧
      Arrival.InOrder (ladder.flatMap fun s => arrivals .default s.entries) ∧
      ∃ r, (SpecOver.list (ladder.map .object)).resolve ThemeFunction.call .default = .ok r ∧
        ∀ level, HasLevel r.entries level → (Theme.default.blockTiers level).Pairwise (· < ·) := by
  have hstyles : ∀ s ∈ ladder, EveryEntry (NoBlock .default) s.entries := by decide +kernel
  have horder : Arrival.InOrder (ladder.flatMap fun s => arrivals .default s.entries) := by
    decide +kernel
  exact ⟨rfl, Theme.default_width_lt, hstyles, horder,
    blocks_ascend _ .default rfl Theme.default_width_lt ladder hstyles horder⟩

/-- Two properties, the first with a tier above that of the second. -/
def unordered : Style :=
  .ofEntries [("width", .object [("lg", .number (.int 1))]),
    ("height", .object [("sm", .number (.int 2))])]

/-- **Blocks need not ascend.** The block of the first property stands first, whatever its tier. -/
theorem blocks_not_ascending :
    Theme.default.breakpoints.rule = none ∧
      (∀ s t : Tier, s < t →
        Theme.default.breakpoints.width s < Theme.default.breakpoints.width t) ∧
      EveryEntry (NoBlock .default) unordered.entries ∧
      ((SpecOver.list [.object unordered]).resolve ThemeFunction.call .default).map
        (fun r => Theme.default.blockTiers r.entries) = .ok [.lg, .sm] :=
  ⟨rfl, Theme.default_width_lt, by decide +kernel, by decide +kernel⟩

end StyleSystem
