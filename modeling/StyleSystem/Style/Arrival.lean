import StyleSystem.Style.Normal

/-!
# Arrivals of conditional blocks

Normalization goes down into the objects of a style. Each object that it normalizes comes to one
place in the result and brings the conditional blocks of some tiers there, in the order in which its
entries ask for them. Each plain value comes to a place as well, and leaves nothing there or below of
what came before it. An `Arrival` is such a place, given by the keys that lead to it, with the tiers
that an object brings. Several objects may come to one place, where they are merged.

* `Theme.blockTiers` — the tiers whose blocks stand in an object.
* `Value.blockOrder` — the tiers whose blocks an object asks for before it is normalized.
* `Value.arrivals` — what a style brings to the places in its result, in the order in which it is
  written.
* `Arrival.InOrder` — arrivals that bring their blocks in ascending order.

A place is in order (`Arrival.InOrderAt`) if the tiers that are mentioned there, by one object after
the other, ascend from first mention to first mention. Where plain values come to the place or above
it, the mentions of some objects may be lost, and which ones is not for the arrivals to say: a plain
value undoes what the same style has written, but the next style is merged as a whole. There the
tiers of each object have to ascend, and those of any two, one after the other.
-/

namespace StyleSystem

open Entries

/-! ### Blocks of an object -/

/-- The tier whose conditional block has a key. -/
def Theme.tierOfBlock? (θ : Theme) (key : String) : Option Tier :=
  Tier.all.find? fun t => θ.blockKey t = key

/-- The tiers whose conditional blocks an object has, in the order of the blocks. -/
def Theme.blockTiers (θ : Theme) (es : Entries Value) : List Tier :=
  (keys es).filterMap θ.tierOfBlock?

/-! ### Arrivals -/

/-- **Something that comes to a place in a style,** which is given by the keys that lead there: an
object with the tiers of its blocks, or a plain value. -/
structure Arrival where
  path : List String
  /-- The tiers of the blocks that an object brings. A plain value has none to bring. -/
  tiers? : Option (List Tier)
  deriving DecidableEq, Repr

/-- The same arrival, in an object that stands under a key. -/
def Arrival.under (key : String) (a : Arrival) : Arrival := ⟨key :: a.path, a.tiers?⟩

/-- The conditional tiers that a tier map has a value for, the smallest first. -/
def Entries.conditionalTiers (m : Entries Value) : List Tier :=
  Tier.all.filter fun t => !t.isBase && (present? t.name m).isSome

namespace Value

mutual

/-- **The tiers whose blocks an object asks for,** each at its first mention. -/
def blockOrder (es : Entries Value) : List Tier :=
  ((expandEntries es).attach.flatMap fun ⟨p, _⟩ => entryBlocks p.1 p.2).eraseDups
termination_by sizeOf es
decreasing_by exact sizeOf_lt_of_mem_expandEntries ‹_›

/-- The tiers whose blocks an entry asks for: a block under a tier asks for that tier, a tier map for
the tiers in it. The entries of a block for the base tier ask for what they ask for outside of it. -/
def entryBlocks (key : String) : Value → List Tier
  | object inner =>
    match Tier.ofName? key with
    | some tier => if tier.isBase then blockOrder inner else [tier]
    | none => conditionalTiers inner
  | _ => []
termination_by v => sizeOf v
decreasing_by simp only [object.sizeOf_spec]; omega

end

mutual

/-- **The arrivals of an object,** first its own and then those of what is in it. -/
def arrivals (θ : Theme) (es : Entries Value) : List Arrival :=
  ⟨[], some (blockOrder es)⟩ ::
    (expandEntries es).attach.flatMap fun ⟨p, _⟩ => entryArrivals θ p.1 p.2
termination_by sizeOf es
decreasing_by exact sizeOf_lt_of_mem_expandEntries ‹_›

/-- The arrivals of an entry. A block for the base tier has no place of its own, so it is left out
of them, and so is a nested selector with nothing in it. -/
def entryArrivals (θ : Theme) (key : String) : Value → List Arrival
  | object inner =>
    match Tier.ofName? key with
    | some tier =>
      if tier.isBase then (arrivals θ inner).tail
      else (arrivals θ inner).map (Arrival.under (θ.blockKey tier))
    | none =>
      (if nonTiers inner = [] then [] else (arrivals θ (nonTiers inner)).map (Arrival.under key)) ++
      Tier.all.flatMap fun tier =>
        match _found : find? tier.name inner with
        | none | some null => []
        | some v =>
          let inProperty := (valueArrivals θ v).map (Arrival.under key)
          if tier.isBase then inProperty
          else inProperty.map (Arrival.under (θ.blockKey tier))
  | _ => if Tier.isName key then [] else [⟨[key], none⟩]
termination_by v => sizeOf v
decreasing_by
  · -- a block for the base tier
    simp only [object.sizeOf_spec]; omega
  · -- a block for another tier
    simp only [object.sizeOf_spec]; omega
  · -- the keys of a tier map that are no tiers
    exact sizeOf_nonTiers_lt inner
  · -- the value of one tier of a map
    have h := sizeOf_lt_of_mem (mem_of_find? _found)
    simp only [object.sizeOf_spec]; omega

/-- The arrivals of a value, seen from its own place. -/
def valueArrivals (θ : Theme) : Value → List Arrival
  | object nested => arrivals θ nested
  | _ => [⟨[], none⟩]
termination_by v => sizeOf v
decreasing_by simp only [object.sizeOf_spec]; omega

end

/-! ### Equations -/

/-- The arrivals of one tier in the tier map of a property. -/
def tierArrivals (θ : Theme) (property : String) (m : Entries Value) (tier : Tier) : List Arrival :=
  match find? tier.name m with
  | none | some null => []
  | some v =>
    if tier.isBase then (valueArrivals θ v).map (Arrival.under property)
    else ((valueArrivals θ v).map (Arrival.under property)).map (Arrival.under (θ.blockKey tier))

/-- The arrivals of the nested selector in a tier map. -/
def selectorArrivals (θ : Theme) (property : String) (m : Entries Value) : List Arrival :=
  if nonTiers m = [] then [] else (arrivals θ (nonTiers m)).map (Arrival.under property)

/-- An object asks for the blocks that the entries of its expansion ask for. -/
theorem blockOrder_eq (es : Entries Value) :
    blockOrder es = ((expandEntries es).flatMap fun p => entryBlocks p.1 p.2).eraseDups := by
  rw [blockOrder, List.flatMap_def, List.flatMap_def]
  congr 2
  exact List.attach_map_val (f := fun p : String × Value => entryBlocks p.1 p.2)

theorem entryBlocks_of_not_isObject (key : String) {v : Value} (h : v.isObject = false) :
    entryBlocks key v = [] := by
  cases v <;> simp_all [entryBlocks, isObject]

/-- The block of a tier asks for that tier alone, whatever is in it, but the base tier has no block.
-/
theorem entryBlocks_tier {key : String} {tier : Tier} (h : Tier.ofName? key = some tier)
    (block : Entries Value) :
    entryBlocks key (object block) = if tier.isBase then blockOrder block else [tier] := by
  rw [entryBlocks, h]

/-- A tier map asks for the tiers that it has a value for, in ascending order. -/
theorem entryBlocks_property {key : String} (h : Tier.ofName? key = none) (m : Entries Value) :
    entryBlocks key (object m) = conditionalTiers m := by
  rw [entryBlocks, h]

variable {θ : Theme}

/-- An object arrives first, and then what its entries bring. -/
theorem arrivals_eq (θ : Theme) (es : Entries Value) :
    arrivals θ es =
      ⟨[], some (blockOrder es)⟩ ::
        (expandEntries es).flatMap fun p => entryArrivals θ p.1 p.2 := by
  rw [arrivals, List.flatMap_def, List.flatMap_def]
  congr 2
  exact List.attach_map_val (f := fun p : String × Value => entryArrivals θ p.1 p.2)

theorem valueArrivals_object (θ : Theme) (nested : Entries Value) :
    valueArrivals θ (object nested) = arrivals θ nested := by rw [valueArrivals]

theorem valueArrivals_of_not_isObject (θ : Theme) {v : Value} (h : v.isObject = false) :
    valueArrivals θ v = [⟨[], none⟩] := by
  cases v <;> simp_all [valueArrivals, isObject]

/-- A plain value arrives where it is written. Under a tier it is not written at all. -/
theorem entryArrivals_of_not_isObject (θ : Theme) (key : String) {v : Value}
    (h : v.isObject = false) :
    entryArrivals θ key v = if Tier.isName key then [] else [⟨[key], none⟩] := by
  cases v <;> simp_all [entryArrivals, isObject]

/-- What is in a block arrives in the block; what is said for the base tier arrives outside. -/
theorem entryArrivals_tier {key : String} {tier : Tier} (h : Tier.ofName? key = some tier)
    (block : Entries Value) :
    entryArrivals θ key (object block) =
      if tier.isBase then (arrivals θ block).tail
      else (arrivals θ block).map (Arrival.under (θ.blockKey tier)) := by
  rw [entryArrivals, h]

/-- A property has the arrivals of its nested selector in front of those of its tiers, as it is
written. -/
theorem entryArrivals_property {key : String} (h : Tier.ofName? key = none) (m : Entries Value) :
    entryArrivals θ key (object m) =
      selectorArrivals θ key m ++ Tier.all.flatMap (tierArrivals θ key m) := by
  rw [entryArrivals, h]
  dsimp only
  congr 2
  funext tier
  simp only [tierArrivals]
  split <;> simp_all

/-- What a tier has a value for arrives under the property, in the block of the tier. -/
theorem tierArrivals_of_present? {property : String} {m : Entries Value} {tier : Tier} {v : Value}
    (h : present? tier.name m = some v) :
    tierArrivals θ property m tier =
      if tier.isBase then (valueArrivals θ v).map (Arrival.under property)
      else ((valueArrivals θ v).map (Arrival.under property)).map
        (Arrival.under (θ.blockKey tier)) := by
  rw [tierArrivals, find?_of_present? h]
  have hn := isNull_of_present? h
  cases v with
  | null => cases hn
  | _ => rfl

theorem tierArrivals_of_present?_eq_none {property : String} {m : Entries Value} {tier : Tier}
    (h : present? tier.name m = none) : tierArrivals θ property m tier = [] := by
  rcases find?_of_present?_eq_none h with hnone | hnull
  · rw [tierArrivals, hnone]
  · rw [tierArrivals, hnull]

end Value

/-! ### Arrivals by place -/

namespace Arrival

/-- **The tiers at a place,** those of each object that arrives there. -/
def tiersAt (place : List String) (as : List Arrival) : List (List Tier) :=
  as.filterMap fun a => if a.path = place then a.tiers? else none

/-- A plain value arrives at a place or above it. -/
def ClearedAt (place : List String) (as : List Arrival) : Prop :=
  ∃ a ∈ as, a.tiers? = none ∧ a.path <+: place

instance (place : List String) (as : List Arrival) : Decidable (ClearedAt place as) :=
  inferInstanceAs (Decidable (∃ a ∈ as, a.tiers? = none ∧ a.path <+: place))

/-- An arrival as it is seen from under a key. A plain value at the place itself leaves nothing
there. -/
def below? (key : String) : Arrival → Option Arrival
  | ⟨k :: path, tiers?⟩ => if k = key then some ⟨path, tiers?⟩ else none
  | ⟨[], none⟩ => some ⟨[], none⟩
  | ⟨[], some _⟩ => none

/-- What arrives under a key. -/
def below (key : String) (as : List Arrival) : List Arrival := as.filterMap (below? key)

/-- Two things are seen from under a key: what arrives there, and a plain value above, which clears
all that is below it. -/
theorem below?_eq_some_iff {key : String} {a b : Arrival} :
    a.below? key = some b ↔ a = b.under key ∨ a = ⟨[], none⟩ ∧ b = ⟨[], none⟩ := by
  obtain ⟨path, tiers?⟩ := a
  obtain ⟨path', tiers?'⟩ := b
  cases path with
  | nil => cases tiers? <;> simp [below?, under, and_comm, eq_comm]
  | cons k path => simp [below?, under, and_assoc]

theorem tiersAt_append (place : List String) (as bs : List Arrival) :
    tiersAt place (as ++ bs) = tiersAt place as ++ tiersAt place bs := List.filterMap_append

theorem below_append (key : String) (as bs : List Arrival) :
    below key (as ++ bs) = below key as ++ below key bs := List.filterMap_append

/-- Seen from under its key, the arrivals of a value are as they were. -/
theorem below_map_under (key : String) (as : List Arrival) :
    below key (as.map (under key)) = as := by
  have hself : (below? key ∘ under key : Arrival → Option Arrival) = some :=
    funext fun _ => below?_eq_some_iff.2 (.inl rfl)
  rw [below, List.filterMap_map, hself, List.filterMap_some]

/-- Nothing of them is seen from under another key. -/
theorem below_map_under_of_ne {key k : String} (h : k ≠ key) (as : List Arrival) :
    below key (as.map (under k)) = [] := by
  rw [below, List.filterMap_map, List.filterMap_eq_nil_iff]
  intro a _
  exact if_neg h

/-- What arrives under a key does not arrive at the place itself. -/
theorem tiersAt_nil_map_under (key : String) (as : List Arrival) :
    tiersAt [] (as.map (under key)) = [] := by
  rw [tiersAt, List.filterMap_map, List.filterMap_eq_nil_iff]
  intro a _
  show (if key :: a.path = [] then a.tiers? else none) = none
  exact if_neg (List.cons_ne_nil _ _)

/-- The tiers at a place under a key. -/
theorem tiersAt_cons (key : String) (place : List String) (as : List Arrival) :
    tiersAt (key :: place) as = tiersAt place (below key as) := by
  unfold tiersAt below
  rw [List.filterMap_filterMap]
  congr 1
  funext a
  obtain ⟨path, tiers?⟩ := a
  match path, tiers? with
  | [], none => simp [below?]
  | [], some ts => simp [below?]
  | k :: path, tiers? => by_cases h : k = key <;> simp [below?, h]

/-- **A place is cleared** if it is cleared as seen from under its first key. -/
theorem clearedAt_cons {key : String} {place : List String} {as : List Arrival} :
    ClearedAt (key :: place) as ↔ ClearedAt place (below key as) := by
  constructor
  · rintro ⟨⟨path, tiers?⟩, ha, rfl, hpath⟩
    cases path with
    | nil => exact ⟨⟨[], none⟩, List.mem_filterMap.2 ⟨_, ha, rfl⟩, rfl, List.nil_prefix⟩
    | cons k path =>
      obtain ⟨rfl, hrest⟩ := List.cons_prefix_cons.1 hpath
      exact ⟨⟨path, none⟩, List.mem_filterMap.2 ⟨_, ha, if_pos rfl⟩, rfl, hrest⟩
  · rintro ⟨b, hb, hnone, hpath⟩
    obtain ⟨a, ha, hab⟩ := List.mem_filterMap.1 hb
    rcases below?_eq_some_iff.1 hab with rfl | ⟨rfl, -⟩
    · exact ⟨b.under key, ha, hnone, List.cons_prefix_cons.2 ⟨rfl, hpath⟩⟩
    · exact ⟨⟨[], none⟩, ha, rfl, List.nil_prefix⟩

/-- What is cleared above is cleared below. -/
theorem ClearedAt.of_nil {as : List Arrival} (h : ClearedAt [] as) (place : List String) :
    ClearedAt place as := by
  obtain ⟨a, ha, hnone, hpath⟩ := h
  exact ⟨a, ha, hnone, hpath.trans List.nil_prefix⟩

theorem ClearedAt.subset {place : List String} {as bs : List Arrival} (h : ClearedAt place as)
    (hsub : as ⊆ bs) : ClearedAt place bs := by
  obtain ⟨a, ha, hplain⟩ := h
  exact ⟨a, hsub ha, hplain⟩

end Arrival

/-! ### Order of arrivals -/

/-- Tiers whose first mentions ascend. -/
def Tier.Ascending (ts : List Tier) : Prop := ts.eraseDups.Pairwise (· < ·)

instance (ts : List Tier) : Decidable (Tier.Ascending ts) :=
  inferInstanceAs (Decidable (ts.eraseDups.Pairwise (· < ·)))

/-- Lists of tiers that ascend one after the other, whichever of them are left out. -/
structure Tier.AscendingAlways (tss : List (List Tier)) : Prop where
  each : ∀ ts ∈ tss, Ascending ts
  pairs : tss.Pairwise fun ts us => Ascending (ts ++ us)

instance (tss : List (List Tier)) : Decidable (Tier.AscendingAlways tss) :=
  decidable_of_iff ((∀ ts ∈ tss, Tier.Ascending ts) ∧
      tss.Pairwise fun ts us => Tier.Ascending (ts ++ us))
    ⟨fun h => ⟨h.1, h.2⟩, fun h => ⟨h.each, h.pairs⟩⟩

/-- **A place in order.** All the tiers at the place ascend, one object after the other; and if plain
values may have cleared some of them, what is left ascends in any case. -/
def Arrival.InOrderAt (place : List String) (as : List Arrival) : Prop :=
  if ClearedAt place as then Tier.AscendingAlways (tiersAt place as)
  else Tier.Ascending (tiersAt place as).flatten

instance (place : List String) (as : List Arrival) : Decidable (Arrival.InOrderAt place as) :=
  inferInstanceAs (Decidable (if Arrival.ClearedAt place as then _ else _))

/-- **Arrivals in order:** each place is. -/
def Arrival.InOrder (as : List Arrival) : Prop := ∀ a ∈ as, InOrderAt a.path as

instance (as : List Arrival) : Decidable (Arrival.InOrder as) :=
  inferInstanceAs (Decidable (∀ a ∈ as, Arrival.InOrderAt a.path as))

end StyleSystem
