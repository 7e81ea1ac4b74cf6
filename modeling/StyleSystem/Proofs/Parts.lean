import StyleSystem.Proofs.Expansion
import StyleSystem.Property
import StyleSystem.Style.Normal

/-!
# The parts of a value

Normalization goes from an entry down to objects in its value, its **parts**: the object itself, the
nested selector in a tier map, and the objects of the tiers in the map (`Value.IsPart`). What it finds
on the way are the plain values which the property is **given** (`Value.Gives`): the value itself, or
the values of the tiers.

So a property of entries holds at every level of a normalized object, if it holds of blocks, of
objects under properties, and of the given values once they are transformed
(`Value.IsWrite.throughout`, `Value.everyEntry_normalizeEntries_of`). The induction that goes with it
takes the parts of all values as smaller (`Value.partInduction`).
-/

namespace StyleSystem.Value

/-!
## The writes of an entry

Normalizing an object merges the writes of its entries. `IsWrite` lists the six forms a write can
take, and `isWrite_of_mem_writes` says that there are no others, so that a statement about all
values that reach a normalized object is a case analysis with one case per way in.
-/

open Entries

/-- The writes of an entry, by the way in which its value reaches the normalized object. -/
inductive IsWrite (θ : Theme) (key : String) : Value → String × Value → Prop where
  /-- An entry of a block for the base tier. -/
  | baseBlock {tier : Tier} {block : Entries Value} {q : String × Value}
      (hkey : Tier.ofName? key = some tier) (hbase : tier.isBase = true)
      (hq : q ∈ normalizeEntries θ block) : IsWrite θ key (object block) q
  /-- The block of another tier. -/
  | block {tier : Tier} {block : Entries Value} (hkey : Tier.ofName? key = some tier)
      (hbase : tier.isBase = false) :
      IsWrite θ key (object block) (θ.blockKey tier, object (normalizeEntries θ block))
  /-- The nested selector in a tier map. -/
  | selector {inner : Entries Value} (hkey : Tier.isName key = false)
      (ht : hasTier inner = true) (hrest : nonTiers inner ≠ []) :
      IsWrite θ key (object inner) (key, object (normalizeEntries θ (nonTiers inner)))
  /-- The value of one tier of a tier map. -/
  | tier {inner : Entries Value} {tier : Tier} {v : Value} (hkey : Tier.isName key = false)
      (hv : find? tier.name inner = some v) (hn : v.isNull = false) :
      IsWrite θ key (object inner) (tierWrite θ key tier (normalizeTier θ key v))
  /-- An object without tiers. -/
  | nested {inner : Entries Value} (hkey : Tier.isName key = false)
      (ht : hasTier inner = false) :
      IsWrite θ key (object inner) (key, object (normalizeEntries θ inner))
  /-- A plain value. -/
  | plain {v : Value} (hkey : Tier.isName key = false) (hv : v.isObject = false) :
      IsWrite θ key v (key, transform θ key v)

variable {θ : Theme} {key : String}

theorem isWrite_of_mem_blockWrites {tier : Tier} {block : Entries Value}
    (hkey : Tier.ofName? key = some tier) {q : String × Value}
    (hq : q ∈ blockWrites θ tier (normalizeEntries θ block)) :
    IsWrite θ key (object block) q := by
  unfold blockWrites at hq
  by_cases hbase : tier.isBase = true
  · rw [if_pos hbase] at hq
    exact .baseBlock hkey hbase hq
  · rw [if_neg hbase, List.mem_singleton] at hq
    rw [hq]
    exact .block hkey (by simpa using hbase)

theorem isWrite_of_mem_selectorWrites {inner : Entries Value} (hkey : Tier.isName key = false)
    (ht : hasTier inner = true) {q : String × Value} (hq : q ∈ selectorWrites θ key inner) :
    IsWrite θ key (object inner) q := by
  unfold selectorWrites at hq
  by_cases hrest : nonTiers inner = []
  · rw [if_pos hrest] at hq
    cases hq
  · rw [if_neg hrest, List.mem_singleton] at hq
    rw [hq]
    exact .selector hkey ht hrest

/-- **The forms of a write.** Every write of an entry is of one of the listed forms. -/
theorem isWrite_of_mem_writes {v : Value} {q : String × Value} (hq : q ∈ writes θ key v) :
    IsWrite θ key v q := by
  cases hobj : v.isObject with
  | false =>
    rw [writes_of_not_isObject hobj] at hq
    by_cases hkey : Tier.isName key = true
    · -- a plain value under a tier writes nothing
      rw [if_pos hkey] at hq
      cases hq
    · rw [if_neg hkey, List.mem_singleton] at hq
      rw [hq]
      exact .plain (by simpa using hkey) hobj
  | true =>
    obtain ⟨inner, rfl⟩ := exists_entries_of_isObject hobj
    cases hkey : Tier.ofName? key with
    | some tier =>
      rw [writes_tier hkey] at hq
      exact isWrite_of_mem_blockWrites hkey hq
    | none =>
      have hname : Tier.isName key = false := Tier.ofName?_eq_none_iff.1 hkey
      cases ht : hasTier inner with
      | true =>
        rw [writes_of_hasTier hkey ht] at hq
        rcases List.mem_append.1 hq with hq | hq
        · exact isWrite_of_mem_selectorWrites hname ht hq
        · obtain ⟨tier, -, hq⟩ := List.mem_flatMap.1 hq
          obtain ⟨w, hw, hn, rfl⟩ := mem_tierWrites hq
          exact .tier hname hw hn
      | false =>
        rw [writes_of_not_hasTier hkey ht] at hq
        rw [List.mem_singleton.1 hq]
        exact .nested hname ht

/-! ## Parts -/

/-- An object in a value that normalization goes on with. -/
inductive IsPart : Value → Entries Value → Prop where
  /-- The object itself, as the block of a tier or as a nested selector. -/
  | whole (inner : Entries Value) : IsPart (object inner) inner
  /-- The keys of a tier map that are no tiers. -/
  | selector (inner : Entries Value) : IsPart (object inner) (nonTiers inner)
  /-- The object of one tier of a map. -/
  | tier {inner nested : Entries Value} {tier : Tier} (h : (tier.name, object nested) ∈ inner) :
    IsPart (object inner) nested

/-- A plain value that a property with some value is given. -/
inductive Gives : Value → Value → Prop where
  /-- The value itself. -/
  | plain {v : Value} (hv : v.isObject = false) : Gives v v
  /-- The value of one tier of a map. -/
  | tier {inner : Entries Value} {tier : Tier} {w : Value} (h : (tier.name, w) ∈ inner)
    (hn : w.isNull = false) (hw : w.isObject = false) : Gives (object inner) w

variable {P : String → Value → Prop} {θ : Theme} {key : String} {v : Value}

theorem IsPart.sizeOf_lt {part : Entries Value} (h : IsPart v part) : sizeOf part < sizeOf v := by
  cases h with
  | whole inner => exact sizeOf_lt_object part
  | selector inner => exact sizeOf_nonTiers_lt inner
  | @tier inner _ _ h => exact Nat.lt_trans (sizeOf_lt_of_object_mem h) (sizeOf_lt_object inner)

/-- The parts of a value repeat no key, if no object in the value does. -/
theorem Distinct.part (hv : Distinct v) {part : Entries Value} (h : IsPart v part) :
    DistinctEntries part := by
  cases h with
  | whole inner => exact distinct_object.1 hv
  | selector inner =>
    have hinner := distinct_object.1 hv
    have hkeys : (keys (nonTiers inner)).Nodup :=
      (List.filter_sublist.map Prod.fst).nodup hinner.1
    exact ⟨hkeys, fun p hp => hinner.2 p (List.mem_filter.1 hp).1⟩
  | tier h => exact distinct_object.1 ((distinct_object.1 hv).2 _ h)

/-- What holds inside a value holds in its parts. -/
theorem Throughout.part (hv : Throughout P key v) {part : Entries Value} (h : IsPart v part) :
    EveryEntry P part := by
  cases h with
  | whole inner => exact hv.2 part rfl
  | selector inner => exact (hv.2 inner rfl).subset fun p hp => (List.mem_filter.1 hp).1
  | @tier inner _ _ h => exact (hv.2 inner rfl).inside h

/-- What holds at every level of an object holds in the parts of its expansion. -/
theorem EveryEntry.part_of_mem_expandEntries {es : Entries Value} (hes : EveryEntry P es)
    {p : String × Value} (hp : p ∈ expandEntries es) {part : Entries Value}
    (hpart : IsPart p.2 part) : EveryEntry P part := by
  obtain ⟨declaring, hv, -, -⟩ := mem_expandEntries hp
  have hthroughout : Throughout P declaring p.2 := hes.throughout hv
  exact hthroughout.part hpart

/-- The levels of a part are levels of the object with the value, up to what is missing at the top. -/
theorem IsPart.hasLevel {part level : Entries Value} (h : IsPart v part) (hl : HasLevel part level)
    {es : Entries Value} (hv : (key, v) ∈ es) : ∃ level', HasLevel es level' ∧ level ⊆ level' := by
  cases h with
  | whole inner => exact ⟨level, .inside hv hl, List.Subset.refl level⟩
  | selector inner =>
    have hinner : nonTiers inner ⊆ inner := fun p hp => (List.mem_filter.1 hp).1
    obtain ⟨level', hl', hsub⟩ := hl.subset hinner
    exact ⟨level', .inside hv hl', hsub⟩
  | tier h => exact ⟨level, .inside hv (.inside h hl), List.Subset.refl level⟩

theorem Gives.isObject {w : Value} (h : Gives v w) : w.isObject = false := by
  cases h with
  | plain hv => exact hv
  | tier _ _ hw => exact hw

theorem Gives.isNull {w : Value} (h : Gives v w) (hn : v.isNull = false) : w.isNull = false := by
  cases h with
  | plain _ => exact hn
  | tier _ hn _ => exact hn

/-- **Induction over parts.** A statement about the entries of an object may be assumed for the parts
of every value in its expansion. -/
@[elab_as_elim]
theorem partInduction {motive : Entries Value → Prop} (es : Entries Value)
    (step : ∀ es, (∀ p ∈ expandEntries es, ∀ part, IsPart p.2 part → motive part) → motive es) :
    motive es := by
  induction es using sizeInduction with
  | step es ih =>
    refine step es ?_
    intro p hp part hpart
    exact ih part (Nat.lt_trans hpart.sizeOf_lt (sizeOf_lt_of_mem_expandEntries hp))

/-! ### What holds of writes -/

theorem throughout_object_of {es : Entries Value} (h : P key (object es))
    (hes : EveryEntry P es) : Throughout P key (object es) :=
  throughout_object_iff.2 ⟨h, hes⟩

/-- **One write.** A property holds throughout a write of an entry if it holds of blocks, of objects
and given values under the key of the entry, and in the parts of its value once they are
normalized. -/
theorem IsWrite.throughout
    (hblock : ∀ t : Tier, t.isBase = false → ∀ es, P (θ.blockKey t) (object es))
    (hobject : Tier.isName key = false → ∀ es, P key (object es))
    (hgiven : Tier.isName key = false → ∀ w, Gives v w → P key (transform θ key w))
    (ih : ∀ part, IsPart v part → EveryEntry P (normalizeEntries θ part))
    {q : String × Value} (hq : IsWrite θ key v q) : Throughout P q.1 q.2 := by
  have hplain : Tier.isName key = false → ∀ w, Gives v w → Throughout P key (transform θ key w) := by
    intro hkey w hw
    refine throughout_of_not_isObject ?_ (hgiven hkey w hw)
    rw [isObject_transform, hw.isObject]
  cases hq with
  | baseBlock _ _ hq => exact (ih _ (.whole _)).throughout hq
  | block _ hbase => exact throughout_object_of (hblock _ hbase _) (ih _ (.whole _))
  | selector hkey _ _ => exact throughout_object_of (hobject hkey _) (ih _ (.selector _))
  | nested hkey _ => exact throughout_object_of (hobject hkey _) (ih _ (.whole _))
  | plain hkey hobj => exact hplain hkey _ (.plain hobj)
  | @tier inner tier w hkey hw hn =>
    have hmem := mem_of_find? hw
    have hvalue : Throughout P key (normalizeTier θ key w) := by
      cases hobj : w.isObject with
      | true =>
        obtain ⟨nested, rfl⟩ := exists_entries_of_isObject hobj
        rw [normalizeTier_object]
        exact throughout_object_of (hobject hkey _) (ih nested (.tier hmem))
      | false =>
        rw [normalizeTier_of_not_isObject hobj]
        exact hplain hkey w (.tier hmem hn hobj)
    -- outside of every block for the base tier, and in the block of another one
    unfold tierWrite
    by_cases hbase : tier.isBase = true
    · rw [if_pos hbase]
      exact hvalue
    · rw [if_neg hbase]
      have hcond : tier.isBase = false := by simpa using hbase
      exact throughout_object_of (hblock tier hcond _) (everyEntry_cons.2 ⟨hvalue, everyEntry_nil⟩)

/-- What holds throughout each write of an object holds at every level of all of them. -/
theorem everyEntry_writes {es : Entries Value}
    (h : ∀ p ∈ expandEntries es, ∀ q, IsWrite θ p.1 p.2 q → Throughout P q.1 q.2) :
    EveryEntry P ((expandEntries es).flatMap fun p => writes θ p.1 p.2) := by
  refine everyEntry_flatMap ?_
  intro p hp
  rw [everyEntry_iff]
  intro q hq
  exact h p hp q (isWrite_of_mem_writes hq)

/-- **One object.** What holds throughout each write of an object holds at every level of its normal
form. -/
theorem everyEntry_normalizeEntries_of (hP : Shallow P) {es : Entries Value}
    (h : ∀ p ∈ expandEntries es, ∀ q, IsWrite θ p.1 p.2 q → Throughout P q.1 q.2) :
    EveryEntry P (normalizeEntries θ es) := by
  rw [normalizeEntries_eq]
  exact everyEntry_nil.mergeEntries hP (everyEntry_writes h)

end StyleSystem.Value
