import StyleSystem.Property
import StyleSystem.Style.Normal
import StyleSystem.Style.Shorthand

/-!
# Compiled styles

Compiling a style expands its shorthands and transforms its plain values, in nested objects as
well. It keeps the responsive forms: a tier map stays a tier map, with the value of each tier
transformed and null tiers left out, followed by its other keys compiled as a nested object.
-/

namespace StyleSystem

namespace Value

mutual

/-- The entries of an object compiled. -/
def compileEntries (θ : Theme) (es : Entries Value) : Entries Value :=
  (expandEntries es).attach.map fun ⟨p, _⟩ => (p.1, compileAt θ p.1 p.2)
termination_by sizeOf es
decreasing_by exact sizeOf_lt_of_mem_expandEntries ‹_›

/-- A value compiled under a property. -/
def compileAt (θ : Theme) (property : String) : Value → Value
  | object inner =>
    if Entries.hasTier inner then
      -- The tiers go first. No other key of the map is a tier, so none of them is overwritten.
      object (Entries.extend
        ((Entries.presentTiers inner).attach.map fun ⟨p, _⟩ =>
          (p.1, compileTier θ property p.2))
        (compileEntries θ (Entries.nonTiers inner)))
    else object (compileEntries θ inner)
  | v => transform θ property v
termination_by v => sizeOf v
decreasing_by
  · -- the value of one tier
    have h := sizeOf_lt_of_mem (Entries.mem_of_mem_presentTiers ‹_›)
    simp only [object.sizeOf_spec]; omega
  · -- the keys that are no tiers
    have h := sizeOf_filter_le (fun p => !Tier.isName p.1) inner
    simp only [object.sizeOf_spec, Entries.nonTiers]; omega
  · -- a nested object
    simp only [object.sizeOf_spec]; omega

/-- A value of a tier map compiled under the property of the map. -/
def compileTier (θ : Theme) (property : String) : Value → Value
  | object nested => object (compileEntries θ nested)
  | v => transform θ property v
termination_by v => sizeOf v
decreasing_by simp only [object.sizeOf_spec]; omega

end

/-! ### Equations -/

/-- **A compiled object** has the entries of its expansion, each with its value compiled. -/
theorem compileEntries_eq (θ : Theme) (es : Entries Value) :
    compileEntries θ es = (expandEntries es).map fun p => (p.1, compileAt θ p.1 p.2) := by
  rw [compileEntries]
  exact List.attach_map_val (f := fun p : String × Value => (p.1, compileAt θ p.1 p.2))

/-- A tier map is compiled into its tiers with a value, followed by its other keys. -/
theorem compileAt_of_hasTier {θ : Theme} {property : String} {inner : Entries Value}
    (h : Entries.hasTier inner = true) :
    compileAt θ property (object inner) =
      object (Entries.extend
        ((Entries.presentTiers inner).map fun p => (p.1, compileTier θ property p.2))
        (compileEntries θ (Entries.nonTiers inner))) := by
  rw [compileAt, if_pos h]
  congr 2
  exact List.attach_map_val (f := fun p : String × Value => (p.1, compileTier θ property p.2))

/-- Any other object is compiled as a nested selector. -/
theorem compileAt_of_not_hasTier {θ : Theme} {property : String} {inner : Entries Value}
    (h : Entries.hasTier inner = false) :
    compileAt θ property (object inner) = object (compileEntries θ inner) := by
  rw [compileAt, if_neg (by simp [h])]

theorem compileTier_object (θ : Theme) (property : String) (nested : Entries Value) :
    compileTier θ property (object nested) = object (compileEntries θ nested) := by
  rw [compileTier]

/-- A plain value is transformed under its key. -/
theorem compileAt_of_not_isObject {θ : Theme} {property : String} {v : Value}
    (h : v.isObject = false) : compileAt θ property v = transform θ property v := by
  cases v <;> simp_all [compileAt, isObject]

theorem compileTier_of_not_isObject {θ : Theme} {property : String} {v : Value}
    (h : v.isObject = false) : compileTier θ property v = transform θ property v := by
  cases v <;> simp_all [compileTier, isObject]

/-! ### Distinct keys -/

mutual

/-- **Compilation repeats no key,** in whichever object of the result. -/
theorem distinctEntries_compileEntries (θ : Theme) (es : Entries Value)
    (h : ∀ p ∈ es, Distinct p.2) : DistinctEntries (compileEntries θ es) := by
  rw [compileEntries_eq]
  refine ⟨?_, ?_⟩
  · simpa [Entries.keys, Function.comp_def] using nodup_expandEntries es
  · intro q hq
    obtain ⟨p, hp, rfl⟩ := List.mem_map.1 hq
    exact distinct_compileAt θ p.1 p.2 ((distinctEntries_expandEntries h).2 p hp)
termination_by sizeOf es
decreasing_by exact sizeOf_lt_of_mem_expandEntries hp

/-- For a tier map it is `Entries.extend` that keeps the keys apart: a key that is written twice
stands once. -/
theorem distinct_compileAt (θ : Theme) (property : String) (v : Value) (h : Distinct v) :
    Distinct (compileAt θ property v) := by
  match v with
  | object inner =>
    have hi := distinct_object.1 h
    by_cases ht : Entries.hasTier inner = true
    · rw [compileAt_of_hasTier ht, distinct_object]
      have hn := distinctEntries_compileEntries θ (Entries.nonTiers inner)
        fun p hp => hi.2 p (List.mem_filter.1 hp).1
      refine ⟨Entries.nodup_extend ?_, ?_⟩
      · -- the tiers keep the order in which they stand among the keys
        have hs := List.Sublist.map Prod.fst (Entries.presentTiers_sublist inner)
        simpa [Entries.keys, Function.comp_def] using hs.nodup hi.1
      · rintro ⟨k, w⟩ hw
        rcases Entries.mem_extend hw with hw | hw
        · obtain ⟨p, hp, he⟩ := List.mem_map.1 hw
          cases he
          exact distinct_compileTier θ property p.2
            (hi.2 p (Entries.mem_of_mem_presentTiers hp))
        · exact hn.2 _ hw
    · -- no tier among the keys
      rw [compileAt_of_not_hasTier (by simpa using ht), distinct_object]
      exact distinctEntries_compileEntries θ inner hi.2
  | null | bool _ | number _ | string _ | array _ =>
    rw [compileAt_of_not_isObject rfl]; exact distinct_transform h
termination_by sizeOf v
decreasing_by
  · have h := sizeOf_filter_le (fun p => !Tier.isName p.1) inner
    simp only [object.sizeOf_spec, Entries.nonTiers]; omega
  · have h := sizeOf_lt_of_mem (Entries.mem_of_mem_presentTiers hp)
    simp only [object.sizeOf_spec]; omega
  · simp only [object.sizeOf_spec]; omega

theorem distinct_compileTier (θ : Theme) (property : String) (v : Value) (h : Distinct v) :
    Distinct (compileTier θ property v) := by
  match v with
  | object nested =>
    rw [compileTier_object, distinct_object]
    exact distinctEntries_compileEntries θ nested (distinct_object.1 h).2
  | null | bool _ | number _ | string _ | array _ =>
    rw [compileTier_of_not_isObject rfl]; exact distinct_transform h
termination_by sizeOf v
decreasing_by simp only [object.sizeOf_spec]; omega

end

end Value

/-- **A style compiled with a theme.** -/
def Style.compile (s : Style) (θ : Theme) : Style :=
  ⟨Value.compileEntries θ s.entries, Value.distinctEntries_compileEntries θ _ s.distinct.2⟩

end StyleSystem
