import StyleSystem.Style.Basic

/-!
# Levels of nested objects

An object is nested: its values may be objects again. Its **levels** are the entries of the object
itself and of every object reached from it through objects; a list ends the descent, so an object
inside a list is no level.

* `EveryEntry P es` — the property `P` of a key and its value holds at every level of `es`.
* `Throughout P k v` — the same for a single entry and what lies inside its value.

The two unfold into each other (`everyEntry_iff`), and merging keeps both, as long as `P` does not
look into objects (`EveryEntry.mergeEntries`): where the merge meets two objects it makes a third
one, of which only the levels below are known.

Induction over levels is `sizeInduction`. Structural induction would not do, since expansion and the
split of a tier map build the lists of entries that the recursions of the compilers continue on.
-/

namespace StyleSystem.Value

/-- A level of an object: the object itself, or one reached from it through objects. -/
inductive HasLevel : Entries Value → Entries Value → Prop where
  | here (es : Entries Value) : HasLevel es es
  | inside {es inner level : Entries Value} {k : String} :
    (k, object inner) ∈ es → HasLevel inner level → HasLevel es level

/-- **A property of every entry** of an object, at every level. -/
def EveryEntry (P : String → Value → Prop) (es : Entries Value) : Prop :=
  ∀ level, HasLevel es level → ∀ k v, (k, v) ∈ level → P k v

/-- A property of one entry and of every entry inside its value. -/
def Throughout (P : String → Value → Prop) (k : String) (v : Value) : Prop :=
  P k v ∧ ∀ inner, v = object inner → EveryEntry P inner

variable {P : String → Value → Prop}

/-- The levels of some entries are levels of more entries, up to what is missing at the top. -/
theorem HasLevel.subset {es fs level : Entries Value} (h : HasLevel es level) (hsub : es ⊆ fs) :
    ∃ level', HasLevel fs level' ∧ level ⊆ level' := by
  cases h with
  | here => exact ⟨fs, .here fs, hsub⟩
  | inside hmem hl => exact ⟨level, .inside (hsub hmem) hl, List.Subset.refl level⟩

/-- **Levels entry by entry:** a property holds at every level if it holds throughout each entry. -/
theorem everyEntry_iff {es : Entries Value} :
    EveryEntry P es ↔ ∀ p ∈ es, Throughout P p.1 p.2 := by
  constructor
  · intro h p hp
    refine ⟨h es (.here es) p.1 p.2 hp, ?_⟩
    intro inner hv level hl
    have hmem : (p.1, object inner) ∈ es := hv ▸ hp
    exact h level (.inside hmem hl)
  · intro h level hl k v hkv
    -- the level is the object itself or lies inside one of its values
    cases hl with
    | here => exact (h (k, v) hkv).1
    | inside hmem hl => exact (h _ hmem).2 _ rfl level hl k v hkv

theorem EveryEntry.throughout {es : Entries Value} (h : EveryEntry P es) {p : String × Value}
    (hp : p ∈ es) : Throughout P p.1 p.2 := everyEntry_iff.1 h p hp

theorem EveryEntry.holds {es : Entries Value} (h : EveryEntry P es) {p : String × Value}
    (hp : p ∈ es) : P p.1 p.2 := (h.throughout hp).1

theorem EveryEntry.inside {es : Entries Value} (h : EveryEntry P es) {k : String}
    {inner : Entries Value} (hk : (k, object inner) ∈ es) : EveryEntry P inner :=
  (h.throughout hk).2 inner rfl

theorem everyEntry_nil : EveryEntry P [] := everyEntry_iff.2 nofun

theorem EveryEntry.subset {es fs : Entries Value} (h : EveryEntry P es) (hfs : fs ⊆ es) :
    EveryEntry P fs := everyEntry_iff.2 fun _ hp => h.throughout (hfs hp)

/-- A weaker property holds wherever a stronger one does. -/
theorem EveryEntry.imp {Q : String → Value → Prop} (hPQ : ∀ k v, P k v → Q k v)
    {es : Entries Value} (h : EveryEntry P es) : EveryEntry Q es :=
  fun level hl k v hkv => hPQ k v (h level hl k v hkv)

theorem everyEntry_flatMap {α : Type} {l : List α} {f : α → Entries Value}
    (h : ∀ a ∈ l, EveryEntry P (f a)) : EveryEntry P (l.flatMap f) := by
  rw [everyEntry_iff]
  intro p hp
  obtain ⟨a, ha, hp⟩ := List.mem_flatMap.1 hp
  exact (h a ha).throughout hp

/-- A plain value has no entries inside. -/
theorem throughout_of_not_isObject {k : String} {v : Value} (hv : v.isObject = false)
    (h : P k v) : Throughout P k v := by
  refine ⟨h, ?_⟩
  rintro inner rfl
  simp [isObject] at hv

theorem everyEntry_cons {k : String} {v : Value} {es : Entries Value} :
    EveryEntry P ((k, v) :: es) ↔ Throughout P k v ∧ EveryEntry P es := by
  rw [everyEntry_iff, everyEntry_iff, List.forall_mem_cons]

theorem throughout_object_iff {k : String} {es : Entries Value} :
    Throughout P k (object es) ↔ P k (object es) ∧ EveryEntry P es := by
  constructor
  · intro h
    exact ⟨h.1, h.2 es rfl⟩
  · intro h
    refine ⟨h.1, ?_⟩
    rintro inner ⟨⟩
    exact h.2

theorem throughout_iff_of_not_isObject {k : String} {v : Value} (hv : v.isObject = false) :
    Throughout P k v ↔ P k v :=
  ⟨And.left, throughout_of_not_isObject hv⟩

/-! ### Decision -/

section

variable [∀ k v, Decidable (P k v)]

mutual

/-- A decidable property of entries is decided at every level. -/
def decideEveryEntry : (es : Entries Value) → Decidable (EveryEntry P es)
  | [] => isTrue everyEntry_nil
  | (k, v) :: es =>
    have := decideThroughout k v
    have := decideEveryEntry es
    decidable_of_iff (Throughout P k v ∧ EveryEntry P es) everyEntry_cons.symm

/-- `decideEveryEntry` for a single entry. -/
def decideThroughout (k : String) : (v : Value) → Decidable (Throughout P k v)
  | object es =>
    have := decideEveryEntry es
    decidable_of_iff (P k (object es) ∧ EveryEntry P es) throughout_object_iff.symm
  | null => decidable_of_iff _ (throughout_iff_of_not_isObject rfl).symm
  | bool _ => decidable_of_iff _ (throughout_iff_of_not_isObject rfl).symm
  | number _ => decidable_of_iff _ (throughout_iff_of_not_isObject rfl).symm
  | string _ => decidable_of_iff _ (throughout_iff_of_not_isObject rfl).symm
  | array _ => decidable_of_iff _ (throughout_iff_of_not_isObject rfl).symm

end

instance (es : Entries Value) : Decidable (EveryEntry P es) := decideEveryEntry es

end

/-! ### Induction -/

/-- **Induction over levels.** A statement about the entries of an object may be assumed for every
smaller object. -/
@[elab_as_elim]
theorem sizeInduction {motive : Entries Value → Prop} (es : Entries Value)
    (step : ∀ es, (∀ inner : Entries Value, sizeOf inner < sizeOf es → motive inner) → motive es) :
    motive es :=
  step es fun inner _ => sizeInduction inner step
termination_by sizeOf es

/-- Induction into the objects among the values. -/
@[elab_as_elim]
theorem nestedInduction {motive : Entries Value → Prop} (es : Entries Value)
    (step : ∀ es, (∀ (k : String) (inner : Entries Value), (k, object inner) ∈ es → motive inner) →
      motive es) :
    motive es := by
  induction es using sizeInduction with
  | step es ih => exact step es fun _ inner h => ih inner (sizeOf_lt_of_object_mem h)

/-! ### Merging -/

/-- A property that does not look into objects: it holds of every object under a key or of none. -/
def Shallow (P : String → Value → Prop) : Prop :=
  ∀ k es fs, P k (object es) → P k (object fs)

mutual

/-- Writing a value over another one keeps what holds throughout both. -/
theorem Throughout.onto (hP : Shallow P) {k : String} {v : Value} (hv : Throughout P k v)
    {old : Option Value} (hold : ∀ w, old = some w → Throughout P k w) :
    Throughout P k (onto v old) := by
  rcases onto_cases v old with h | ⟨es, fs, rfl, rfl, h⟩
  · rw [h]; exact hv
  · -- two objects: what is known of either carries over to the merged one
    rw [h]
    refine ⟨hP k es _ hv.1, ?_⟩
    rintro inner ⟨⟩
    exact ((hold _ rfl).2 fs rfl).mergeEntries hP (hv.2 es rfl)
termination_by sizeOf v

/-- **Merging keeps a property of every entry.** -/
theorem EveryEntry.mergeEntries (hP : Shallow P) {target source : Entries Value}
    (ht : EveryEntry P target) (hs : EveryEntry P source) :
    EveryEntry P (mergeEntries target source) := by
  match source with
  | [] => rw [mergeEntries_nil]; exact ht
  | (k, v) :: rest =>
    rw [mergeEntries_cons]
    have hv : Throughout P k v := hs.throughout List.mem_cons_self
    refine EveryEntry.mergeEntries hP ?_ (hs.subset (List.subset_cons_self _ _))
    rw [everyEntry_iff]
    -- an entry after the write: one that stood there, a new one, or one written over another
    rintro ⟨k', w⟩ hw
    rcases Entries.mem_update hw with hw | ⟨rfl, rfl⟩ | ⟨old, ho, rfl, rfl⟩
    · exact ht.throughout hw
    · exact hv.onto hP nofun
    · refine hv.onto hP ?_
      rintro w ⟨⟩
      exact ht.throughout ho
termination_by sizeOf source

end

end StyleSystem.Value
