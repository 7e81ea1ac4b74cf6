import StyleSystem.Value

/-!
# Style objects

A `Style` is an object of style values in which no object repeats a key. Every operation of the
library that takes styles gives styles: the key lists never need repair after it. The first of them
is the deep merge (`Style.merge`).
-/

namespace StyleSystem

/-! ## Styles -/

/-- An ordered object of style values, without repeated keys at any depth. -/
structure Style where
  entries : Entries Value
  distinct : Value.DistinctEntries entries

namespace Style

@[ext] theorem ext {a b : Style} (h : a.entries = b.entries) : a = b := by
  cases a; cases b; cases h; rfl

instance : DecidableEq Style := fun a b =>
  decidable_of_iff (a.entries = b.entries) ⟨ext, congrArg entries⟩

/-- The style without entries. -/
def empty : Style := ⟨[], by simp [Value.DistinctEntries]⟩

instance : Inhabited Style := ⟨empty⟩

@[simp] theorem entries_empty : empty.entries = [] := rfl

/-- The style after writing entries one after the other: of a repeated key the first entry keeps
the position and the last one gives the value, in nested objects too. -/
def ofEntries (es : List (String × Value)) : Style :=
  ⟨Entries.ofList (Value.collapseEntries es),
    Value.distinctEntries_ofList (Value.distinct_collapseEntries es)⟩

/-- The style as a value. -/
def toValue (s : Style) : Value := .object s.entries

/-- The style with a single entry. -/
def single (key : String) (v : Value) (hv : v.Distinct) : Style :=
  ⟨[(key, v)], by simp, by simpa using hv⟩

@[simp] theorem entries_single (key : String) (v : Value) (hv : v.Distinct) :
    (single key v hv).entries = [(key, v)] := rfl

/-- The style that has another one under a key, and nothing else. -/
def under (s : Style) (key : String) : Style :=
  single key s.toValue (Value.distinct_object.2 s.distinct)

@[simp] theorem entries_under (s : Style) (key : String) :
    (s.under key).entries = [(key, .object s.entries)] := rfl

/-- The value at a key. -/
def find? (s : Style) (key : String) : Option Value := Entries.find? key s.entries

theorem distinct_of_find? {s : Style} {key : String} {v : Value} (h : s.find? key = some v) :
    v.Distinct := s.distinct.2 _ (Entries.mem_of_find? h)

end Style

/-!
## Deep merge

A style is merged over another one key by key. Where both hold an object the objects are merged in
the same way; otherwise the value of the style on top wins, so a plain value replaces a whole nested
object. Keys of the lower style keep their position, and new keys are appended.

* `Value.onto` — what stands at a key after a value is written onto an older one.
* `Style.write` — one entry merged into a style.
* `Style.mergeInto` — a style merged into another one in place.
* `Style.merge` — a style merged over another one.
-/

namespace Value

mutual

/-- **What stands at a key** when a value comes over the older value there, if any. -/
def onto : Value → Option Value → Value
  | object entries, some (object older) => object (mergeEntries older entries)
  | v, _ => v

/-- The target after the entries of a source are merged into it one after the other. -/
def mergeEntries (target : List (String × Value)) : List (String × Value) → List (String × Value)
  | [] => target
  | (k, v) :: rest => mergeEntries (Entries.update k (onto v) target) rest

end

@[simp] theorem mergeEntries_nil (target : Entries Value) : mergeEntries target [] = target := by
  simp [mergeEntries]

@[simp] theorem mergeEntries_cons (target : Entries Value) (k : String) (v : Value)
    (rest : Entries Value) :
    mergeEntries target ((k, v) :: rest) =
      mergeEntries (Entries.update k (onto v) target) rest := by
  simp [mergeEntries]

/-- Merging is writing the entries of the source from first to last. -/
theorem mergeEntries_eq_foldl (target source : Entries Value) :
    mergeEntries target source =
      source.foldl (fun acc p => Entries.update p.1 (onto p.2) acc) target := by
  induction source generalizing target with
  | nil => simp
  | cons p source ih =>
    obtain ⟨k, v⟩ := p
    simp [ih]

theorem mergeEntries_append (target es fs : Entries Value) :
    mergeEntries target (es ++ fs) = mergeEntries (mergeEntries target es) fs := by
  rw [mergeEntries_eq_foldl, mergeEntries_eq_foldl, mergeEntries_eq_foldl, List.foldl_append]

theorem onto_object_object (es fs : Entries Value) :
    onto (object es) (some (object fs)) = object (mergeEntries fs es) := by simp [onto]

@[simp] theorem onto_none (v : Value) : onto v none = v := by cases v <;> simp [onto]

/-- Only two objects are merged; otherwise the newer value stands. -/
theorem onto_cases (v : Value) (old : Option Value) :
    onto v old = v ∨ ∃ es fs, v = object es ∧ old = some (object fs) ∧
      onto v old = object (mergeEntries fs es) := by
  cases v with
  | object es =>
    match old with
    | some (object fs) => exact .inr ⟨es, fs, rfl, rfl, onto_object_object es fs⟩
    | none | some null | some (bool _) | some (number _) | some (string _) | some (array _) =>
      exact .inl (by simp [onto])
  | _ => exact .inl (by simp [onto])

/-- A plain value replaces what stands there. -/
theorem onto_plain {v : Value} (hv : v.isObject = false) (old : Option Value) : onto v old = v := by
  rcases onto_cases v old with h | ⟨es, fs, rfl, -, -⟩
  · exact h
  · cases hv

/-- Where no object stands, the new value stands alone. -/
theorem onto_of_not_object {old : Option Value} (h : ∀ fs, old ≠ some (object fs)) (v : Value) :
    onto v old = v := by
  rcases onto_cases v old with hv | ⟨es, fs, -, hold, -⟩
  · exact hv
  · exact absurd hold (h fs)

theorem onto_of_not_isObject (v : Value) {old : Value} (h : old.isObject = false) :
    onto v (some old) = v := by
  refine onto_of_not_object ?_ v
  rintro fs ⟨⟩
  cases h

/-- Entries with distinct keys, merged into the empty object, are the result. -/
theorem mergeEntries_nil_left {source : Entries Value} (h : (Entries.keys source).Nodup) :
    mergeEntries [] source = source := by
  rw [mergeEntries_eq_foldl,
    Entries.foldl_update_eq_append (g := fun p => onto p.2) (fun p => onto_none p.2) h (by simp)]
  rfl

/-- What stands in a merge stood in the target or in the source, or comes from an entry of each. -/
theorem mem_mergeEntries {target source : Entries Value} (h : (Entries.keys source).Nodup)
    {k : String} {v : Value} (hv : (k, v) ∈ mergeEntries target source) :
    (k, v) ∈ target ∨ (k, v) ∈ source ∨
      ∃ old new, (k, old) ∈ target ∧ (k, new) ∈ source ∧ v = onto new (some old) := by
  induction source generalizing target with
  | nil => exact .inl (by simpa using hv)
  | cons p source ih =>
    obtain ⟨l, w⟩ := p
    rw [Entries.keys_cons, List.nodup_cons] at h
    rw [mergeEntries_cons] at hv
    rcases ih h.2 hv with hv | hv | ⟨old, new, hold, hnew, rfl⟩
    · rcases Entries.mem_update hv with hv | ⟨rfl, rfl⟩ | ⟨old, hold, rfl, rfl⟩
      · exact .inl hv
      · rw [onto_none]
        exact .inr (.inl List.mem_cons_self)
      · exact .inr (.inr ⟨old, w, hold, List.mem_cons_self, rfl⟩)
    · exact .inr (.inl (List.mem_cons_of_mem _ hv))
    · -- a later entry has another key than the first one
      have hl : k ≠ l := fun hl => h.1 (hl ▸ Entries.mem_keys_of_mem hnew)
      rcases Entries.mem_update hold with hold | ⟨hk, -⟩ | ⟨-, -, hk, -⟩
      · exact .inr (.inr ⟨old, new, hold, List.mem_cons_of_mem _ hnew, rfl⟩)
      · exact absurd hk hl
      · exact absurd hk hl

/-! ### Distinct keys -/

theorem nodup_mergeEntries {target : Entries Value} (h : (Entries.keys target).Nodup)
    (source : Entries Value) : (Entries.keys (mergeEntries target source)).Nodup := by
  induction source generalizing target with
  | nil => rwa [mergeEntries_nil]
  | cons p source ih =>
    rw [mergeEntries_cons]
    exact ih (Entries.nodup_update h)

theorem distinctEntries_update {k : String} {f : Option Value → Value} {es : Entries Value}
    (hes : DistinctEntries es) (hf : ∀ old, (∀ v, old = some v → Distinct v) → Distinct (f old)) :
    DistinctEntries (Entries.update k f es) := by
  refine ⟨Entries.nodup_update hes.1, ?_⟩
  rintro ⟨k', v⟩ hv
  rcases Entries.mem_update hv with hv | ⟨-, hv⟩ | ⟨old, ho, -, hv⟩
  · exact hes.2 _ hv
  · exact hv ▸ hf none nofun
  · exact hv ▸ hf (some old) fun v h => by cases h; exact hes.2 _ ho

-- Only two objects are merged; in every other case the new value stands there alone.
mutual

theorem distinct_onto : (v : Value) → Distinct v → (old : Option Value) →
    (∀ w, old = some w → Distinct w) → Distinct (onto v old)
  | .object es, hv, some (.object fs), ho => by
    rw [onto_object_object, distinct_object]
    exact distinctEntries_mergeEntries es (distinct_object.1 hv).2 fs
      (distinct_object.1 (ho _ rfl))
  | .object es, hv, none, _ | .object es, hv, some .null, _ | .object es, hv, some (.bool _), _
  | .object es, hv, some (.number _), _ | .object es, hv, some (.string _), _
  | .object es, hv, some (.array _), _ => by simpa [onto] using hv
  | .null, _, _, _ => by simpa [onto] using Distinct.null
  | .bool b, _, _, _ => by simpa [onto] using Distinct.bool b
  | .number n, _, _, _ => by simpa [onto] using Distinct.number n
  | .string s, _, _, _ => by simpa [onto] using Distinct.string s
  | .array vs, hv, _, _ => by simpa [onto] using hv

theorem distinctEntries_mergeEntries : (source : List (String × Value)) →
    (∀ p ∈ source, Distinct p.2) → (target : Entries Value) → DistinctEntries target →
    DistinctEntries (mergeEntries target source)
  | [], _, target, ht => by simpa using ht
  | (k, v) :: rest, hs, target, ht => by
    rw [mergeEntries_cons]
    refine distinctEntries_mergeEntries rest (fun p hp => hs p (List.mem_cons_of_mem _ hp)) _ ?_
    exact distinctEntries_update ht fun old ho =>
      distinct_onto v (hs (k, v) List.mem_cons_self) old ho

end

end Value

namespace Style

/-- One entry merged into a style. -/
def write (s : Style) (key : String) (v : Value) (hv : v.Distinct) : Style :=
  ⟨Entries.update key v.onto s.entries,
    Value.distinctEntries_update s.distinct fun old ho => Value.distinct_onto v hv old ho⟩

/-- A style merged into another one in place, entry by entry. -/
def mergeInto (target source : Style) : Style :=
  source.entries.attach.foldl (fun s p => s.write p.1.1 p.1.2 (source.distinct.2 p.1 p.2)) target

/-- **A style merged over another one.** -/
def merge (base overlay : Style) : Style :=
  ⟨Value.mergeEntries base.entries overlay.entries,
    Value.distinctEntries_mergeEntries _ overlay.distinct.2 _ base.distinct⟩

@[simp] theorem entries_merge (base overlay : Style) :
    (base.merge overlay).entries = Value.mergeEntries base.entries overlay.entries := rfl

/-- Styles merged over a base one after the other. -/
def mergeAll (base : Style) (overlays : List Style) : Style := overlays.foldl merge base

/-- Merging styles one after the other merges all their entries. -/
theorem entries_mergeAll (base : Style) (overlays : List Style) :
    (base.mergeAll overlays).entries =
      Value.mergeEntries base.entries (overlays.flatMap entries) := by
  induction overlays generalizing base with
  | nil => simp [mergeAll]
  | cons s overlays ih =>
    have hstep : base.mergeAll (s :: overlays) = (base.merge s).mergeAll overlays := rfl
    rw [hstep, ih, entries_merge, List.flatMap_cons, Value.mergeEntries_append]

end Style

end StyleSystem
