import Mathlib.Data.List.Induction
import StyleSystem.Style.Basic
import StyleSystem.Style.Shorthand

/-!
# Merges key by key

A run of writes treats every key by itself. The keys that it leaves stand in the order in which they
were first written (`Entries.keys_foldl_update`), and what stands at a key depends on the values that
were written to this key alone (`Value.find?_mergeEntries_eq_written`).
-/

namespace StyleSystem

/-!
## The order of keys

A key keeps the position of the first write to it. So a run of writes from the empty object on has
the written keys in the order of their first writes, each of them once (`keys_foldl_update`): in the
order of `List.eraseDups`, which keeps the first of equal items. This holds of an expansion
(`keys_expandEntries`) as well as of a merge (`keys_mergeEntries_nil`).
-/

/-! ### First occurrences -/

section FirstOccurrence

variable {α β : Type} [BEq α] [LawfulBEq α] [BEq β] [LawfulBEq β]

/-- Items that stand in front already change nothing at the end. -/
theorem eraseDups_append_of_subset {l m : List α} (h : m ⊆ l) :
    (l ++ m).eraseDups = l.eraseDups := by
  have hnone : m.removeAll l = [] := by
    rw [List.removeAll, List.filter_eq_nil_iff]
    intro a ha
    simp [h ha]
  rw [List.eraseDups_append, hnone, List.eraseDups_nil, List.append_nil]

theorem eraseDups_concat_of_mem {l : List α} {a : α} (h : a ∈ l) :
    (l ++ [a]).eraseDups = l.eraseDups :=
  eraseDups_append_of_subset (List.cons_subset.2 ⟨h, List.nil_subset l⟩)

theorem eraseDups_concat_of_notMem {l : List α} {a : α} (h : a ∉ l) :
    (l ++ [a]).eraseDups = l.eraseDups ++ [a] := by
  have hone : [a].removeAll l = [a] := by simp [List.removeAll, h]
  rw [List.eraseDups_append, hone]
  rfl

/-- The first item with a property is a first occurrence. -/
theorem find?_eraseDups (p : α → Bool) (l : List α) : l.eraseDups.find? p = l.find? p := by
  induction l using List.reverseRecOn with
  | nil => rfl
  | append_singleton l a ih =>
    by_cases h : a ∈ l
    · rw [eraseDups_concat_of_mem h, ih, List.find?_append]
      cases hp : p a with
      | false => simp [hp]
      | true =>
        -- some item of the list has the property already
        obtain ⟨b, hb⟩ := Option.isSome_iff_exists.1 (List.find?_isSome.2 ⟨a, h, hp⟩)
        rw [hb, Option.some_or]
    · rw [eraseDups_concat_of_notMem h, List.find?_append, List.find?_append, ih]

/-- Where different items have different images, first occurrences have the first images. -/
theorem filterMap_eraseDups {f : α → Option β}
    (hf : ∀ a b c, f a = some c → f b = some c → a = b) (l : List α) :
    l.eraseDups.filterMap f = (l.filterMap f).eraseDups := by
  induction l using List.reverseRecOn with
  | nil => rfl
  | append_singleton l a ih =>
    rw [List.filterMap_append]
    cases ha : f a with
    | none =>
      have hnone : [a].filterMap f = [] := by simp [ha]
      rw [hnone, List.append_nil, ← ih]
      by_cases h : a ∈ l
      · rw [eraseDups_concat_of_mem h]
      · rw [eraseDups_concat_of_notMem h, List.filterMap_append, hnone, List.append_nil]
    | some c =>
      have hone : [a].filterMap f = [c] := by simp [ha]
      -- only `a` gives `c`, so that a repetition on one side is a repetition on the other
      have hmem : c ∈ l.filterMap f ↔ a ∈ l := by
        rw [List.mem_filterMap]
        exact ⟨fun ⟨b, hb, hc⟩ => hf a b c ha hc ▸ hb, fun h => ⟨a, h, ha⟩⟩
      rw [hone]
      by_cases h : a ∈ l
      · rw [eraseDups_concat_of_mem h, eraseDups_concat_of_mem (hmem.2 h), ih]
      · rw [eraseDups_concat_of_notMem h, eraseDups_concat_of_notMem (hmem.not.2 h),
          List.filterMap_append, ih, hone]

theorem filter_eraseDups (p : α → Bool) (l : List α) :
    l.eraseDups.filter p = (l.filter p).eraseDups := by
  rw [← List.filterMap_eq_filter, filterMap_eraseDups]
  intro a b c ha hb
  rw [Option.guard_eq_some_iff] at ha hb
  exact ha.1.trans hb.1.symm

theorem eraseDups_eraseDups (l : List α) : l.eraseDups.eraseDups = l.eraseDups := by
  induction l using List.reverseRecOn with
  | nil => rfl
  | append_singleton l a ih =>
    by_cases h : a ∈ l
    · rw [eraseDups_concat_of_mem h, ih]
    · rw [eraseDups_concat_of_notMem h, eraseDups_concat_of_notMem (mt List.mem_eraseDups.1 h), ih]

theorem eraseDups_of_nodup {l : List α} (h : l.Nodup) : l.eraseDups = l := by
  induction l using List.reverseRecOn with
  | nil => rfl
  | append_singleton l a ih =>
    obtain ⟨hl, -, hdisjoint⟩ := List.nodup_append.1 h
    have ha : a ∉ l := fun hmem => hdisjoint a hmem a List.mem_cons_self rfl
    rw [eraseDups_concat_of_notMem ha, ih hl]

/-- Later occurrences change nothing, neither in front of a list nor at its end. -/
theorem eraseDups_eraseDups_append (l m : List α) :
    (l.eraseDups ++ m).eraseDups = (l ++ m).eraseDups := by
  induction m using List.reverseRecOn with
  | nil => rw [List.append_nil, List.append_nil, eraseDups_eraseDups]
  | append_singleton m a ih =>
    have hmem : a ∈ l.eraseDups ++ m ↔ a ∈ l ++ m := by simp [List.mem_eraseDups]
    rw [← List.append_assoc, ← List.append_assoc]
    by_cases h : a ∈ l ++ m
    · rw [eraseDups_concat_of_mem h, eraseDups_concat_of_mem (hmem.2 h), ih]
    · rw [eraseDups_concat_of_notMem h, eraseDups_concat_of_notMem (mt hmem.1 h), ih]

theorem eraseDups_append_eraseDups (l m : List α) :
    (l ++ m.eraseDups).eraseDups = (l ++ m).eraseDups := by
  induction m using List.reverseRecOn with
  | nil => rfl
  | append_singleton m a ih =>
    by_cases h : a ∈ m
    · rw [eraseDups_concat_of_mem h, ← List.append_assoc,
        eraseDups_concat_of_mem (List.mem_append_right l h), ih]
    · rw [eraseDups_concat_of_notMem h, ← List.append_assoc, ← List.append_assoc]
      by_cases hl : a ∈ l
      · rw [eraseDups_concat_of_mem (List.mem_append_left _ hl),
          eraseDups_concat_of_mem (List.mem_append_left _ hl), ih]
      · have hlm : a ∉ l ++ m := by simp [hl, h]
        have hlm' : a ∉ l ++ m.eraseDups := by simp [hl, h, List.mem_eraseDups]
        rw [eraseDups_concat_of_notMem hlm, eraseDups_concat_of_notMem hlm', ih]

end FirstOccurrence

/-! ### Runs of writes -/

namespace Entries

/-- **The keys of a run of writes** stand in the order of their first writes. -/
theorem keys_foldl_update {α γ : Type} (key : γ → String) (f : γ → Option α → α) (xs : List γ) :
    keys (xs.foldl (fun acc x => update (key x) (f x) acc) []) = (xs.map key).eraseDups := by
  induction xs using List.reverseRecOn with
  | nil => rfl
  | append_singleton xs x ih =>
    rw [List.foldl_append, List.foldl_cons, List.foldl_nil, keys_update, ih, List.map_append]
    by_cases h : key x ∈ xs.map key
    · rw [if_pos (List.mem_eraseDups.2 h)]
      exact (eraseDups_concat_of_mem h).symm
    · rw [if_neg (mt List.mem_eraseDups.1 h)]
      exact (eraseDups_concat_of_notMem h).symm

end Entries

open Entries

theorem Declaration.keys_run (ds : List Declaration) :
    keys (run ds) = (ds.map Declaration.target).eraseDups :=
  keys_foldl_update Declaration.target Declaration.onto ds

/-- An expansion has its keys in the order in which entries first declare them. -/
theorem Value.keys_expandEntries (es : Entries Value) :
    keys (expandEntries es) = ((Declaration.ofEntries es).map Declaration.target).eraseDups := by
  rw [expandEntries, keys_map_values, Declaration.keys_run]

/-- A merge into the empty object has its keys in the order in which they are first written. -/
theorem Value.keys_mergeEntries_nil (writes : Entries Value) :
    keys (mergeEntries [] writes) = (keys writes).eraseDups := by
  rw [mergeEntries_eq_foldl]
  exact keys_foldl_update Prod.fst (fun p => onto p.2) writes

/-- A merge has the keys of the target, and then the new ones of the source. -/
theorem Value.keys_mergeEntries {target : Entries Value} (h : (keys target).Nodup)
    (source : Entries Value) :
    keys (mergeEntries target source) = (keys target ++ keys source).eraseDups := by
  rw [← keys_append, ← keys_mergeEntries_nil, mergeEntries_append, mergeEntries_nil_left h]

/-- Where neither side repeats a key, a merge has the keys of the target and then those of the source
that are not among them. -/
theorem Value.keys_mergeEntries_of_nodup {target source : Entries Value} (ht : (keys target).Nodup)
    (hs : (keys source).Nodup) :
    keys (mergeEntries target source) =
      keys target ++ (keys source).filter (· ∉ keys target) := by
  have hnew : (keys source).removeAll (keys target) = (keys source).filter (· ∉ keys target) := by
    simp [List.removeAll]
  rw [keys_mergeEntries ht, List.eraseDups_append, eraseDups_of_nodup ht, hnew,
    eraseDups_of_nodup (hs.filter _)]

/-!
## What a run of writes leaves at a key

A merge treats every key by itself: what stands at a key in the end depends on what stood there
before and on the values that the source has for this key, in their order
(`Value.find?_mergeEntries_eq_written`). Only the source of a single style has one value for a key;
a run over several styles, or over the writes of an object, may have many, and `Value.written` is
what they leave. Two facts are enough to know it.

* A plain value replaces what stood there, so nothing before it counts (`Value.written_of_plain`).
* Objects alone are merged, and merging them is merging all that is in them
  (`Value.written_of_objects`).
-/

namespace Entries

variable {α : Type}

/-- The values that a list of entries has for a key, in order. -/
def valuesAt (k : String) (es : Entries α) : List α :=
  es.filterMap fun p => if p.1 = k then some p.2 else none

@[simp] theorem valuesAt_nil (k : String) : valuesAt k ([] : Entries α) = [] := rfl

theorem valuesAt_cons (k l : String) (v : α) (es : Entries α) :
    valuesAt k ((l, v) :: es) = if l = k then v :: valuesAt k es else valuesAt k es := by
  by_cases h : l = k <;> simp [valuesAt, h]

theorem valuesAt_flatMap {β : Type} (k : String) (l : List β) (f : β → Entries α) :
    valuesAt k (l.flatMap f) = l.flatMap fun b => valuesAt k (f b) := List.filterMap_flatMap

theorem mem_valuesAt {k : String} {v : α} {es : Entries α} : v ∈ valuesAt k es ↔ (k, v) ∈ es := by
  simp [valuesAt]

theorem valuesAt_eq_nil_iff {k : String} {es : Entries α} : valuesAt k es = [] ↔ k ∉ keys es := by
  rw [List.eq_nil_iff_forall_not_mem]
  constructor
  · intro h hk
    obtain ⟨v, hv⟩ := exists_mem_of_mem_keys hk
    exact h v (mem_valuesAt.2 hv)
  · intro h v hv
    exact h (mem_keys_of_mem (mem_valuesAt.1 hv))

/-- Where no key is repeated, a key has one value or none. -/
theorem valuesAt_of_nodup {es : Entries α} (h : (keys es).Nodup) (k : String) :
    valuesAt k es = (find? k es).toList := by
  induction es with
  | nil => rfl
  | cons p es ih =>
    obtain ⟨l, v⟩ := p
    rw [keys_cons, List.nodup_cons] at h
    rw [valuesAt_cons, find?]
    by_cases hl : l = k
    · -- no later entry has the key
      have hnone : valuesAt k es = [] := valuesAt_eq_nil_iff.2 (hl ▸ h.1)
      rw [if_pos hl, if_pos hl, hnone, Option.toList_some]
    · rw [if_neg hl, if_neg hl, ih h.2]

/-- What the entries of one key are mapped to, where those of the others are mapped to nothing. -/
theorem flatMap_eq_of_nodup {β : Type} {es : Entries α} (hes : (keys es).Nodup) {k : String}
    {f : String × α → List β} (hf : ∀ p ∈ es, p.1 ≠ k → f p = []) :
    es.flatMap f = (find? k es).toList.flatMap fun v => f (k, v) := by
  induction es with
  | nil => rfl
  | cons p es ih =>
    obtain ⟨l, v⟩ := p
    rw [keys_cons, List.nodup_cons] at hes
    have hrest := ih hes.2 fun q hq => hf q (List.mem_cons_of_mem _ hq)
    rw [List.flatMap_cons, find?, hrest]
    by_cases hl : l = k
    · -- no later entry has the key
      rw [if_pos hl, find?_eq_none (hl ▸ hes.1), hl, Option.toList_none, Option.toList_some,
        List.flatMap_nil, List.append_nil, List.flatMap_singleton]
    · rw [if_neg hl, hf _ List.mem_cons_self hl, List.nil_append]

end Entries

namespace Value

open Entries

/-- The entries of an object. A plain value has none. -/
def contents : Value → Entries Value
  | object es => es
  | _ => []

@[simp] theorem contents_object (es : Entries Value) : contents (object es) = es := rfl

theorem contents_of_not_isObject {v : Value} (h : v.isObject = false) : v.contents = [] := by
  unfold contents
  split
  · cases h
  · rfl

theorem sizeOf_contents_le (v : Value) : sizeOf v.contents ≤ sizeOf v := by
  unfold contents
  split
  · exact Nat.le_of_lt (sizeOf_lt_object _)
  · cases v <;> simp

theorem distinct_contents {v : Value} (h : v.Distinct) : DistinctEntries v.contents := by
  unfold contents
  split
  · exact distinct_object.1 h
  · exact ⟨List.nodup_nil, nofun⟩

/-! ### Values written at one key -/

/-- **What stands at a key** after values are written there one after the other. -/
def written (old : Option Value) (vs : List Value) : Option Value :=
  vs.foldl (fun old v => some (onto v old)) old

@[simp] theorem written_nil (old : Option Value) : written old [] = old := rfl

@[simp] theorem written_cons (old : Option Value) (v : Value) (vs : List Value) :
    written old (v :: vs) = written (some (onto v old)) vs := rfl

theorem written_append (old : Option Value) (vs ws : List Value) :
    written old (vs ++ ws) = written (written old vs) ws := List.foldl_append

/-- A single value stands as it is. -/
theorem written_toList (v : Option Value) : written none v.toList = v := by
  cases v with
  | none => rfl
  | some v => rw [Option.toList_some, written_cons, onto_none, written_nil]

/-- **One key of a merge.** -/
theorem find?_mergeEntries_eq_written (k : String) (target source : Entries Value) :
    find? k (mergeEntries target source) = written (find? k target) (valuesAt k source) := by
  induction source generalizing target with
  | nil => rw [mergeEntries_nil, valuesAt_nil, written_nil]
  | cons p source ih =>
    obtain ⟨l, v⟩ := p
    rw [mergeEntries_cons, ih, find?_update, valuesAt_cons]
    by_cases hl : l = k
    · rw [if_pos hl.symm, if_pos hl, written_cons, hl]
    · rw [if_neg (Ne.symm hl), if_neg hl]

/-- A source without repeated keys has one value to write at a key, or none. -/
theorem find?_mergeEntries_of_nodup {source : Entries Value} (h : (keys source).Nodup) (k : String)
    (target : Entries Value) :
    find? k (mergeEntries target source) = written (find? k target) (find? k source).toList := by
  rw [find?_mergeEntries_eq_written, valuesAt_of_nodup h]

variable {old : Option Value} {vs : List Value}

/-- Nothing in front of a plain value counts. -/
theorem written_of_plain {v : Value} (hv : v.isObject = false) (old : Option Value)
    (before after : List Value) : written old (before ++ v :: after) = written (some v) after := by
  rw [written_append, written_cons, onto_plain hv]

/-- Where all the values are plain, the last one stands. -/
theorem written_of_plains (h : ∀ v ∈ vs, v.isObject = false) (old : Option Value) :
    written old vs = vs.getLast?.or old := by
  induction vs generalizing old with
  | nil => rfl
  | cons v vs ih =>
    rw [written_cons, onto_plain (h v List.mem_cons_self),
      ih fun w hw => h w (List.mem_cons_of_mem _ hw), List.getLast?_cons]
    cases vs.getLast? <;> rfl

/-- **Objects over an object** are merged into it with all that is in them. -/
theorem written_of_objects (h : ∀ v ∈ vs, v.isObject = true) (fs : Entries Value) :
    written (some (object fs)) vs = some (object (mergeEntries fs (vs.flatMap contents))) := by
  induction vs generalizing fs with
  | nil => rw [written_nil, List.flatMap_nil, mergeEntries_nil]
  | cons v vs ih =>
    obtain ⟨es, rfl⟩ := exists_entries_of_isObject (h v List.mem_cons_self)
    rw [written_cons, onto_object_object, ih fun w hw => h w (List.mem_cons_of_mem _ hw),
      List.flatMap_cons, contents_object, mergeEntries_append]

/-- Where no object stood, objects are merged as they are over an empty one. -/
theorem written_of_not_object (h : ∀ v ∈ vs, v.isObject = true)
    (hkeys : ∀ v ∈ vs, (keys v.contents).Nodup) (hne : vs ≠ [])
    (hold : ∀ fs, old ≠ some (object fs)) :
    written old vs = some (object (mergeEntries [] (vs.flatMap contents))) := by
  cases vs with
  | nil => exact absurd rfl hne
  | cons v vs =>
    obtain ⟨es, rfl⟩ := exists_entries_of_isObject (h v List.mem_cons_self)
    have hes : (keys es).Nodup := hkeys _ List.mem_cons_self
    -- the first object stands alone, as it would over the empty one
    rw [written_cons, onto_of_not_object hold,
      written_of_objects fun w hw => h w (List.mem_cons_of_mem _ hw), List.flatMap_cons,
      contents_object, mergeEntries_append, mergeEntries_nil_left hes]

end Value

end StyleSystem
