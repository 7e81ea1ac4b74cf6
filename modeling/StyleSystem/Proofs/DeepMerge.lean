import StyleSystem.Proofs.MergeByKey
import StyleSystem.Style.Path

/-!
# What a deep merge is

A merge is known from what it has at the end of every path, and from the order of the keys in every
object. `Style.IsMerge` says what these are for a style over a base, in four clauses that leave
nothing open:

* a plain value of the overlay stands where it stood;
* an object of the overlay stands there as an object, whose keys are those of the base at the path
  and then the other ones of the overlay;
* nothing is left below a plain value of the overlay;
* elsewhere the result has what the base has.

The merge of two styles is the one style for which they hold (`eq_merge_iff_isMerge`), whether it is
made at once or in place, entry by entry.

That they hold follows from one equation: where a path of the overlay ends, the merge has the value
that stands there written onto what the base has at the path (`Value.lookup?_onto`). That no other
style does is an induction into the objects of the overlay. Paths that leave the overlay end in the
base, so only objects of the overlay are left to compare, key by key.
-/

namespace StyleSystem

open Entries

/-- **A style merged over a base,** by what it has at each path. -/
structure Style.IsMerge (base overlay r : Style) : Prop where
  /-- A plain value of the overlay. -/
  plain : ∀ path v, overlay.lookup? path = some v → v.isObject = false → r.lookup? path = some v
  /-- An object of the overlay: the keys of the base come first, in their order. -/
  object : ∀ path es, overlay.lookup? path = some (.object es) →
    ∃ fs, r.lookup? path = some (.object fs) ∧
      keys fs = base.keysAt path ++ (keys es).filter (· ∉ base.keysAt path)
  /-- Below a plain value of the overlay. -/
  below : ∀ path p v, p <+: path → p ≠ path → overlay.lookup? p = some v → v.isObject = false →
    r.lookup? path = none
  /-- Where the overlay has nothing, at the path or in the way. -/
  elsewhere : ∀ path, overlay.lookup? path = none →
    (∀ p v, p <+: path → overlay.lookup? p = some v → v.isObject = true) →
    r.lookup? path = base.lookup? path

namespace Value

/-! ### One key -/

theorem find?_mergeEntries_of_notMem {k : String} {source : Entries Value}
    (h : k ∉ keys source) (target : Entries Value) :
    find? k (mergeEntries target source) = find? k target := by
  rw [find?_mergeEntries_eq_written, valuesAt_eq_nil_iff.2 h, written_nil]

/-- What stands at a key of the source after a merge. -/
theorem find?_mergeEntries {k : String} {v : Value} {source : Entries Value}
    (hsource : (keys source).Nodup) (h : find? k source = some v) (target : Entries Value) :
    find? k (mergeEntries target source) = some (onto v (find? k target)) := by
  rw [find?_mergeEntries_eq_written, valuesAt_of_nodup hsource, h, Option.toList_some, written_cons,
    written_nil]

/-! ### Paths -/

/-- Where the base has no object, no path leads on. -/
theorem bind_lookup?_of_not_object {old : Option Value} (h : ∀ fs, old ≠ some (object fs))
    (k : String) (path : List String) : old.bind (lookup? (k :: path)) = none := by
  cases old with
  | none => rfl
  | some o =>
    have hplain : o.isObject = false := by
      cases o with
      | object fs => exact absurd rfl (h fs)
      | null | bool _ | number _ | string _ | array _ => rfl
    exact lookup?_of_not_isObject hplain (by simp)

variable {k : String} {path : List String} {es : Entries Value}

/-- One step into a merge, at a key of the overlay. -/
theorem lookup?_cons_onto (hes : (keys es).Nodup) {v : Value} (hv : find? k es = some v)
    (old : Option Value) :
    lookup? (k :: path) (onto (object es) old) =
      lookup? path (onto v (old.bind (lookup? [k]))) := by
  by_cases hold : ∃ fs, old = some (object fs)
  · obtain ⟨fs, rfl⟩ := hold
    rw [onto_object_object, lookup?_cons_object, find?_mergeEntries hes hv, Option.bind_some,
      Option.bind_some, lookup?_singleton_object]
  · have hnone : ∀ fs, old ≠ some (object fs) := fun fs h => hold ⟨fs, h⟩
    rw [onto_of_not_object hnone, bind_lookup?_of_not_object hnone, lookup?_cons_object, hv,
      Option.bind_some, onto_none]

/-- One step into a merge, at a key that the overlay does not have. -/
theorem lookup?_cons_onto_of_notMem (hk : k ∉ keys es) (old : Option Value) :
    lookup? (k :: path) (onto (object es) old) = old.bind (lookup? (k :: path)) := by
  by_cases hold : ∃ fs, old = some (object fs)
  · obtain ⟨fs, rfl⟩ := hold
    rw [onto_object_object, lookup?_cons_object, find?_mergeEntries_of_notMem hk,
      Option.bind_some, lookup?_cons_object]
  · have hnone : ∀ fs, old ≠ some (object fs) := fun fs h => hold ⟨fs, h⟩
    rw [onto_of_not_object hnone, bind_lookup?_of_not_object hnone, lookup?_cons_object,
      find?_eq_none hk, Option.bind_none]

/-- **A path of the overlay.** The merge has the value there written onto what the base has. -/
theorem lookup?_onto {w v : Value} (hw : w.Distinct) (hv : lookup? path w = some v)
    (old : Option Value) :
    lookup? path (onto w old) = some (onto v (old.bind (lookup? path))) := by
  induction path generalizing w old with
  | nil =>
    have hself : old.bind (lookup? []) = old := by
      cases old with
      | none => rfl
      | some o => rw [Option.bind_some, lookup?_nil]
    rw [lookup?_nil, Option.some_inj] at hv
    rw [lookup?_nil, hself, hv]
  | cons k path ih =>
    cases hobj : w.isObject with
    | false =>
      rw [lookup?_of_not_isObject hobj (by simp)] at hv
      cases hv
    | true =>
      obtain ⟨es, rfl⟩ := exists_entries_of_isObject hobj
      have hes := distinct_object.1 hw
      rw [lookup?_cons_object, Option.bind_eq_some_iff] at hv
      obtain ⟨u, hu, hv⟩ := hv
      -- the path is split behind its first key, in the older value too
      have hpath : lookup? (k :: path) = fun o : Value => (lookup? [k] o).bind (lookup? path) :=
        funext fun o => lookup?_append [k] path o
      rw [lookup?_cons_onto hes.1 hu, ih (hes.2 _ (mem_of_find? hu)) hv, hpath, Option.bind_assoc]

/-- **A path that leaves the overlay** ends in the base, if no plain value of the overlay is in the
way. -/
theorem lookup?_onto_of_eq_none {w : Value} (hw : w.Distinct) (hnone : lookup? path w = none)
    (hway : ∀ p v, p <+: path → lookup? p w = some v → v.isObject = true) (old : Option Value) :
    lookup? path (onto w old) = old.bind (lookup? path) := by
  induction path generalizing w old with
  | nil =>
    rw [lookup?_nil] at hnone
    cases hnone
  | cons k path ih =>
    have hobj : w.isObject = true := hway [] w List.nil_prefix (lookup?_nil w)
    obtain ⟨es, rfl⟩ := exists_entries_of_isObject hobj
    have hes := distinct_object.1 hw
    rw [lookup?_cons_object] at hnone
    cases hu : find? k es with
    | none => exact lookup?_cons_onto_of_notMem (notMem_keys_of_find?_eq_none hu) old
    | some u =>
      rw [hu, Option.bind_some] at hnone
      have hpath : lookup? (k :: path) = fun o : Value => (lookup? [k] o).bind (lookup? path) :=
        funext fun o => lookup?_append [k] path o
      -- the overlay goes along with the path for one key more
      have hway' : ∀ p v, p <+: path → lookup? p u = some v → v.isObject = true := by
        intro p v hp hv
        refine hway (k :: p) v (List.cons_prefix_cons.2 ⟨rfl, hp⟩) ?_
        rw [lookup?_cons_object, hu, Option.bind_some, hv]
      rw [lookup?_cons_onto hes.1 hu, ih (hes.2 _ (mem_of_find? hu)) hnone hway', hpath,
        Option.bind_assoc]

end Value

namespace Style

variable {base overlay r : Style}

/-! ### The merge -/

theorem lookup?_merge_eq (base overlay : Style) (path : List String) :
    (base.merge overlay).lookup? path =
      Value.lookup? path (Value.onto overlay.toValue (some base.toValue)) := by
  unfold lookup? toValue
  rw [Value.onto_object_object]
  rfl

/-- Merging in place is merging. -/
theorem mergeInto_eq_merge (base overlay : Style) : base.mergeInto overlay = base.merge overlay := by
  apply Style.ext
  have hrun : ∀ (ps : List {p // p ∈ overlay.entries}) (s : Style),
      (ps.foldl (fun s p => s.write p.1.1 p.1.2 (overlay.distinct.2 p.1 p.2)) s).entries =
        Value.mergeEntries s.entries (ps.map Subtype.val) := by
    intro ps
    induction ps with
    | nil => intro s; rw [List.map_nil, Value.mergeEntries_nil]; rfl
    | cons p ps ih => intro s; rw [List.foldl_cons, ih, List.map_cons, Value.mergeEntries_cons]; rfl
  rw [mergeInto, hrun, List.attach_map_subtype_val, entries_merge]

theorem isMerge_merge (base overlay : Style) : IsMerge base overlay (base.merge overlay) := by
  have hdistinct : overlay.toValue.Distinct := Value.distinct_object.2 overlay.distinct
  constructor
  · -- plain values
    intro path v hv hplain
    rw [lookup?_merge_eq, Value.lookup?_onto hdistinct hv, Value.onto_plain hplain]
  · -- objects: over an object of the base they are merged, and elsewhere they stand alone
    intro path es hes
    have hmerge := Value.lookup?_onto hdistinct hes (some base.toValue)
    rw [← lookup?_merge_eq, Option.bind_some] at hmerge
    by_cases hbase : ∃ fs, base.lookup? path = some (.object fs)
    · obtain ⟨fs, hfs⟩ := hbase
      have hlookup : Value.lookup? path base.toValue = some (.object fs) := hfs
      rw [hlookup, Value.onto_object_object] at hmerge
      refine ⟨_, hmerge, ?_⟩
      rw [keysAt_of_object hfs]
      exact Value.keys_mergeEntries_of_nodup (nodup_of_lookup? hfs) (nodup_of_lookup? hes)
    · have hnone : ∀ fs, base.lookup? path ≠ some (.object fs) := fun fs h => hbase ⟨fs, h⟩
      have halone : Value.onto (.object es) (base.lookup? path) = .object es :=
        Value.onto_of_not_object hnone _
      have hall : (keys es).filter (fun k => decide (k ∉ ([] : List String))) = keys es := by simp
      refine ⟨es, hmerge.trans (congrArg some halone), ?_⟩
      rw [keysAt_of_not_object hnone, List.nil_append, hall]
  · -- below a plain value
    intro path p v hp hne hv hplain
    obtain ⟨rest, rfl⟩ := hp
    have hrest : rest ≠ [] := by
      rintro rfl
      exact hne (List.append_nil p).symm
    rw [lookup?_merge_eq, Value.lookup?_append, Value.lookup?_onto hdistinct hv,
      Value.onto_plain hplain, Option.bind_some, Value.lookup?_of_not_isObject hplain hrest]
  · -- elsewhere
    intro path hnone hway
    rw [lookup?_merge_eq, Value.lookup?_onto_of_eq_none hdistinct hnone hway, Option.bind_some]
    rfl

/-! ### No other style -/

theorem lookup?_concat_of_object {s : Style} {path : List String} {es : Entries Value}
    (h : s.lookup? path = some (.object es)) (key : String) :
    s.lookup? (path ++ [key]) = Entries.find? key es := Value.lookup?_concat_of_object h key

/-- Where a path of the overlay ends, the clauses leave no choice. -/
theorem IsMerge.lookup?_unique {r' : Style} (h : IsMerge base overlay r)
    (h' : IsMerge base overlay r') {path : List String} {v : Value}
    (hv : overlay.lookup? path = some v) : r.lookup? path = r'.lookup? path := by
  cases hobj : v.isObject with
  | false => rw [h.plain path v hv hobj, h'.plain path v hv hobj]
  | true =>
    obtain ⟨es, hes⟩ := Value.exists_entries_of_isObject hobj
    rw [hes] at hv
    obtain ⟨fs, hfs, hkeys⟩ := h.object path es hv
    obtain ⟨gs, hgs, hkeys'⟩ := h'.object path es hv
    -- the two objects have the same keys, so they are compared key by key
    have hentries : fs = gs := by
      refine eq_of_find? (nodup_of_lookup? hfs) (hkeys.trans hkeys'.symm) ?_
      intro k _
      rw [← lookup?_concat_of_object hfs, ← lookup?_concat_of_object hgs]
      have hk := lookup?_concat_of_object hv k
      cases hu : Entries.find? k es with
      | some u =>
        have hlt : sizeOf u < sizeOf v := by
          rw [hes]
          exact Nat.lt_trans (Value.sizeOf_lt_of_mem (mem_of_find? hu)) (Value.sizeOf_lt_object es)
        exact h.lookup?_unique h' (hk.trans hu)
      | none =>
        -- the path leaves the overlay here, and all the way up to here there are objects
        have hway : ∀ p w, p <+: path ++ [k] → overlay.lookup? p = some w → w.isObject = true := by
          intro p w hp hw
          rcases List.prefix_concat_iff.1 hp with rfl | ⟨rest, rfl⟩
          · rw [hk, hu] at hw
            cases hw
          · by_cases hrest : rest = []
            · rw [hrest, List.append_nil, hw, Option.some_inj] at hv
              rw [hv]
              rfl
            · exact Value.isObject_of_lookup?_append hrest hw hv
        rw [h.elsewhere _ (hk.trans hu) hway, h'.elsewhere _ (hk.trans hu) hway]
    rw [hfs, hgs, hentries]
termination_by sizeOf v
decreasing_by exact hlt

end Style

/-- **Deep merge.** The merge of two styles is the one style that has, at each path and in the order
of its keys, what the clauses of `Style.IsMerge` say; merging in place gives the same. -/
theorem eq_merge_iff_isMerge (base overlay r : Style) :
    (r = base.merge overlay ↔ Style.IsMerge base overlay r) ∧
      base.mergeInto overlay = base.merge overlay := by
  refine ⟨⟨?_, ?_⟩, Style.mergeInto_eq_merge base overlay⟩
  · rintro rfl
    exact Style.isMerge_merge base overlay
  · intro h
    have hroot : r.lookup? [] = (base.merge overlay).lookup? [] :=
      h.lookup?_unique (Style.isMerge_merge base overlay) (Style.lookup?_nil overlay)
    rw [Style.lookup?_nil, Style.lookup?_nil, Option.some_inj, Value.object.injEq] at hroot
    exact Style.ext hroot

end StyleSystem
