import StyleSystem.Proofs.Compilation
import StyleSystem.Proofs.Leaves
import StyleSystem.Proofs.Parts
import StyleSystem.Style.Basic
import StyleSystem.Style.Normal

/-!
# Null and absence

An entry with the value null counts as absent: expansion drops it, and a tier map passes over a tier
whose value is null. Stripping a style of its nulls before it is resolved should therefore change
nothing. For expansion that is so (`Value.expandEntries_stripEntries`). For a tier map it is so
unless its shape depends on nulls, since a map is read by its keys before its nulls are dropped:

* a map of tiers only, all of them null, writes nothing, and without its nulls it is an empty
  nested object (`Entries.toleratesNulls` asks for a value);
* a map whose other keys are all null writes an empty nested object for them, which stands over an
  older value of the property, and without its nulls it writes the tiers alone. A value for the base
  tier stands over that empty object again.

Everywhere else nulls make no difference (`resolve_strip`). For compilation there are no exceptions
(`compile_strip`).
-/

namespace StyleSystem

/-!
## Styles without nulls

The value null says that a key is absent. Stripping removes every entry with that value, from an
object and from every object reached from it through objects; a list is left as it is.
-/

namespace Value

mutual

/-- A value without the null entries of the objects in it. -/
def strip : Value → Value
  | object entries => object (stripEntries entries)
  | v => v

/-- Entries without those whose value is null, at every level. -/
def stripEntries : List (String × Value) → List (String × Value)
  | [] => []
  | (k, v) :: rest => if v.isNull then stripEntries rest else (k, strip v) :: stripEntries rest

end

@[simp] theorem strip_object (es : Entries Value) :
    strip (object es) = object (stripEntries es) := by
  rw [strip]

theorem strip_of_not_isObject {v : Value} (h : v.isObject = false) : strip v = v := by
  cases v <;> simp_all [strip, isObject]

@[simp] theorem isNull_strip (v : Value) : (strip v).isNull = v.isNull := by
  cases v with
  | object es => rw [strip_object]; rfl
  | null | bool _ | number _ | string _ | array _ => rw [strip_of_not_isObject rfl]

@[simp] theorem isObject_strip (v : Value) : (strip v).isObject = v.isObject := by
  cases v with
  | object es => rw [strip_object]; rfl
  | null | bool _ | number _ | string _ | array _ => rw [strip_of_not_isObject rfl]

/-- Stripping entries drops the nulls and strips the other values. -/
theorem stripEntries_eq (es : Entries Value) :
    stripEntries es = (es.filter fun p => !p.2.isNull).map fun p => (p.1, strip p.2) := by
  induction es with
  | nil => rw [stripEntries]; rfl
  | cons p es ih =>
    obtain ⟨k, v⟩ := p
    rw [stripEntries, ih, List.filter_cons]
    cases v.isNull <;> rfl

/-! ### Distinct keys -/

theorem nodup_stripEntries {es : Entries Value} (h : (Entries.keys es).Nodup) :
    (Entries.keys (stripEntries es)).Nodup := by
  rw [stripEntries_eq, Entries.keys_map_values]
  exact (List.filter_sublist.map Prod.fst).nodup h

mutual

theorem distinct_strip : (v : Value) → Distinct v → Distinct (strip v)
  | .object es, h => by
    rw [strip_object, distinct_object]
    exact distinctEntries_stripEntries es (distinct_object.1 h)
  | .null, _ => by rw [strip_of_not_isObject rfl]; exact .null
  | .bool b, _ => by rw [strip_of_not_isObject rfl]; exact .bool b
  | .number n, _ => by rw [strip_of_not_isObject rfl]; exact .number n
  | .string s, _ => by rw [strip_of_not_isObject rfl]; exact .string s
  | .array vs, h => by rw [strip_of_not_isObject rfl]; exact h

theorem distinctEntries_stripEntries : (es : List (String × Value)) → DistinctEntries es →
    DistinctEntries (stripEntries es)
  | [], h => by rw [stripEntries]; exact h
  | (k, v) :: rest, h => by
    refine ⟨nodup_stripEntries h.1, ?_⟩
    have hrest : DistinctEntries rest :=
      ⟨(List.nodup_cons.1 h.1).2, fun p hp => h.2 p (List.mem_cons_of_mem _ hp)⟩
    rw [stripEntries]
    split
    · exact (distinctEntries_stripEntries rest hrest).2
    · rw [List.forall_mem_cons]
      exact ⟨distinct_strip v (h.2 _ List.mem_cons_self),
        (distinctEntries_stripEntries rest hrest).2⟩

end

end Value

/-- **A style without nulls,** at any level. -/
def Style.strip (s : Style) : Style :=
  ⟨Value.stripEntries s.entries, Value.distinctEntries_stripEntries _ s.distinct⟩

/-! ## Resolution and nulls -/

open Entries

/-- Whether a map under a property reads the same without its nulls. A map of tiers has a value for
one of them. Of the other keys in a map, if there are any, one has a value, or else it does not
matter: no tier has a value either, or the base tier has one and stands over what they write. -/
def Entries.toleratesNulls (inner : Entries Value) : Bool :=
  if nonTiers inner = [] then presentTiers inner ≠ [] || inner = []
  else (nonTiers inner).any (fun p => !p.2.isNull) || presentTiers inner = [] ||
    Tier.base.name ∈ keys (presentTiers inner)

/-- An entry whose value reads the same without its nulls. The block of a tier always does. -/
def NullTolerant (key : String) (v : Value) : Prop :=
  ∀ inner, v = .object inner → Tier.isName key = false → toleratesNulls inner = true

instance (key : String) (v : Value) : Decidable (NullTolerant key v) :=
  match v with
  | .object inner => decidable_of_iff (Tier.isName key = false → toleratesNulls inner = true)
      ⟨fun h _ hv => by cases hv; exact h, fun h => h inner rfl⟩
  | .null | .bool _ | .number _ | .string _ | .array _ => isTrue nofun

/-! ### Expansion -/

namespace Declaration

variable {f : Value → Value}

/-- A declaration of another value. -/
def mapValue (f : Value → Value) (d : Declaration) : Declaration := { d with value := f d.value }

theorem onto_mapValue (d : Declaration) (old : Option (Specificity × Value)) :
    (d.mapValue f).onto (old.map fun q => (q.1, f q.2)) =
      ((d.onto old).1, f (d.onto old).2) := by
  obtain ⟨target, specificity, v⟩ := d
  cases old with
  | none => rfl
  | some q =>
    obtain ⟨older, w⟩ := q
    by_cases h : specificity < older
    · have hold : onto ⟨target, specificity, v⟩ (some (older, w)) = (older, w) := if_pos h
      rw [hold]
      exact if_pos h
    · have hnew : onto ⟨target, specificity, v⟩ (some (older, w)) = (specificity, v) := if_neg h
      rw [hnew]
      exact if_neg h

/-- A run of declarations with changed values writes the changed values. -/
theorem run_map_mapValue (ds : List Declaration) :
    run (ds.map (mapValue f)) = (run ds).map fun p => (p.1, (p.2.1, f p.2.2)) := by
  suffices ∀ acc : Entries (Specificity × Value),
      (ds.map (mapValue f)).foldl (fun acc d => update d.target d.onto acc)
        (acc.map fun p => (p.1, (p.2.1, f p.2.2))) =
      (ds.foldl (fun acc d => update d.target d.onto acc) acc).map
        fun p => (p.1, (p.2.1, f p.2.2)) from this []
  induction ds with
  | nil => exact fun acc => rfl
  | cons d ds ih =>
    intro acc
    have hstep : update (d.mapValue f).target (d.mapValue f).onto
          (acc.map fun p => (p.1, (p.2.1, f p.2.2))) =
        (update d.target d.onto acc).map fun p => (p.1, (p.2.1, f p.2.2)) :=
      update_map_values (onto_mapValue d) d.target acc
    rw [List.map_cons, List.foldl_cons, List.foldl_cons, hstep, ih]

theorem ofEntry_strip (key : String) (v : Value) :
    ofEntry key v.strip = (ofEntry key v).map (mapValue Value.strip) := by
  unfold ofEntry
  rw [Value.isNull_strip]
  split
  · rfl
  · rw [List.map_map]; rfl

theorem ofEntries_stripEntries (es : Entries Value) :
    ofEntries (Value.stripEntries es) = (ofEntries es).map (mapValue Value.strip) := by
  induction es with
  | nil => rw [Value.stripEntries]; rfl
  | cons p es ih =>
    obtain ⟨k, v⟩ := p
    have hcons : ofEntries ((k, v) :: es) = ofEntry k v ++ ofEntries es := rfl
    rw [Value.stripEntries, hcons, List.map_append, ← ih]
    split
    · -- a null declares nothing
      next hn => rw [ofEntry, if_pos hn]; rfl
    · rw [← ofEntry_strip]; rfl

end Declaration

namespace Value

/-- **Expansion sees no nulls:** stripped entries expand into the stripped expansion. -/
theorem expandEntries_stripEntries (es : Entries Value) :
    expandEntries (stripEntries es) = (expandEntries es).map fun p => (p.1, strip p.2) := by
  rw [expandEntries, Declaration.ofEntries_stripEntries, Declaration.run_map_mapValue,
    expandEntries, List.map_map, List.map_map]
  rfl

/-! ### Parts of a stripped map -/

theorem keys_stripEntries (es : Entries Value) :
    keys (stripEntries es) = keys (es.filter fun p => !p.2.isNull) := by
  rw [stripEntries_eq, keys_map_values]

theorem nonTiers_stripEntries (es : Entries Value) :
    nonTiers (stripEntries es) = stripEntries (nonTiers es) := by
  rw [stripEntries_eq, stripEntries_eq, nonTiers, nonTiers, List.filter_map, List.filter_filter,
    List.filter_filter]
  simp only [Function.comp_def, Bool.and_comm]

theorem hasTier_stripEntries (es : Entries Value) :
    hasTier (stripEntries es) = true ↔ presentTiers es ≠ [] := by
  rw [hasTier_eq_true_iff, keys_stripEntries]
  constructor
  · rintro ⟨k, hk, hname⟩ hnil
    obtain ⟨v, hv⟩ := exists_mem_of_mem_keys hk
    obtain ⟨hmem, hn⟩ := List.mem_filter.1 hv
    have hpresent : (k, v) ∈ presentTiers es :=
      List.mem_filter.2 ⟨List.mem_filter.2 ⟨hmem, hname⟩, hn⟩
    rw [hnil] at hpresent
    cases hpresent
  · intro hne
    obtain ⟨⟨k, v⟩, hp⟩ := List.exists_mem_of_ne_nil _ hne
    refine ⟨k, ?_, isName_of_mem_presentTiers hp⟩
    exact mem_keys_of_mem (List.mem_filter.2
      ⟨mem_of_mem_presentTiers hp, by rw [isNull_of_mem_presentTiers hp]; rfl⟩)

theorem stripEntries_eq_nil_iff {es : Entries Value} :
    stripEntries es = [] ↔ ∀ p ∈ es, p.2.isNull = true := by
  rw [stripEntries_eq, List.map_eq_nil_iff, List.filter_eq_nil_iff]
  simp

/-- A map without values for its tiers is, without its nulls, what its other keys are. -/
theorem stripEntries_of_presentTiers_eq_nil {es : Entries Value} (h : presentTiers es = []) :
    stripEntries es = stripEntries (nonTiers es) := by
  rw [← nonTiers_stripEntries, nonTiers_of_not_hasTier]
  rw [← Bool.not_eq_true, hasTier_stripEntries]
  exact not_not_intro h

theorem find?_stripEntries {es : Entries Value} (hes : (keys es).Nodup) (k : String) :
    find? k (stripEntries es) = (present? k es).map strip := by
  induction es with
  | nil => rw [stripEntries]; rfl
  | cons p es ih =>
    obtain ⟨l, v⟩ := p
    rw [keys_cons, List.nodup_cons] at hes
    rw [stripEntries, present?, find?]
    by_cases hl : l = k
    · -- the only entry with the key
      subst hl
      have hnone : find? l (stripEntries es) = none := by
        rw [ih hes.2, present?, find?_eq_none hes.1]
        rfl
      cases hn : v.isNull <;> simp [hn, hnone, find?, Option.filter]
    · rw [if_neg hl, ← present?, ← ih hes.2]
      split
      · rfl
      · rw [find?, if_neg hl]

/-! ### The writes of a stripped value -/

variable {θ : Theme} {key : String}

theorem normalizeTier_strip {v : Value}
    (ih : ∀ inner, v = object inner →
      normalizeEntries θ (stripEntries inner) = normalizeEntries θ inner) :
    normalizeTier θ key (strip v) = normalizeTier θ key v := by
  cases hobj : v.isObject with
  | true =>
    obtain ⟨nested, rfl⟩ := exists_entries_of_isObject hobj
    rw [strip_object, normalizeTier_object, normalizeTier_object, ih nested rfl]
  | false => rw [strip_of_not_isObject hobj]

/-- A tier writes the same without the nulls of its map. -/
theorem tierWrites_stripEntries {inner : Entries Value} (hinner : (keys inner).Nodup) (tier : Tier)
    (ih : ∀ nested, (tier.name, object nested) ∈ inner →
      normalizeEntries θ (stripEntries nested) = normalizeEntries θ nested) :
    tierWrites θ key (stripEntries inner) tier = tierWrites θ key inner tier := by
  have hfind := find?_stripEntries hinner tier.name
  -- a tier with a null and a tier that is not there write the same, which is nothing
  cases hv : present? tier.name inner with
  | none =>
    have hnone : find? tier.name (stripEntries inner) = none := by rw [hfind, hv]; rfl
    have hnone' : present? tier.name (stripEntries inner) = none := by rw [present?, hnone]; rfl
    rw [tierWrites_of_present?_eq_none hv, tierWrites_of_present?_eq_none hnone']
  | some v =>
    rw [hv, Option.map_some] at hfind
    have htier : normalizeTier θ key (strip v) = normalizeTier θ key v := by
      refine normalizeTier_strip ?_
      rintro nested rfl
      exact ih nested (mem_of_find? (find?_of_present? hv))
    have hn : (strip v).isNull = false := by rw [isNull_strip, isNull_of_present? hv]
    rw [tierWrites_of_find? hfind hn, tierWrites_of_present? hv, htier]

/-- No tier with a value, no writes. -/
theorem tierWrites_of_presentTiers_eq_nil {inner : Entries Value} (h : presentTiers inner = [])
    (tier : Tier) : tierWrites θ key inner tier = [] := by
  refine tierWrites_of_present?_eq_none (Option.filter_eq_none_iff.2 ?_)
  intro v hv hn
  have hpresent : (tier.name, v) ∈ presentTiers inner :=
    List.mem_filter.2 ⟨List.mem_filter.2 ⟨mem_of_find? hv, Tier.isName_name tier⟩, hn⟩
  rw [h] at hpresent
  cases hpresent

/-- An empty object counts for nothing once something else is written over it. -/
theorem onto_onto_nil {w : Value} (hw : w.Distinct) (old : Option Value) :
    onto w (some (onto (object []) old)) = onto w old := by
  have halone : onto w (some (object [])) = w := by
    cases w with
    | object es => rw [onto_object_object, mergeEntries_nil_left (distinct_object.1 hw).1]
    | null | bool _ | number _ | string _ | array _ => rw [onto]; nofun
  cases old with
  | none => rw [onto_none, onto_none, halone]
  | some o =>
    cases hobj : o.isObject with
    | true =>
      obtain ⟨fs, rfl⟩ := exists_entries_of_isObject hobj
      rw [onto_object_object, mergeEntries_nil]
    | false => rw [onto_of_not_isObject _ hobj, onto_of_not_isObject _ hobj, halone]

theorem mergeEntries_nil_cons {w : Value} (hw : w.Distinct) (target rest : Entries Value) :
    mergeEntries target ((key, object []) :: (key, w) :: rest) =
      mergeEntries target ((key, w) :: rest) := by
  have honto : (fun old => onto w (some (onto (object []) old))) = onto w :=
    funext (onto_onto_nil hw)
  rw [mergeEntries_cons, mergeEntries_cons, update_update, honto, mergeEntries_cons]

/-- The base tier of a map writes first, and the property itself. -/
theorem flatMap_tierWrites_of_base (θ : Theme) (key : String) {inner : Entries Value}
    (hinner : DistinctEntries inner) (h : Tier.base.name ∈ keys (presentTiers inner)) :
    ∃ (w : Value) (rest : Entries Value), w.Distinct ∧
      Tier.all.flatMap (tierWrites θ key inner) = (key, w) :: rest := by
  obtain ⟨v, hv⟩ := exists_mem_of_mem_keys h
  have hfound : find? Tier.base.name inner = some v :=
    (find?_eq_some_iff hinner.1).2 (mem_of_mem_presentTiers hv)
  refine ⟨normalizeTier θ key v, [Tier.sm, .md, .lg, .xl].flatMap (tierWrites θ key inner),
    distinct_normalizeTier θ key v (hinner.2 _ (mem_of_find? hfound)), ?_⟩
  have hall : Tier.all = Tier.base :: [Tier.sm, .md, .lg, .xl] := rfl
  rw [hall, List.flatMap_cons, tierWrites_of_find? hfound (isNull_of_mem_presentTiers hv)]
  rfl

/-- **One tier map.** It writes the same without its nulls, if it tolerates them and that holds of
the objects inside it. -/
theorem mergeEntries_writes_tierMap (hkey : Tier.isName key = false) {inner : Entries Value}
    (ht : hasTier inner = true) (hinner : DistinctEntries inner)
    (htol : toleratesNulls inner = true)
    (htiers : ∀ tier, tierWrites θ key (stripEntries inner) tier = tierWrites θ key inner tier)
    (hrest : normalizeEntries θ (stripEntries (nonTiers inner)) =
      normalizeEntries θ (nonTiers inner))
    (target : Entries Value) :
    mergeEntries target (writes θ key (object (stripEntries inner))) =
      mergeEntries target (writes θ key (object inner)) := by
  have hkey' := Tier.ofName?_eq_none_iff.2 hkey
  rw [writes_of_hasTier hkey' ht, selectorWrites]
  by_cases hpresent : presentTiers inner = []
  · -- no tier has a value, and what is left is a nested selector
    have ht' : hasTier (stripEntries inner) = false := by
      rw [← Bool.not_eq_true, hasTier_stripEntries]
      exact not_not_intro hpresent
    have hne : nonTiers inner ≠ [] := by
      intro hnil
      rw [toleratesNulls, if_pos hnil, hpresent] at htol
      have hinner : inner = [] := by simpa using htol
      rw [hinner] at ht
      cases ht
    have hnone : Tier.all.flatMap (tierWrites θ key inner) = [] :=
      List.flatMap_eq_nil_iff.2 fun tier _ => tierWrites_of_presentTiers_eq_nil hpresent tier
    rw [writes_of_not_hasTier hkey' ht', stripEntries_of_presentTiers_eq_nil hpresent, hrest,
      if_neg hne, hnone, List.append_nil]
  · have ht' : hasTier (stripEntries inner) = true := (hasTier_stripEntries inner).2 hpresent
    rw [writes_of_hasTier hkey' ht', selectorWrites, nonTiers_stripEntries, hrest,
      List.flatMap_congr fun tier _ => htiers tier]
    by_cases hnil : nonTiers inner = []
    · -- nothing but tiers
      rw [hnil, if_pos rfl, if_pos (by rw [stripEntries])]
    · by_cases hempty : stripEntries (nonTiers inner) = []
      · -- only the tiers are left, and the base tier stands over the empty object
        have hbase : Tier.base.name ∈ keys (presentTiers inner) := by
          rw [toleratesNulls, if_neg hnil] at htol
          have hnull : (nonTiers inner).any (fun p => !p.2.isNull) = false := by
            rw [List.any_eq_false]
            intro p hp
            rw [stripEntries_eq_nil_iff.1 hempty p hp]
            exact Bool.false_ne_true
          rw [hnull] at htol
          simpa [hpresent] using htol
        obtain ⟨w, rest, hw, hbase⟩ := flatMap_tierWrites_of_base θ key hinner hbase
        have hnorm : normalizeEntries θ (nonTiers inner) = [] := by
          rw [← hrest, hempty, normalizeEntries_eq]
          rfl
        rw [if_pos hempty, if_neg hnil, hnorm, hbase]
        exact (mergeEntries_nil_cons hw target rest).symm
      · rw [if_neg hempty, if_neg hnil]

/-- **One entry.** It writes the same without its nulls, if the parts of its value normalize to the
same. -/
theorem mergeEntries_writes_strip {v : Value} (hv : Throughout NullTolerant key v)
    (hd : v.Distinct)
    (ih : ∀ part, IsPart v part →
      normalizeEntries θ (stripEntries part) = normalizeEntries θ part)
    (target : Entries Value) :
    mergeEntries target (writes θ key (strip v)) = mergeEntries target (writes θ key v) := by
  cases hobj : v.isObject with
  | false => rw [strip_of_not_isObject hobj]
  | true =>
    obtain ⟨inner, rfl⟩ := exists_entries_of_isObject hobj
    have hdinner : DistinctEntries inner := distinct_object.1 hd
    have hnested := ih inner (.whole inner)
    rw [strip_object]
    cases hkey : Tier.ofName? key with
    | some tier => rw [writes_tier hkey, writes_tier hkey, hnested]
    | none =>
      cases ht : hasTier inner with
      | false =>
        have ht' : hasTier (stripEntries inner) = false := by
          rw [← Bool.not_eq_true, hasTier_stripEntries, presentTiers, tiers_of_not_hasTier ht]
          exact not_not_intro rfl
        rw [writes_of_not_hasTier hkey ht', writes_of_not_hasTier hkey ht, hnested]
      | true =>
        have hname : Tier.isName key = false := Tier.ofName?_eq_none_iff.1 hkey
        have htiers : ∀ tier : Tier,
            tierWrites θ key (stripEntries inner) tier = tierWrites θ key inner tier := by
          intro tier
          apply tierWrites_stripEntries hdinner.1 tier
          intro nested hmem
          exact ih nested (.tier hmem)
        -- here alone the shape of the value may change with its nulls
        exact mergeEntries_writes_tierMap hname ht hdinner (hv.1 inner rfl hname) htiers
          (ih _ (.selector inner)) target

theorem mergeEntries_flatMap_congr {α : Type} {l : List α} {f g : α → Entries Value}
    (h : ∀ a ∈ l, ∀ target, mergeEntries target (f a) = mergeEntries target (g a))
    (target : Entries Value) :
    mergeEntries target (l.flatMap f) = mergeEntries target (l.flatMap g) := by
  induction l generalizing target with
  | nil => rfl
  | cons a l ih =>
    rw [List.flatMap_cons, List.flatMap_cons, mergeEntries_append, mergeEntries_append,
      h a List.mem_cons_self, ih fun b hb => h b (List.mem_cons_of_mem _ hb)]

theorem normalizeEntries_stripEntries (es : Entries Value) (hd : DistinctEntries es)
    (hes : EveryEntry NullTolerant es) :
    normalizeEntries θ (stripEntries es) = normalizeEntries θ es := by
  induction es using partInduction with
  | step es ih =>
    rw [normalizeEntries_eq, expandEntries_stripEntries, List.flatMap_map, normalizeEntries_eq]
    refine mergeEntries_flatMap_congr ?_ []
    intro p hp
    have hthroughout : Throughout NullTolerant p.1 p.2 := by
      refine ⟨?_, ?_⟩
      · -- the entry stood under a key that is no tier either
        intro inner hinner hname
        obtain ⟨key, hkey, htarget, -⟩ := mem_expandEntries hp
        rw [Shorthand.isName_of_mem_targets htarget] at hname
        exact hes.holds hkey inner hinner hname
      · intro inner hinner
        have hmem : (p.1, object inner) ∈ expandEntries es := hinner ▸ hp
        exact hes.inside_expandEntries hmem
    have hdistinct : p.2.Distinct := (distinctEntries_expandEntries hd.2).2 p hp
    apply mergeEntries_writes_strip hthroughout hdistinct
    intro part hpart
    exact ih p hp part hpart (hdistinct.part hpart) (hes.part_of_mem_expandEntries hp hpart)

end Value

/-- **Null means absent.** A style resolves to what it resolves to without its nulls, key order
included, if every map under a property in it reads the same without its nulls. -/
theorem resolve_strip {F : Type} (call : Calls F) (θ : Theme) (s : Style)
    (hs : Value.EveryEntry NullTolerant s.entries) :
    (SpecOver.object s.strip).resolve call θ = (SpecOver.object s).resolve call θ := by
  have hnormal : s.strip.normalize θ = s.normalize θ :=
    Style.ext (Value.normalizeEntries_stripEntries s.entries s.distinct hs)
  rw [SpecOver.resolve_object, SpecOver.resolve_object, hnormal]

/-- Nulls under a tier of a map, beside a key of a nested selector, as all there is beside the tiers
of a map with a base tier, and in the block of a tier. -/
def sparse : Style :=
  .ofEntries [
    ("px", .object [("xs", .number (.int 1)), ("md", .null), ("&:hover", .null)]),
    ("width", .object [("lg", .number (.int 2)), ("&:focus", .object [("bg", .null)]),
      ("&:active", .null)]),
    ("sm", .object [("p", .null), ("md", .null), ("height", .object [("xl", .string "1em")])])]

theorem resolve_strip_sparse :
    Value.EveryEntry NullTolerant sparse.entries ∧
      (SpecOver.object sparse.strip).resolve ThemeFunction.call .default =
        (SpecOver.object sparse).resolve ThemeFunction.call .default := by
  have hsparse : Value.EveryEntry NullTolerant sparse.entries := by decide +kernel
  exact ⟨hsparse, resolve_strip _ .default sparse hsparse⟩

/-- A null as the only key beside the tiers of a map. -/
def nullSelector : Style :=
  .ofEntries [("width", .object [("md", .number (.int 400)), ("&:hover", .null)])]

/-- **Null is not always absent.** This one leaves an empty nested object behind. -/
theorem resolve_strip_ne :
    (SpecOver.object nullSelector.strip).resolve ThemeFunction.call .default ≠
      (SpecOver.object nullSelector).resolve ThemeFunction.call .default := by
  decide +kernel

/-!
## Compilation and nulls

For compilation an entry with the value null is an absent entry, without the exceptions that
resolution has, and no level of a compiled style has a null (`compile_strip`).

A map drops its null tiers only after it was found to be a tier map. A map whose tiers are all null
is compiled as one, then, and without its nulls as a nested object. Both are the same, since the
shape of a compiled object (`Value.compileAt_object`) does not ask which of the two it was. So it is
enough that stripping commutes with each of the two parts of that shape, the tiers with a value
(`Value.presentTiers_stripEntries`) and the other keys (`Value.nonTiers_stripEntries`). The
induction is the one over parts: compilation goes on with the same objects as normalization does.
-/

namespace Value

open Entries

variable {θ : Theme} {property : String}

/-- The object of a tier with a value is a part of the map. -/
theorem isPart_of_mem_presentTiers {inner nested : Entries Value} {p : String × Value}
    (hp : p ∈ presentTiers inner) (hnested : p.2 = object nested) :
    IsPart (object inner) nested := by
  obtain ⟨tier, htier⟩ := Tier.exists_name_eq (isName_of_mem_presentTiers hp)
  have hmem : (tier.name, object nested) ∈ inner := by
    rw [htier, ← hnested]
    exact mem_of_mem_presentTiers hp
  exact .tier hmem

/-! ### Compiling a stripped object -/

/-- The tiers with a value stay, each without the nulls inside its value. -/
theorem presentTiers_stripEntries (es : Entries Value) :
    presentTiers (stripEntries es) = (presentTiers es).map fun p => (p.1, strip p.2) := by
  have hfilter : ∀ p : String × Value,
      (!(strip p.2).isNull && (Tier.isName p.1 && !p.2.isNull)) =
        (!p.2.isNull && Tier.isName p.1) := by
    intro p
    rw [isNull_strip]
    cases p.2.isNull <;> cases Tier.isName p.1 <;> rfl
  unfold presentTiers tiers
  -- both sides filter by the name and by the value, the left one by the value twice
  rw [stripEntries_eq, List.filter_map, List.filter_filter, List.filter_map, List.filter_filter,
    List.filter_filter]
  exact congrArg (List.map _) (List.filter_congr fun p _ => hfilter p)

theorem compileTier_strip {v : Value}
    (ih : ∀ nested, v = object nested →
      compileEntries θ (stripEntries nested) = compileEntries θ nested) :
    compileTier θ property (strip v) = compileTier θ property v := by
  cases hobj : v.isObject with
  | true =>
    obtain ⟨nested, rfl⟩ := exists_entries_of_isObject hobj
    rw [strip_object, compileTier_object, compileTier_object, ih nested rfl]
  | false => rw [strip_of_not_isObject hobj]

theorem compiledTiers_stripEntries {inner : Entries Value}
    (ih : ∀ part, IsPart (object inner) part →
      compileEntries θ (stripEntries part) = compileEntries θ part) :
    compiledTiers θ property (stripEntries inner) = compiledTiers θ property inner := by
  unfold compiledTiers
  rw [presentTiers_stripEntries, List.map_map]
  apply List.map_congr_left
  intro p hp
  have htier : compileTier θ property (strip p.2) = compileTier θ property p.2 := by
    apply compileTier_strip
    intro nested hnested
    exact ih nested (isPart_of_mem_presentTiers hp hnested)
  exact congrArg (Prod.mk p.1) htier

/-- **One value.** It compiles to the same without its nulls, if that holds of its parts. -/
theorem compileAt_strip {v : Value}
    (ih : ∀ part, IsPart v part → compileEntries θ (stripEntries part) = compileEntries θ part) :
    compileAt θ property (strip v) = compileAt θ property v := by
  cases hobj : v.isObject with
  | true =>
    obtain ⟨inner, rfl⟩ := exists_entries_of_isObject hobj
    have hrest : compileEntries θ (nonTiers (stripEntries inner)) =
        compileEntries θ (nonTiers inner) := by
      rw [nonTiers_stripEntries]
      exact ih _ (.selector inner)
    rw [strip_object, compileAt_object, compileAt_object, compiledTiers_stripEntries ih, hrest]
  | false => rw [strip_of_not_isObject hobj]

theorem compileEntries_stripEntries (es : Entries Value) :
    compileEntries θ (stripEntries es) = compileEntries θ es := by
  induction es using partInduction with
  | step es ih =>
    calc compileEntries θ (stripEntries es)
        = (expandEntries es).map fun p => (p.1, compileAt θ p.1 (strip p.2)) := by
          rw [compileEntries_eq, expandEntries_stripEntries, List.map_map]
          rfl
      _ = (expandEntries es).map fun p => (p.1, compileAt θ p.1 p.2) := by
          apply List.map_congr_left
          intro p hp
          exact congrArg (Prod.mk p.1) (compileAt_strip (ih p hp))
      _ = compileEntries θ es := by rw [compileEntries_eq]

/-! ### What holds throughout a compiled value -/

variable {P : String → Value → Prop} {key : String} {v : Value}

theorem throughout_compileTier (h : P key (compileTier θ property v))
    (ih : ∀ nested, v = object nested → EveryEntry P (compileEntries θ nested)) :
    Throughout P key (compileTier θ property v) := by
  cases hobj : v.isObject with
  | true =>
    obtain ⟨nested, rfl⟩ := exists_entries_of_isObject hobj
    rw [compileTier_object] at h ⊢
    exact throughout_object_iff.2 ⟨h, ih nested rfl⟩
  | false =>
    have hplain : (compileTier θ property v).isObject = false := by
      rw [compileTier_of_not_isObject hobj, isObject_transform, hobj]
    exact throughout_of_not_isObject hplain h

/-- **One value.** A property holds throughout the compiled value if it holds of the value, of the
compiled tiers in it, and at every level of its parts once they are compiled. -/
theorem throughout_compileAt (h : P key (compileAt θ property v))
    (htiers : ∀ inner, v = object inner → ∀ p ∈ compiledTiers θ property inner, P p.1 p.2)
    (ih : ∀ part, IsPart v part → EveryEntry P (compileEntries θ part)) :
    Throughout P key (compileAt θ property v) := by
  cases hobj : v.isObject with
  | true =>
    obtain ⟨inner, rfl⟩ := exists_entries_of_isObject hobj
    rw [compileAt_object] at h ⊢
    refine throughout_object_iff.2 ⟨h, everyEntry_iff.2 ?_⟩
    intro q hq
    rcases List.mem_append.1 hq with hq | hq
    · -- one of the tiers
      have hholds : P q.1 q.2 := htiers inner rfl q hq
      obtain ⟨p, hp, rfl⟩ := List.mem_map.1 hq
      apply throughout_compileTier hholds
      intro nested hnested
      exact ih nested (isPart_of_mem_presentTiers hp hnested)
    · exact (ih _ (.selector inner)).throughout hq
  | false =>
    have hplain : (compileAt θ property v).isObject = false := by
      rw [compileAt_of_not_isObject hobj, isObject_transform, hobj]
    exact throughout_of_not_isObject hplain h

/-- No level of a compiled object has a null. -/
theorem isNull_compileEntries (es : Entries Value) :
    EveryEntry (fun _ v => v.isNull = false) (compileEntries θ es) := by
  induction es using partInduction with
  | step es ih =>
    rw [everyEntry_iff, compileEntries_eq]
    intro q hq
    obtain ⟨p, hp, rfl⟩ := List.mem_map.1 hq
    refine throughout_compileAt ?_ ?_ (ih p hp)
    · -- expansion leaves no null, and none arises from another value
      rw [isNull_compileAt]
      exact isNull_of_mem_expandEntries hp
    · intro inner _ tier htier
      exact isNull_of_mem_compiledTiers θ p.1 htier

end Value

/-- **For compilation null is absent.** A style compiles to what it compiles to without its nulls,
key order included, and the compiled style has no null at any level. -/
theorem compile_strip (θ : Theme) (s : Style) :
    s.strip.compile θ = s.compile θ ∧
      Value.EveryEntry (fun _ v => v.isNull = false) (s.compile θ).entries := by
  constructor
  · ext1
    exact Value.compileEntries_stripEntries s.entries
  · exact Value.isNull_compileEntries s.entries

end StyleSystem
