import Mathlib.Data.List.Forall2
import StyleSystem.Proofs.Leaves
import StyleSystem.Proofs.Parts
import StyleSystem.Style.Normal
import StyleSystem.Style.Path

/-!
# The order of tiers in a tier map

Normalization asks a tier map for each tier by its name, the smallest tier first, and takes the other
keys of the map in their order. So it does not matter where the tiers of a map stand: rearranged
styles resolve to the same style, key order included (`resolve_rearranged`).

Expansion goes first, and it does depend on the order of entries. But the entries that it meets are
in the same order on both sides. They have the same keys, and only the values may be rearranged, which
expansion does not look into (`Value.forall₂_expandEntries`). This is kept on the way down, since
normalization goes on with a block, whose order is fixed, or with a map from which the tiers were
taken out.
-/

namespace StyleSystem

/-!
## Rearranged tiers

An object under a key that is no tier may be a tier map. Its tiers stand for themselves, wherever
they stand, while the order of its other keys is that of a nested selector. In a style itself and in
the block of a tier, all keys are in an order that counts. A list is a plain value, and nothing in it
is a tier map.

Two styles are rearranged if they are the same mapping and differ in nothing but the places of tiers
in objects under other keys (`Style.Rearranged`), at any depth. As with mappings, this is said of all
paths and decided by those that lead to a value, and objects are compared key by key
(`Value.rearranged_object_iff`).
-/

open Entries

namespace Value

/-- Whether tiers may stand anywhere in the object at the end of a path: they may under a key that is
no tier. Of the object at the end of the empty path it must be given. -/
def tiersFree (free : Bool) (path : List String) : Bool :=
  path.foldl (fun _ key => !Tier.isName key) free

/-- The keys of an object in the order that counts, without the tiers if they may stand anywhere. -/
def fixedKeys (free : Bool) : Value → List String
  | object es => keys (if free then nonTiers es else es)
  | _ => []

/-- **Rearranged values.** They are the same mapping, and at every level the keys whose order counts
stand in the same order. -/
def Rearranged (free : Bool) (v w : Value) : Prop :=
  SameMapping v w ∧ ∀ path,
    (v.lookup? path).map (fixedKeys (tiersFree free path)) =
      (w.lookup? path).map (fixedKeys (tiersFree free path))

instance (free : Bool) (v w : Value) : Decidable (Rearranged free v w) :=
  have := decidable_of_iff _
    (forall_map_lookup?_eq_iff (v := v) (w := w) fun path => fixedKeys (tiersFree free path)).symm
  inferInstanceAs (Decidable (_ ∧ _))

theorem tiersFree_cons (free : Bool) (key : String) (path : List String) :
    tiersFree free (key :: path) = tiersFree (!Tier.isName key) path := rfl

theorem Rearranged.fixedKeys_eq {free : Bool} {v w : Value} (h : Rearranged free v w) :
    v.fixedKeys free = w.fixedKeys free := by
  have hroot := h.2 []
  rwa [lookup?_nil, lookup?_nil, Option.map_some, Option.map_some, Option.some_inj] at hroot

/-- **Objects are compared key by key,** apart from the order of their keys. -/
theorem rearranged_object_iff {free : Bool} {es fs : Entries Value} :
    Rearranged free (object es) (object fs) ↔
      (object es).fixedKeys free = (object fs).fixedKeys free ∧
        ∀ k, Option.Rel (Rearranged (!Tier.isName k)) (find? k es) (find? k fs) := by
  constructor
  · intro h
    refine ⟨h.fixedKeys_eq, ?_⟩
    intro k
    refine rel_imp (h.1.find? k) fun v w hv hw hvw => ⟨hvw, fun path => ?_⟩
    -- a path below the value is a path below the object, with the key in front
    have hpath := h.2 (k :: path)
    rwa [lookup?_cons_object, lookup?_cons_object, hv, hw, Option.bind_some, Option.bind_some,
      tiersFree_cons] at hpath
  · rintro ⟨hkeys, hvalues⟩
    refine ⟨sameMapping_object_iff.2 fun k => ?_, ?_⟩
    · exact rel_imp (hvalues k) fun _ _ _ _ hvw => hvw.1
    · intro path
      cases path with
      | nil => exact congrArg some hkeys
      | cons k path =>
        rw [lookup?_cons_object, lookup?_cons_object, tiersFree_cons]
        rcases rel_cases (hvalues k) with ⟨hv, hw⟩ | ⟨v, w, hv, hw, hvw⟩
        · rw [hv, hw]
        · rw [hv, hw]
          exact hvw.2 path

end Value

namespace Style

/-- **Two styles that differ only in where tiers stand** in objects under keys that are no tiers. -/
def Rearranged (s t : Style) : Prop := Value.Rearranged false s.toValue t.toValue

instance (s t : Style) : Decidable (s.Rearranged t) :=
  inferInstanceAs (Decidable (Value.Rearranged false s.toValue t.toValue))

end Style

/-! ## Their resolution -/

namespace Entries

variable {α β : Type}

/-- Two entries with the same key and related values. -/
def AtKey (R : String → α → β → Prop) (p : String × α) (q : String × β) : Prop :=
  p.1 = q.1 ∧ R p.1 p.2 q.2

variable {R : String → α → β → Prop} {es : Entries α} {fs : Entries β}

/-- Entries with the same keys in the same order are related one by one, if what stands at each key
is. -/
theorem forall₂_of_find? (hes : (keys es).Nodup) (hkeys : keys es = keys fs)
    (h : ∀ k, Option.Rel (R k) (find? k es) (find? k fs)) : List.Forall₂ (AtKey R) es fs := by
  induction es generalizing fs with
  | nil =>
    have hnil : fs = [] := List.map_eq_nil_iff.1 hkeys.symm
    rw [hnil]
    exact .nil
  | cons p es ih =>
    obtain ⟨k, v⟩ := p
    cases fs with
    | nil => cases hkeys
    | cons q fs =>
      obtain ⟨l, w⟩ := q
      rw [keys_cons, List.nodup_cons] at hes
      simp only [keys_cons, List.cons.injEq] at hkeys
      obtain ⟨rfl, hkeys⟩ := hkeys
      have hfirst := h k
      rw [find?, find?, if_pos rfl, if_pos rfl] at hfirst
      cases hfirst with
      | some hvw =>
        refine .cons ⟨rfl, hvw⟩ (ih hes.2 hkeys fun l => ?_)
        by_cases hl : k = l
        · -- the first key does not come again on either side
          subst hl
          rw [find?_eq_none hes.1, find?_eq_none (hkeys ▸ hes.1)]
          exact .none
        · have hrest := h l
          rwa [find?, find?, if_neg hl, if_neg hl] at hrest

theorem forall₂_update (h : List.Forall₂ (AtKey R) es fs) {k : String} {f : Option α → α}
    {g : Option β → β} (hfg : ∀ x y, Option.Rel (R k) x y → R k (f x) (g y)) :
    List.Forall₂ (AtKey R) (update k f es) (update k g fs) := by
  induction h with
  | nil => exact .cons ⟨rfl, hfg none none .none⟩ .nil
  | @cons p q es fs hpq hrest ih =>
    obtain ⟨l, v⟩ := p
    obtain ⟨l', w⟩ := q
    obtain ⟨rfl, hvw⟩ := hpq
    rw [update, update]
    by_cases hl : l = k
    · subst hl
      rw [if_pos rfl, if_pos rfl]
      exact .cons ⟨rfl, hfg (some v) (some w) (.some hvw)⟩ hrest
    · rw [if_neg hl, if_neg hl]
      exact .cons ⟨rfl, hvw⟩ ih

end Entries

/-! ### Expansion -/

section

variable {R : String → Value → Value → Prop}

namespace Declaration

/-- Two declarations of related values for the same target, equally specific. -/
def Alike (R : String → Value → Value → Prop) (d e : Declaration) : Prop :=
  d.target = e.target ∧ d.specificity = e.specificity ∧ R d.target d.value e.value

theorem forall₂_ofEntry (hnull : ∀ k v w, R k v w → v.isNull = w.isNull)
    (htargets : ∀ k v w, R k v w → ∀ t ∈ (Shorthand.ofKey k).targets, R t v w)
    {p q : String × Value} (h : AtKey R p q) :
    List.Forall₂ (Alike R) (ofEntry p.1 p.2) (ofEntry q.1 q.2) := by
  obtain ⟨k, v⟩ := p
  obtain ⟨l, w⟩ := q
  obtain ⟨rfl, hvw⟩ := h
  rw [ofEntry, ofEntry, hnull k v w hvw]
  split
  · exact .nil
  · rw [List.forall₂_map_left_iff, List.forall₂_map_right_iff, List.forall₂_same]
    intro t ht
    exact ⟨rfl, rfl, htargets k v w hvw t ht⟩

/-- Two declared values that are related, equally specific. -/
def Ranked (R : String → Value → Value → Prop) (k : String) (x y : Specificity × Value) : Prop :=
  x.1 = y.1 ∧ R k x.2 y.2

/-- Declarations that are alike let the same one of the older and the new value stand. -/
theorem Alike.onto {d e : Declaration} (h : Alike R d e) {x y : Option (Specificity × Value)}
    (hxy : Option.Rel (Ranked R d.target) x y) : Ranked R d.target (d.onto x) (e.onto y) := by
  obtain ⟨target, specificity, v⟩ := d
  obtain ⟨target', specificity', w⟩ := e
  obtain ⟨rfl, rfl, hvw⟩ := h
  rcases rel_cases hxy with ⟨rfl, rfl⟩ | ⟨⟨older, old⟩, ⟨older', old'⟩, rfl, rfl, hrank, hold⟩
  · exact ⟨rfl, hvw⟩
  · obtain rfl : older = older' := hrank
    by_cases hlt : specificity < older
    · have hstays : ∀ v old, Declaration.onto ⟨target, specificity, v⟩ (some (older, old)) =
          (older, old) := fun _ _ => if_pos hlt
      rw [hstays, hstays]
      exact ⟨rfl, hold⟩
    · have hnew : ∀ v old, Declaration.onto ⟨target, specificity, v⟩ (some (older, old)) =
          (specificity, v) := fun _ _ => if_neg hlt
      rw [hnew, hnew]
      exact ⟨rfl, hvw⟩

/-- Runs of declarations that are alike write the same targets, with related values. -/
theorem forall₂_run {ds es : List Declaration} (h : List.Forall₂ (Alike R) ds es) :
    List.Forall₂ (AtKey (Ranked R)) (run ds) (run es) := by
  refine List.rel_foldl ?_ .nil h
  intro acc acc' hacc d e hde
  have hstep : List.Forall₂ (AtKey (Ranked R)) (update d.target d.onto acc)
      (update e.target e.onto acc') := by
    rw [← hde.1]
    exact forall₂_update hacc fun _ _ => hde.onto
  exact hstep

end Declaration

/-- **Expansion does not look into values.** Entries with the same keys expand into entries with the
same keys, and values that were related still are. -/
theorem Value.forall₂_expandEntries (hnull : ∀ k v w, R k v w → v.isNull = w.isNull)
    (htargets : ∀ k v w, R k v w → ∀ t ∈ (Shorthand.ofKey k).targets, R t v w)
    {es fs : Entries Value} (h : List.Forall₂ (AtKey R) es fs) :
    List.Forall₂ (AtKey R) (expandEntries es) (expandEntries fs) := by
  have hds : List.Forall₂ (Declaration.Alike R) (Declaration.ofEntries es)
      (Declaration.ofEntries fs) :=
    List.rel_flatMap h fun _ _ hpq => Declaration.forall₂_ofEntry hnull htargets hpq
  rw [expandEntries, expandEntries, List.forall₂_map_left_iff, List.forall₂_map_right_iff]
  exact (Declaration.forall₂_run hds).imp fun _ _ hpq => ⟨hpq.1, hpq.2.2⟩

end

namespace Value

variable {θ : Theme} {key : String}

/-! ### The parts of rearranged maps -/

/-- Rearranged objects have the same keys. -/
theorem Rearranged.mem_keys_iff {free : Bool} {es fs : Entries Value}
    (h : Rearranged free (object es) (object fs)) (k : String) : k ∈ keys es ↔ k ∈ keys fs := by
  rcases rel_cases (h.1.find? k) with ⟨hv, hw⟩ | ⟨v, w, hv, hw, -⟩
  · exact iff_of_false (notMem_keys_of_find?_eq_none hv) (notMem_keys_of_find?_eq_none hw)
  · exact iff_of_true (mem_keys_of_mem (mem_of_find? hv)) (mem_keys_of_mem (mem_of_find? hw))

theorem Rearranged.hasTier_eq {free : Bool} {es fs : Entries Value}
    (h : Rearranged free (object es) (object fs)) : hasTier es = hasTier fs := by
  rw [Bool.eq_iff_iff, hasTier_eq_true_iff, hasTier_eq_true_iff]
  simp only [h.mem_keys_iff]

/-- Without their tiers, rearranged maps have all keys in the same order. -/
theorem Rearranged.nonTiers {inner inner' : Entries Value}
    (h : Rearranged true (object inner) (object inner')) :
    Rearranged false (object (nonTiers inner)) (object (nonTiers inner')) := by
  obtain ⟨hkeys, hvalues⟩ := rearranged_object_iff.1 h
  refine rearranged_object_iff.2 ⟨hkeys, fun k => ?_⟩
  rw [find?_nonTiers, find?_nonTiers]
  split
  · exact .none
  · exact hvalues k

/-- A tier has a value in both of two rearranged maps or in none of them, up to what is rearranged
inside the value. -/
theorem Rearranged.present?_name {free : Bool} {inner inner' : Entries Value}
    (h : Rearranged free (object inner) (object inner')) (tier : Tier) :
    Option.Rel (Rearranged false) (present? tier.name inner) (present? tier.name inner') := by
  have hvalue := (rearranged_object_iff.1 h).2 tier.name
  rw [Tier.isName_name, Bool.not_true] at hvalue
  exact rel_present? (fun _ _ hvw => hvw.1.isNull_eq) hvalue

/-! ### Writes -/

theorem normalizeTier_of_rearranged {v w : Value} (h : Rearranged false v w)
    (ih : ∀ nested nested', v = object nested → w = object nested' →
      normalizeEntries θ nested = normalizeEntries θ nested') :
    normalizeTier θ key v = normalizeTier θ key w := by
  cases hv : v.isObject with
  | true =>
    obtain ⟨nested, rfl⟩ := exists_entries_of_isObject hv
    obtain ⟨nested', rfl⟩ := exists_entries_of_isObject (h.1.isObject_eq ▸ hv)
    rw [normalizeTier_object, normalizeTier_object, ih nested nested' rfl rfl]
  | false => rw [h.1.eq_of_not_isObject hv]

/-- **One tier** of rearranged maps writes the same. -/
theorem tierWrites_of_rearranged {inner inner' : Entries Value}
    (h : Rearranged true (object inner) (object inner')) (tier : Tier)
    (ih : ∀ part part', IsPart (object inner) part → Rearranged false (object part) (object part') →
      normalizeEntries θ part = normalizeEntries θ part') :
    tierWrites θ key inner tier = tierWrites θ key inner' tier := by
  rcases rel_cases (h.present?_name tier) with ⟨hv, hw⟩ | ⟨v, w, hv, hw, hvw⟩
  · rw [tierWrites_of_present?_eq_none hv, tierWrites_of_present?_eq_none hw]
  · have htier : normalizeTier θ key v = normalizeTier θ key w := by
      refine normalizeTier_of_rearranged hvw ?_
      rintro nested nested' rfl rfl
      exact ih nested nested' (.tier (mem_of_find? (find?_of_present? hv))) hvw
    rw [tierWrites_of_present? hv, tierWrites_of_present? hw, htier]

theorem selectorWrites_of_rearranged {inner inner' : Entries Value}
    (h : Rearranged true (object inner) (object inner'))
    (hselector : normalizeEntries θ (nonTiers inner) = normalizeEntries θ (nonTiers inner')) :
    selectorWrites θ key inner = selectorWrites θ key inner' := by
  have hkeys : keys (nonTiers inner) = keys (nonTiers inner') := h.fixedKeys_eq
  have hnil : nonTiers inner = [] ↔ nonTiers inner' = [] := by
    calc nonTiers inner = []
        ↔ keys (nonTiers inner) = [] := List.map_eq_nil_iff.symm
      _ ↔ keys (nonTiers inner') = [] := by rw [hkeys]
      _ ↔ nonTiers inner' = [] := List.map_eq_nil_iff
  unfold selectorWrites
  simp only [hselector, hnil]

/-- **One entry** writes the same when its value is rearranged, if the parts of the value normalize
to the same. -/
theorem writes_of_rearranged {v w : Value} (h : Rearranged (!Tier.isName key) v w)
    (ih : ∀ part part', IsPart v part → Rearranged false (object part) (object part') →
      normalizeEntries θ part = normalizeEntries θ part') :
    writes θ key v = writes θ key w := by
  cases hv : v.isObject with
  | false => rw [h.1.eq_of_not_isObject hv]
  | true =>
    obtain ⟨inner, rfl⟩ := exists_entries_of_isObject hv
    obtain ⟨inner', rfl⟩ := exists_entries_of_isObject (h.1.isObject_eq ▸ hv)
    cases hkey : Tier.ofName? key with
    | some tier =>
      have hname : Tier.isName key = true := by rw [Tier.isName, hkey]; rfl
      rw [hname, Bool.not_true] at h
      rw [writes_tier hkey, writes_tier hkey, ih inner inner' (.whole inner) h]
    | none =>
      rw [Tier.ofName?_eq_none_iff.1 hkey, Bool.not_false] at h
      have hselector := ih _ _ (.selector inner) h.nonTiers
      cases ht : hasTier inner with
      | true =>
        have ht' : hasTier inner' = true := h.hasTier_eq ▸ ht
        have htiers : ∀ tier, tierWrites θ key inner tier = tierWrites θ key inner' tier :=
          fun tier => tierWrites_of_rearranged h tier ih
        calc writes θ key (object inner)
            = selectorWrites θ key inner ++ Tier.all.flatMap (tierWrites θ key inner) :=
              writes_of_hasTier hkey ht
          _ = selectorWrites θ key inner' ++ Tier.all.flatMap (tierWrites θ key inner') := by
              rw [selectorWrites_of_rearranged h hselector, List.flatMap_congr fun t _ => htiers t]
          _ = writes θ key (object inner') := (writes_of_hasTier hkey ht').symm
      | false =>
        -- a nested selector, which is all that stands in the map
        have ht' : hasTier inner' = false := h.hasTier_eq ▸ ht
        rw [nonTiers_of_not_hasTier ht, nonTiers_of_not_hasTier ht'] at hselector
        rw [writes_of_not_hasTier hkey ht, writes_of_not_hasTier hkey ht', hselector]

/-! ### Objects -/

/-- **One object.** Entries in the same order normalize to the same, if their values are
rearranged. -/
theorem normalizeEntries_of_rearranged (es fs : Entries Value) (hes : DistinctEntries es)
    (h : Rearranged false (object es) (object fs)) :
    normalizeEntries θ es = normalizeEntries θ fs := by
  induction es using partInduction generalizing fs with
  | step es ih =>
    -- the entries are in the same order before expansion, and so they are after it
    obtain ⟨hkeys, hvalues⟩ := rearranged_object_iff.1 h
    have hexpand : List.Forall₂ (AtKey fun k => Rearranged (!Tier.isName k)) (expandEntries es)
        (expandEntries fs) := by
      refine forall₂_expandEntries ?_ ?_ (forall₂_of_find? hes.1 hkeys hvalues)
      · intro k v w hvw
        exact hvw.1.isNull_eq
      · -- a shorthand is no tier, and neither are its targets
        intro k v w hvw t ht
        rwa [Shorthand.isName_of_mem_targets ht]
    -- the induction hypothesis is for entries of the expansion
    have hmem := (List.forall₂_and_left _ _).2 ⟨fun _ hp => hp, hexpand⟩
    have hwrites : List.Forall₂ Eq ((expandEntries es).flatMap fun p => writes θ p.1 p.2)
        ((expandEntries fs).flatMap fun p => writes θ p.1 p.2) := by
      refine List.rel_flatMap hmem ?_
      rintro ⟨k, v⟩ ⟨l, w⟩ ⟨hp, rfl, hvw⟩
      have hdistinct : v.Distinct := (distinctEntries_expandEntries hes.2).2 _ hp
      have hentry : writes θ k v = writes θ k w := by
        apply writes_of_rearranged hvw
        intro part part' hpart hrearranged
        exact ih (k, v) hp part hpart part' (hdistinct.part hpart) hrearranged
      exact List.forall₂_eq_eq_eq ▸ hentry
    rw [List.forall₂_eq_eq_eq] at hwrites
    calc normalizeEntries θ es
        = mergeEntries [] ((expandEntries es).flatMap fun p => writes θ p.1 p.2) :=
          normalizeEntries_eq θ es
      _ = mergeEntries [] ((expandEntries fs).flatMap fun p => writes θ p.1 p.2) := by rw [hwrites]
      _ = normalizeEntries θ fs := (normalizeEntries_eq θ fs).symm

end Value

/-- **The tiers of a map may stand in any order.** Two styles that differ only in where tiers stand in
objects under keys that are no tiers resolve to the same style, key order included. -/
theorem resolve_rearranged {F : Type} (call : Calls F) (θ : Theme) {s t : Style}
    (h : s.Rearranged t) :
    (SpecOver.object s).resolve call θ = (SpecOver.object t).resolve call θ := by
  have hnormal : s.normalize θ = t.normalize θ :=
    Style.ext (Value.normalizeEntries_of_rearranged s.entries t.entries s.distinct h)
  rw [SpecOver.resolve_object, SpecOver.resolve_object, hnormal]

/-- A map with a selector in it under a shorthand, a map in the block of a tier, and a selector whose
tiers have objects. -/
def mapStyle : Style :=
  .ofEntries [
    ("px", .object [("md", .number (.int 2)), ("&:hover", .object [("m", .number (.int 3))]),
      ("xs", .number (.int 1)), ("&:focus", .null)]),
    ("lg", .object [("width", .object [("xl", .string "50%"), ("sm", .number (.int 400))]),
      ("color", .string "primary")]),
    ("&:active", .object [("top", .object [("md", .null), ("xs", .number (.int 1))]),
      ("md", .object [("bg", .string "danger"), ("left", .object [("lg", .number (.int 1)),
        ("right", .number (.int 2)), ("sm", .number (.int 3))])]),
      ("xs", .object [("p", .number (.int 1))])])]

/-- The same with its tiers in other places. -/
def rearrangedStyle : Style :=
  .ofEntries [
    ("px", .object [("&:hover", .object [("m", .number (.int 3))]), ("&:focus", .null),
      ("xs", .number (.int 1)), ("md", .number (.int 2))]),
    ("lg", .object [("width", .object [("sm", .number (.int 400)), ("xl", .string "50%")]),
      ("color", .string "primary")]),
    ("&:active", .object [("xs", .object [("p", .number (.int 1))]),
      ("md", .object [("bg", .string "danger"), ("left", .object [("right", .number (.int 2)),
        ("sm", .number (.int 3)), ("lg", .number (.int 1))])]),
      ("top", .object [("xs", .number (.int 1)), ("md", .null)])])]

theorem resolve_rearranged_mapStyle :
    mapStyle ≠ rearrangedStyle ∧ mapStyle.Rearranged rearrangedStyle ∧
      (SpecOver.object mapStyle).resolve ThemeFunction.call .default =
        (SpecOver.object rearrangedStyle).resolve ThemeFunction.call .default := by
  have hne : mapStyle ≠ rearrangedStyle := by decide +kernel
  have h : mapStyle.Rearranged rearrangedStyle := by decide +kernel
  exact ⟨hne, h, resolve_rearranged _ .default h⟩

-- The blocks of tiers are in an order that counts.
example :
    let md := ("md", Value.object [("width", .number (.int 400))])
    let sm := ("sm", Value.object [("width", .number (.int 300))])
    (SpecOver.object (.ofEntries [md, sm])).resolve ThemeFunction.call .default ≠
      (SpecOver.object (.ofEntries [sm, md])).resolve ThemeFunction.call .default := by decide +kernel

end StyleSystem
