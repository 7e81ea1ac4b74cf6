import StyleSystem.Proofs.Expansion
import StyleSystem.Proofs.Leaves
import StyleSystem.Proofs.Parts
import StyleSystem.Property
import StyleSystem.Style.Compiled

/-!
# Compilation

A compiled object has three parts that a second compilation finds again as they are: its keys need
no expansion (`expandEntries_compileEntries`), its plain values are transformed already, and a map
is its compiled tiers followed by its other keys compiled (`compileAt_object`). Hence compilation is
idempotent (`compile_compile`).

The last form holds of every object, with or without tiers: without tiers the first part is empty
and the second one is the whole object. This is what makes the second run agree with the first where
it takes another branch. A map whose tiers are all null loses them and is no tier map any more, but
it was compiled as the nested object that it has become.

Beside resolution, compilation is a step that may be taken before (`resolve_compile`), and without
tiers it is all that resolution does (`resolve_eq_compile`).
-/

namespace StyleSystem

/-! ## Compiled objects -/

namespace Value

open Entries

variable (θ : Theme) (property : String)

/-! ### The shape of a compiled object -/

/-- Compilation leaves the keys of the expansion where they are. -/
theorem keys_compileEntries (es : Entries Value) :
    keys (compileEntries θ es) = keys (expandEntries es) := by
  rw [compileEntries_eq, keys_map_values]

theorem nodup_compileEntries (es : Entries Value) : (keys (compileEntries θ es)).Nodup := by
  rw [keys_compileEntries]
  exact nodup_expandEntries es

theorem hasTier_compileEntries {es : Entries Value} (h : hasTier es = false) :
    hasTier (compileEntries θ es) = false := by
  rw [hasTier_congr (keys_compileEntries θ es)]
  exact hasTier_expandEntries h

/-- Compilation makes no nulls and removes none. -/
theorem isNull_compileAt (v : Value) : (compileAt θ property v).isNull = v.isNull := by
  cases hobj : v.isObject with
  | true =>
    obtain ⟨inner, rfl⟩ := exists_entries_of_isObject hobj
    rw [compileAt]
    split <;> rfl
  | false => rw [compileAt_of_not_isObject hobj, isNull_transform]

theorem isNull_compileTier (v : Value) : (compileTier θ property v).isNull = v.isNull := by
  cases hobj : v.isObject with
  | true =>
    obtain ⟨nested, rfl⟩ := exists_entries_of_isObject hobj
    rw [compileTier_object]
    rfl
  | false => rw [compileTier_of_not_isObject hobj, isNull_transform]

/-- There is nothing to expand in a compiled object. -/
theorem expandEntries_compileEntries (es : Entries Value) :
    expandEntries (compileEntries θ es) = compileEntries θ es := by
  refine expandEntries_of_plain (nodup_compileEntries θ es) ?_
  intro p hp
  rw [compileEntries_eq] at hp
  obtain ⟨q, hq, rfl⟩ := List.mem_map.1 hp
  refine ⟨isShorthand_of_mem_expandEntries (p := q) hq, ?_⟩
  rw [isNull_compileAt]
  exact isNull_of_mem_expandEntries hq

/-- The compiled tiers of a map for one property. -/
def compiledTiers (inner : Entries Value) : Entries Value :=
  (presentTiers inner).map fun p => (p.1, compileTier θ property p.2)

theorem isName_of_mem_compiledTiers {inner : Entries Value} {p : String × Value}
    (hp : p ∈ compiledTiers θ property inner) : Tier.isName p.1 = true := by
  obtain ⟨q, hq, rfl⟩ := List.mem_map.1 hp
  exact isName_of_mem_presentTiers (p := q) hq

theorem isNull_of_mem_compiledTiers {inner : Entries Value} {p : String × Value}
    (hp : p ∈ compiledTiers θ property inner) : p.2.isNull = false := by
  obtain ⟨q, hq, rfl⟩ := List.mem_map.1 hp
  rw [isNull_compileTier]
  exact isNull_of_mem_presentTiers hq

/-- **The shape of a compiled object:** its tiers, and then its other keys as a nested object. -/
theorem compileAt_object (inner : Entries Value) :
    compileAt θ property (object inner) =
      object (compiledTiers θ property inner ++ compileEntries θ (nonTiers inner)) := by
  cases ht : hasTier inner with
  | true =>
    have hrest := hasTier_compileEntries θ (hasTier_nonTiers inner)
    -- nothing of the first part is overwritten
    rw [compileAt_of_hasTier ht, extend_eq_append (nodup_compileEntries θ _), compiledTiers]
    -- a key of the second part is no tier, and every key of the first one is
    intro k hk hmem
    obtain ⟨v, hv⟩ := exists_mem_of_mem_keys hmem
    have hname : Tier.isName k = true := isName_of_mem_compiledTiers θ property hv
    rw [hasTier_eq_false_iff.1 hrest k hk] at hname
    cases hname
  | false =>
    -- the first part is empty
    have hnone : presentTiers inner = [] := by
      rw [presentTiers, tiers_of_not_hasTier ht, List.filter_nil]
    rw [compileAt_of_not_hasTier ht, compiledTiers, hnone, nonTiers_of_not_hasTier ht]
    rfl

/-! ### Compiling again -/

section Parts

variable {θ property}
variable {inner rest : Entries Value} (hrest : hasTier rest = false)

include hrest

/-- Read again, a compiled map has the same nested selector. -/
theorem nonTiers_compiledTiers_append :
    nonTiers (compiledTiers θ property inner ++ rest) = rest := by
  have hfst : nonTiers (compiledTiers θ property inner) = [] := by
    rw [nonTiers, List.filter_eq_nil_iff]
    intro p hp
    simp [isName_of_mem_compiledTiers θ property hp]
  have happend : nonTiers (compiledTiers θ property inner ++ rest) =
      nonTiers (compiledTiers θ property inner) ++ nonTiers rest := List.filter_append ..
  rw [happend, hfst, nonTiers_of_not_hasTier hrest, List.nil_append]

/-- Read again, a compiled map has the same tiers. -/
theorem presentTiers_compiledTiers_append :
    presentTiers (compiledTiers θ property inner ++ rest) = compiledTiers θ property inner := by
  have hfst : tiers (compiledTiers θ property inner) = compiledTiers θ property inner := by
    rw [tiers, List.filter_eq_self]
    intro p hp
    exact isName_of_mem_compiledTiers θ property hp
  have happend : tiers (compiledTiers θ property inner ++ rest) =
      tiers (compiledTiers θ property inner) ++ tiers rest := List.filter_append ..
  rw [presentTiers, happend, hfst, tiers_of_not_hasTier hrest, List.append_nil,
    List.filter_eq_self]
  intro p hp
  rw [isNull_of_mem_compiledTiers θ property hp, Bool.not_false]

end Parts

variable {θ property}

theorem compileTier_compileTier {v : Value}
    (ih : ∀ inner, v = object inner →
      compileEntries θ (compileEntries θ inner) = compileEntries θ inner) :
    compileTier θ property (compileTier θ property v) = compileTier θ property v := by
  cases hobj : v.isObject with
  | true =>
    obtain ⟨nested, rfl⟩ := exists_entries_of_isObject hobj
    rw [compileTier_object, compileTier_object, ih nested rfl]
  | false =>
    have hobj' : (transform θ property v).isObject = false := by rw [isObject_transform, hobj]
    rw [compileTier_of_not_isObject hobj, compileTier_of_not_isObject hobj', transform_transform]

/-- The tiers of a compiled map compile into themselves. -/
theorem compiledTiers_compileAt {inner : Entries Value}
    (ih : ∀ p ∈ inner, compileTier θ property (compileTier θ property p.2) =
      compileTier θ property p.2) :
    compiledTiers θ property (compiledTiers θ property inner ++
      compileEntries θ (nonTiers inner)) = compiledTiers θ property inner := by
  have hrest := hasTier_compileEntries θ (hasTier_nonTiers inner)
  rw [compiledTiers, presentTiers_compiledTiers_append hrest, compiledTiers, List.map_map]
  refine List.map_congr_left ?_
  intro p hp
  exact congrArg (Prod.mk p.1) (ih p (mem_of_mem_presentTiers hp))

/-- **One value.** Compiling it again changes nothing if that holds of the objects inside it. -/
theorem compileAt_compileAt {v : Value}
    (ih : ∀ inner : Entries Value, sizeOf inner < sizeOf v →
      compileEntries θ (compileEntries θ inner) = compileEntries θ inner) :
    compileAt θ property (compileAt θ property v) = compileAt θ property v := by
  cases hobj : v.isObject with
  | true =>
    obtain ⟨inner, rfl⟩ := exists_entries_of_isObject hobj
    have hrest := hasTier_compileEntries θ (hasTier_nonTiers inner)
    have htiers : ∀ p ∈ inner, compileTier θ property (compileTier θ property p.2) =
        compileTier θ property p.2 := by
      intro p hp
      refine compileTier_compileTier ?_
      intro nested hnested
      have hmem : (p.1, object nested) ∈ inner := hnested ▸ hp
      exact ih nested (Nat.lt_trans (sizeOf_lt_of_object_mem hmem) (sizeOf_lt_object inner))
    -- the tiers stand in front already, and no other key has become a tier
    rw [compileAt_object, compileAt_object, compiledTiers_compileAt htiers,
      nonTiers_compiledTiers_append hrest, ih _ (sizeOf_nonTiers_lt inner)]
  | false =>
    have hobj' : (transform θ property v).isObject = false := by rw [isObject_transform, hobj]
    rw [compileAt_of_not_isObject hobj, compileAt_of_not_isObject hobj', transform_transform]

/-- **A second compilation changes nothing,** at whichever level. -/
theorem compileEntries_compileEntries (es : Entries Value) :
    compileEntries θ (compileEntries θ es) = compileEntries θ es := by
  induction es using sizeInduction with
  | step es ih =>
    have hvalues : ∀ p ∈ expandEntries es,
        (p.1, compileAt θ p.1 (compileAt θ p.1 p.2)) = (p.1, compileAt θ p.1 p.2) := by
      intro p hp
      refine congrArg (Prod.mk p.1) (compileAt_compileAt ?_)
      intro inner hlt
      exact ih inner (Nat.lt_trans hlt (sizeOf_lt_of_mem_expandEntries hp))
    -- after the first run the keys are expanded, and the second one only meets their values
    calc compileEntries θ (compileEntries θ es)
        = (compileEntries θ es).map fun p => (p.1, compileAt θ p.1 p.2) := by
          rw [compileEntries_eq, expandEntries_compileEntries]
      _ = (expandEntries es).map fun p => (p.1, compileAt θ p.1 (compileAt θ p.1 p.2)) := by
          rw [compileEntries_eq, List.map_map]
          rfl
      _ = compileEntries θ es := by
          rw [List.map_congr_left hvalues, compileEntries_eq]

end Value

/-- **Compilation is idempotent.** A compiled style compiles into itself, key order included. -/
theorem compile_compile (s : Style) (θ : Theme) : (s.compile θ).compile θ = s.compile θ :=
  Style.ext (Value.compileEntries_compileEntries s.entries)

/-!
## Compiling before resolving

Compilation and normalization are two recursions over the same objects. Where both make sense they
agree: normalizing a compiled object gives what normalizing the object itself gives, key order
included (`Value.normalizeEntries_compileEntries`), so a style may be compiled before it is resolved
(`resolve_compile`).

Two things stand in the way, and `PrecompilableEntry` excludes them.

* A null. A map whose tiers are all null is a tier map to the one recursion and a nested object,
  once it is compiled, to the other.
* Tiers directly inside the block of a tier. Compilation reads the block as a tier map and moves its
  tiers to the front; normalization takes it as it stands.

The proof follows the writes of an entry. Each branch that normalization takes on a compiled value
is the branch that it takes on the value itself, with the same writes
(`Value.writes_compileAt`).
-/

open Entries

/-- Whether a value is an object with a tier among its keys. -/
def Value.isTierMap : Value → Bool
  | .object es => hasTier es
  | _ => false

/-- An entry that may be compiled before it is normalized: its value is not null, and if it is the
block of a tier no tier stands directly inside the block. -/
structure PrecompilableEntry (key : String) (v : Value) : Prop where
  not_null : v.isNull = false
  flat_block : Tier.isName key = true → v.isTierMap = false

instance (key : String) (v : Value) : Decidable (PrecompilableEntry key v) :=
  decidable_of_iff (v.isNull = false ∧ (Tier.isName key = true → v.isTierMap = false))
    ⟨fun h => ⟨h.1, h.2⟩, fun h => ⟨h.not_null, h.flat_block⟩⟩

namespace Value

variable {θ : Theme} {key : String}

/-! ### Parts of a compiled map -/

/-- What a map without nulls says for a tier, compiled. -/
theorem find?_compiledTiers {inner : Entries Value}
    (hinner : EveryEntry PrecompilableEntry inner) (tier : Tier) :
    find? tier.name (compiledTiers θ key inner) =
      (find? tier.name inner).map (compileTier θ key) := by
  have hpresent : find? tier.name (presentTiers inner) = find? tier.name inner := by
    rw [presentTiers, find?_filter, find?_tiers]
    intro v hv
    have hn := (hinner.holds (List.mem_filter.1 hv).1).not_null
    rw [hn, Bool.not_false]
  rw [compiledTiers, find?_map_values, hpresent]

/-- A tier of a compiled map is found by its name, with its value compiled. -/
theorem find?_compiledTiers_append {inner rest : Entries Value}
    (hinner : EveryEntry PrecompilableEntry inner) (hrest : hasTier rest = false) (tier : Tier) :
    find? tier.name (compiledTiers θ key inner ++ rest) =
      (find? tier.name inner).map (compileTier θ key) := by
  -- the second part has no tiers
  have hnone : find? tier.name rest = none := by
    refine find?_eq_none ?_
    intro hmem
    have hname := hasTier_eq_false_iff.1 hrest _ hmem
    rw [Tier.isName_name] at hname
    cases hname
  rw [find?_append, find?_compiledTiers hinner, hnone, Option.or_none]

/-- A tier map without nulls is a tier map after compilation too. -/
theorem hasTier_compiledTiers {inner : Entries Value}
    (hinner : EveryEntry PrecompilableEntry inner) (ht : hasTier inner = true) :
    hasTier (compiledTiers θ key inner) = true := by
  obtain ⟨k, hk, hname⟩ := hasTier_eq_true_iff.1 ht
  obtain ⟨v, hv⟩ := exists_mem_of_mem_keys hk
  have hpresent : (k, v) ∈ presentTiers inner := by
    rw [presentTiers, tiers, List.mem_filter, List.mem_filter]
    refine ⟨⟨hv, hname⟩, ?_⟩
    rw [(hinner.holds hv).not_null, Bool.not_false]
  refine hasTier_eq_true_iff.2 ⟨k, ?_, hname⟩
  rw [compiledTiers, keys_map_values]
  exact mem_keys_of_mem hpresent

/-- Only an empty object is compiled into one, if there are no nulls to drop. -/
theorem compileEntries_eq_nil_iff {es : Entries Value}
    (hes : EveryEntry PrecompilableEntry es) : compileEntries θ es = [] ↔ es = [] := by
  rw [compileEntries_eq, List.map_eq_nil_iff]
  constructor
  · intro hnil
    by_contra hne
    obtain ⟨p, hp⟩ := List.exists_mem_of_ne_nil es hne
    exact expandEntries_ne_nil hp (hes.holds hp).not_null hnil
  · rintro rfl
    rfl

/-! ### The writes of a compiled value -/

theorem normalizeTier_compileTier {v : Value}
    (ih : ∀ inner, v = object inner →
      normalizeEntries θ (compileEntries θ inner) = normalizeEntries θ inner) :
    normalizeTier θ key (compileTier θ key v) = normalizeTier θ key v := by
  cases hobj : v.isObject with
  | true =>
    obtain ⟨nested, rfl⟩ := exists_entries_of_isObject hobj
    rw [compileTier_object, normalizeTier_object, normalizeTier_object, ih nested rfl]
  | false =>
    have hobj' : (transform θ key v).isObject = false := by rw [isObject_transform, hobj]
    rw [compileTier_of_not_isObject hobj, normalizeTier_of_not_isObject hobj',
      normalizeTier_of_not_isObject hobj, transform_transform]

/-- A compiled map writes each tier as the map itself does. -/
theorem tierWrites_compileAt {inner : Entries Value}
    (hinner : EveryEntry PrecompilableEntry inner)
    (tier : Tier) (ih : ∀ nested, (tier.name, object nested) ∈ inner →
      normalizeEntries θ (compileEntries θ nested) = normalizeEntries θ nested) :
    tierWrites θ key (compiledTiers θ key inner ++ compileEntries θ (nonTiers inner)) tier =
      tierWrites θ key inner tier := by
  have hrest := hasTier_compileEntries θ (hasTier_nonTiers inner)
  have hfind : find? tier.name (compiledTiers θ key inner ++ compileEntries θ (nonTiers inner)) =
      (find? tier.name inner).map (compileTier θ key) :=
    find?_compiledTiers_append hinner hrest tier
  -- a tier is found where it was before, with its value compiled
  cases hv : find? tier.name inner with
  | none =>
    rw [hv] at hfind
    rw [tierWrites, tierWrites, hv, hfind]
    rfl
  | some v =>
    rw [hv, Option.map_some] at hfind
    have hmem : (tier.name, v) ∈ inner := mem_of_find? hv
    have hn : v.isNull = false := (hinner.holds hmem).not_null
    have htier : normalizeTier θ key (compileTier θ key v) = normalizeTier θ key v := by
      refine normalizeTier_compileTier ?_
      rintro nested rfl
      exact ih nested hmem
    rw [tierWrites_of_find? hfind (by rw [isNull_compileTier, hn]), tierWrites_of_find? hv hn,
      htier]

/-- It writes the same nested selector, too. -/
theorem selectorWrites_compileAt {inner : Entries Value}
    (hrest : EveryEntry PrecompilableEntry (nonTiers inner))
    (ih : normalizeEntries θ (compileEntries θ (nonTiers inner)) =
      normalizeEntries θ (nonTiers inner)) :
    selectorWrites θ key (compiledTiers θ key inner ++ compileEntries θ (nonTiers inner)) =
      selectorWrites θ key inner := by
  have hparts : nonTiers (compiledTiers θ key inner ++ compileEntries θ (nonTiers inner)) =
      compileEntries θ (nonTiers inner) :=
    nonTiers_compiledTiers_append (hasTier_compileEntries θ (hasTier_nonTiers inner))
  have hnil : compileEntries θ (nonTiers inner) = [] ↔ nonTiers inner = [] :=
    compileEntries_eq_nil_iff hrest
  simp only [selectorWrites, hparts, hnil, ih]

/-- **One entry.** Compiled first, it writes the same, if the parts of its value normalize to the
same. -/
theorem writes_compileAt {v : Value} (hv : Throughout PrecompilableEntry key v)
    (ih : ∀ part, IsPart v part →
      normalizeEntries θ (compileEntries θ part) = normalizeEntries θ part) :
    writes θ key (compileAt θ key v) = writes θ key v := by
  cases hobj : v.isObject with
  | false =>
    have hobj' : (transform θ key v).isObject = false := by rw [isObject_transform, hobj]
    rw [compileAt_of_not_isObject hobj, writes_of_not_isObject hobj', writes_of_not_isObject hobj,
      transform_transform]
  | true =>
    obtain ⟨inner, rfl⟩ := exists_entries_of_isObject hobj
    have hinner : EveryEntry PrecompilableEntry inner := hv.2 inner rfl
    have hnested := ih inner (.whole inner)
    cases hkey : Tier.ofName? key with
    | some tier =>
      -- the block of a tier: it has no tiers of its own, so its keys keep their order
      have hname : Tier.isName key = true := by rw [Tier.isName, hkey, Option.isSome_some]
      rw [compileAt_of_not_hasTier (hv.1.flat_block hname), writes_tier hkey,
        writes_tier hkey, hnested]
    | none =>
      cases ht : hasTier inner with
      | false =>
        -- a nested selector
        rw [compileAt_of_not_hasTier ht, writes_of_not_hasTier hkey (hasTier_compileEntries θ ht),
          writes_of_not_hasTier hkey ht, hnested]
      | true =>
        -- a tier map: the nested selector in it, and then its tiers
        have hrest : EveryEntry PrecompilableEntry (nonTiers inner) :=
          hinner.subset fun _ hp => (List.mem_filter.1 hp).1
        have htiers : ∀ tier ∈ Tier.all,
            tierWrites θ key (compiledTiers θ key inner ++ compileEntries θ (nonTiers inner)) tier =
              tierWrites θ key inner tier := by
          intro tier _
          apply tierWrites_compileAt hinner tier
          intro nested hmem
          exact ih nested (.tier hmem)
        have hmap : hasTier (compiledTiers θ key inner ++ compileEntries θ (nonTiers inner)) =
            true := by
          rw [hasTier_append, hasTier_compiledTiers hinner ht, Bool.true_or]
        rw [compileAt_object, writes_of_hasTier hkey hmap, writes_of_hasTier hkey ht,
          selectorWrites_compileAt hrest (ih _ (.selector inner)), List.flatMap_congr htiers]

/-- **Normalizing after compiling** is normalizing. The induction goes over the parts of an object,
which both recursions go on with. -/
theorem normalizeEntries_compileEntries (es : Entries Value)
    (hes : EveryEntry PrecompilableEntry es) :
    normalizeEntries θ (compileEntries θ es) = normalizeEntries θ es := by
  induction es using partInduction with
  | step es ih =>
    have hwrites : ∀ p ∈ expandEntries es,
        writes θ p.1 (compileAt θ p.1 p.2) = writes θ p.1 p.2 := by
      intro p hp
      -- an entry under a tier is one of the object itself, not a target of a shorthand
      have hentry : PrecompilableEntry p.1 p.2 := by
        refine ⟨isNull_of_mem_expandEntries hp, ?_⟩
        intro hname
        exact (hes.holds (mem_of_mem_expandEntries hp hname)).flat_block hname
      refine writes_compileAt ⟨hentry, ?_⟩ ?_
      · intro inner hinner
        have hmem : (p.1, object inner) ∈ expandEntries es := hinner ▸ hp
        exact hes.inside_expandEntries hmem
      · intro part hpart
        exact ih p hp part hpart (hes.part_of_mem_expandEntries hp hpart)
    calc normalizeEntries θ (compileEntries θ es)
        = mergeEntries [] ((compileEntries θ es).flatMap fun p => writes θ p.1 p.2) := by
          rw [normalizeEntries_eq, expandEntries_compileEntries]
      _ = mergeEntries []
            ((expandEntries es).flatMap fun p => writes θ p.1 (compileAt θ p.1 p.2)) := by
          rw [compileEntries_eq, List.flatMap_map]
      _ = normalizeEntries θ es := by
          rw [List.flatMap_congr hwrites, normalizeEntries_eq]

end Value

/-- **Precompilation is transparent.** A style without nulls, and without tiers directly inside the
block of a tier, resolves to the same style whether it is compiled first or not. -/
theorem resolve_compile {F : Type} (call : Calls F) (θ : Theme) (s : Style)
    (hs : Value.EveryEntry PrecompilableEntry s.entries) :
    (SpecOver.object (s.compile θ)).resolve call θ = (SpecOver.object s).resolve call θ := by
  have hnormal : (s.compile θ).normalize θ = s.normalize θ :=
    Style.ext (Value.normalizeEntries_compileEntries s.entries hs)
  rw [SpecOver.resolve_object, SpecOver.resolve_object, hnormal]

/-- A tier map with a block and a nested selector in it, beside a tier block. -/
def mixedMap : Style :=
  .ofEntries [
    ("my", .object [("&:hover", .object [("bg", .string "primary")]), ("lg", .number (.int 2)),
      ("xs", .object [("radius", .string "pill")])]),
    ("sm", .object [("p", .number (.int 1))])]

theorem resolve_compile_mixedMap :
    Value.EveryEntry PrecompilableEntry mixedMap.entries ∧
      (SpecOver.object (mixedMap.compile .default)).resolve ThemeFunction.call .default =
        (SpecOver.object mixedMap).resolve ThemeFunction.call .default := by
  have hmap : Value.EveryEntry PrecompilableEntry mixedMap.entries := by decide +kernel
  exact ⟨hmap, resolve_compile _ .default mixedMap hmap⟩

/-!
## Styles without tiers

Compilation and resolution differ in what they do with tiers. Where no key is a tier, at any level,
they are two ways to the same style (`resolve_eq_compile`): both expand each object once, and then
the one maps its entries while the other merges what they write.

Each entry of such an object has one write, with the key of the entry and its value compiled
(`Value.writes_of_tierFree`). An expansion repeats no key, so no write meets another one and merging
them is listing them.
-/

namespace Value

/-- A key that is no tier. -/
def NoTier (key : String) (_ : Value) : Prop := Tier.isName key = false

instance (key : String) (v : Value) : Decidable (NoTier key v) :=
  inferInstanceAs (Decidable (Tier.isName key = false))

theorem hasTier_of_tierFree {es : Entries Value} (h : EveryEntry NoTier es) :
    hasTier es = false := by
  rw [hasTier_eq_false_iff]
  intro k hk
  obtain ⟨v, hv⟩ := exists_mem_of_mem_keys hk
  exact h.holds hv

variable {θ : Theme} {key : String}

/-- **One entry** without tiers writes its value compiled, if that holds inside the value. -/
theorem writes_of_tierFree {v : Value} (hv : Throughout NoTier key v)
    (ih : ∀ inner, v = object inner → normalizeEntries θ inner = compileEntries θ inner) :
    writes θ key v = [(key, compileAt θ key v)] := by
  have hkey : Tier.isName key = false := hv.1
  cases hobj : v.isObject with
  | true =>
    obtain ⟨inner, rfl⟩ := exists_entries_of_isObject hobj
    have ht : hasTier inner = false := hasTier_of_tierFree (hv.2 inner rfl)
    rw [writes_of_not_hasTier (Tier.ofName?_eq_none_iff.2 hkey) ht, compileAt_of_not_hasTier ht,
      ih inner rfl]
  | false =>
    have hplain : ¬ Tier.isName key = true := by simp [hkey]
    rw [writes_of_not_isObject hobj, if_neg hplain, compileAt_of_not_isObject hobj]

/-- **One object.** Without tiers, normalizing it is compiling it. -/
theorem normalizeEntries_eq_compileEntries (es : Entries Value) (hes : EveryEntry NoTier es) :
    normalizeEntries θ es = compileEntries θ es := by
  induction es using partInduction with
  | step es ih =>
    have hwrites : ∀ p ∈ expandEntries es,
        writes θ p.1 p.2 = [(p.1, compileAt θ p.1 p.2)] := by
      intro p hp
      have hname : Tier.isName p.1 = false := by
        -- no shorthand stands for a tier
        apply hes.key_of_mem_expandEntries _ hp
        exact Shorthand.isName_target
      have hparts : ∀ part, IsPart p.2 part → EveryEntry NoTier part :=
        fun part hpart => hes.part_of_mem_expandEntries hp hpart
      apply writes_of_tierFree
      · refine ⟨hname, ?_⟩
        intro inner hinner
        exact hparts inner (hinner ▸ .whole inner)
      · intro inner hinner
        have hpart : IsPart p.2 inner := hinner ▸ .whole inner
        exact ih p hp inner hpart (hparts inner hpart)
    calc normalizeEntries θ es
        = mergeEntries [] ((expandEntries es).map fun p => (p.1, compileAt θ p.1 p.2)) := by
          rw [normalizeEntries_eq, List.flatMap_congr hwrites, List.map_eq_flatMap]
      _ = mergeEntries [] (compileEntries θ es) := by rw [compileEntries_eq]
      _ = compileEntries θ es := mergeEntries_nil_left (nodup_compileEntries θ es)

end Value

/-- **Resolution is compilation where there are no tiers.** A style in which no key is a tier, at any
level, resolves to what it compiles into, key order included. -/
theorem resolve_eq_compile {F : Type} (call : Calls F) (θ : Theme) (s : Style)
    (hs : Value.EveryEntry Value.NoTier s.entries) :
    (SpecOver.object s).resolve call θ = .ok (s.compile θ) := by
  rw [SpecOver.resolve_object]
  exact congrArg Except.ok (Style.ext (Value.normalizeEntries_eq_compileEntries s.entries hs))

/-- A card with shorthands that meet, a null, a list with a tier in it, and nested selectors. -/
def card : Style :=
  .ofEntries [
    ("pl", .number (.int 1)), ("bg", .string "primary"), ("px", .number (.int 2)),
    ("border", .null), ("animation", .array [.object [("md", .null)]]),
    ("&:hover", .object [("bg", .string "primary.dark"), ("m", .null),
      ("& > p", .object [("radius", .string "pill"), ("paddingLeft", .number (.int 3))])])]

theorem resolve_eq_compile_card :
    Value.EveryEntry Value.NoTier card.entries ∧
      (SpecOver.object card).resolve ThemeFunction.call .default = .ok (card.compile .default) := by
  have hcard : Value.EveryEntry Value.NoTier card.entries := by decide +kernel
  exact ⟨hcard, resolve_eq_compile _ .default card hcard⟩

-- With tiers the two differ: only resolution makes blocks of them.
example :
    let s := Style.ofEntries [("width", .object [("md", .number (.int 400))])]
    (SpecOver.object s).resolve ThemeFunction.call .default ≠ .ok (s.compile .default) := by decide +kernel

end StyleSystem
