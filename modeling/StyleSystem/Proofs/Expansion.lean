import Mathlib.Data.List.Basic
import Mathlib.Data.Nat.Basic
import Mathlib.Order.Basic
import Mathlib.Tactic.ByContra
import StyleSystem.Proofs.Level
import StyleSystem.Proofs.MergeByKey
import StyleSystem.Style.Normal
import StyleSystem.Style.Shorthand

/-!
# Expansion

Expansion goes over one level of an object. Its result has three properties on which the compilers
rely at every level they go down to: no key is a shorthand, no value is null, and a tier stands
there only if it stood there before, with the same value. The first two, with distinct keys, say
that a second expansion finds nothing to do (`expandEntries_of_plain`).

All of it comes from three facts of the shorthand table, each checked entry by entry: a target is
never a shorthand and never a tier, and no shorthand is without a target.

Which entry a key of the result has its value from, and where it stands, is the second part
(`eq_expand_iff_isExpansion`).
-/

namespace StyleSystem

/-! ## What expansion leaves -/

open Entries

/-! ### The table -/

namespace Shorthand

theorem find?_target : ∀ s ∈ table, ∀ t ∈ s.targets, find? t = none := by decide

theorem isName_target : ∀ s ∈ table, ∀ t ∈ s.targets, Tier.isName t = false := by decide

theorem targets_ne_nil : ∀ s ∈ table, s.targets ≠ [] := by decide

/-- A key is a shorthand of the table or stands for itself. -/
theorem ofKey_cases (key : String) :
    ofKey key ∈ table ∨ (isShorthand key = false ∧ ofKey key = ⟨key, .explicit, [key]⟩) := by
  unfold ofKey isShorthand
  cases hf : find? key with
  | none => exact .inr ⟨rfl, rfl⟩
  | some s => exact .inl (List.mem_of_find?_eq_some hf)

theorem key_ofKey (key : String) : (ofKey key).key = key := by
  unfold ofKey
  cases hf : find? key with
  | none => rfl
  | some s => simpa using List.find?_some hf

theorem ofKey_of_not_isShorthand {key : String} (h : isShorthand key = false) :
    ofKey key = ⟨key, .explicit, [key]⟩ := by
  have hf : find? key = none := by simpa [isShorthand] using h
  rw [ofKey, hf, Option.getD_none]

theorem isShorthand_of_mem_targets {key t : String} (h : t ∈ (ofKey key).targets) :
    isShorthand t = false := by
  rcases ofKey_cases key with hs | ⟨hkey, hs⟩
  · rw [isShorthand, find?_target _ hs t h, Option.isSome_none]
  · rw [hs, List.mem_singleton] at h
    rw [h, hkey]

/-- Only a tier itself has a tier as its target. -/
theorem eq_of_mem_targets_of_isName {key t : String} (h : t ∈ (ofKey key).targets)
    (ht : Tier.isName t = true) : t = key := by
  rcases ofKey_cases key with hs | ⟨-, hs⟩
  · rw [isName_target _ hs t h] at ht
    cases ht
  · rw [hs] at h
    exact List.mem_singleton.1 h

theorem isShorthand_of_isName {key : String} (h : Tier.isName key = true) :
    isShorthand key = false := by
  obtain ⟨tier, rfl⟩ := Tier.exists_name_eq h
  cases tier <;> decide

/-- A key and its targets are tiers or not together. -/
theorem isName_of_mem_targets {key t : String} (h : t ∈ (ofKey key).targets) :
    Tier.isName t = Tier.isName key := by
  cases ht : Tier.isName t with
  | true => rw [← eq_of_mem_targets_of_isName h ht, ht]
  | false =>
    by_contra hkey
    -- a tier is no shorthand, so its only target is itself
    have hkey : Tier.isName key = true := by simpa using Ne.symm hkey
    rw [ofKey_of_not_isShorthand (isShorthand_of_isName hkey), List.mem_singleton] at h
    rw [h, hkey] at ht
    cases ht

theorem exists_mem_targets (key : String) : ∃ t, t ∈ (ofKey key).targets := by
  refine List.exists_mem_of_ne_nil _ ?_
  rcases ofKey_cases key with hs | ⟨-, hs⟩
  · exact targets_ne_nil _ hs
  · rw [hs]; simp

end Shorthand

/-! ### Keys of a run of declarations -/

namespace Declaration

/-- The declarations of an entry whose key is no shorthand. -/
theorem ofEntry_of_plain {key : String} {value : Value} (hkey : isShorthand key = false)
    (hvalue : value.isNull = false) : ofEntry key value = [⟨key, .explicit, value⟩] := by
  rw [ofEntry, Shorthand.ofKey_of_not_isShorthand hkey, hvalue]
  rfl

/-- A run writes exactly the targets of its declarations. -/
theorem mem_keys_run {ds : List Declaration} {t : String} :
    t ∈ keys (run ds) ↔ ∃ d ∈ ds, d.target = t := by
  -- the induction is on the declarations, from any entries on
  suffices ∀ acc : Entries (Specificity × Value),
      t ∈ keys (ds.foldl (fun acc d => update d.target d.onto acc) acc) ↔
        t ∈ keys acc ∨ ∃ d ∈ ds, d.target = t by
    rw [run, this []]
    simp
  induction ds with
  | nil => simp
  | cons d ds ih =>
    intro acc
    rw [List.foldl_cons, ih, mem_keys_update, List.exists_mem_cons_iff, or_comm (a := t = _),
      or_assoc, eq_comm (a := t)]

/-- A run of declarations with distinct targets keeps all of them. -/
theorem run_of_nodup {es : Entries (Specificity × Value)} (h : (keys es).Nodup) :
    run (es.map fun p => ⟨p.1, p.2.1, p.2.2⟩) = es := by
  rw [run, List.foldl_map]
  exact foldl_update_eq_append (fun _ => rfl) h (by simp)

end Declaration

/-! ### Entries of an expansion -/

namespace Value

theorem isShorthand_of_mem_expandEntries {es : Entries Value} {p : String × Value}
    (h : p ∈ expandEntries es) : isShorthand p.1 = false := by
  obtain ⟨key, -, ht, -⟩ := mem_expandEntries h
  exact Shorthand.isShorthand_of_mem_targets ht

theorem isNull_of_mem_expandEntries {es : Entries Value} {p : String × Value}
    (h : p ∈ expandEntries es) : p.2.isNull = false := by
  obtain ⟨key, -, -, hn⟩ := mem_expandEntries h
  exact hn

/-- A tier in an expansion stood there before, with the same value. -/
theorem mem_of_mem_expandEntries {es : Entries Value} {p : String × Value}
    (h : p ∈ expandEntries es) (ht : Tier.isName p.1 = true) : p ∈ es := by
  obtain ⟨key, hk, hp, -⟩ := mem_expandEntries h
  rwa [← Shorthand.eq_of_mem_targets_of_isName hp ht] at hk

theorem hasTier_expandEntries {es : Entries Value} (h : hasTier es = false) :
    hasTier (expandEntries es) = false := by
  rw [hasTier_eq_false_iff] at h ⊢
  intro t ht
  obtain ⟨v, hv⟩ := exists_mem_of_mem_keys ht
  by_contra hname
  have hmem := mem_of_mem_expandEntries hv (by simpa using hname)
  exact hname (h t (mem_keys_of_mem hmem))

/-- What holds of every entry of an object holds inside the values of its expansion. -/
theorem EveryEntry.inside_expandEntries {P : String → Value → Prop} {es : Entries Value}
    (h : EveryEntry P es) {k : String} {inner : Entries Value}
    (hk : (k, object inner) ∈ expandEntries es) : EveryEntry P inner := by
  obtain ⟨key, hkey, -⟩ := mem_expandEntries hk
  exact h.inside hkey

/-- What holds of the keys of an object and of all targets holds of the keys of its expansion. -/
theorem EveryEntry.key_of_mem_expandEntries {K : String → Prop} {es : Entries Value}
    (hes : EveryEntry (fun k _ => K k) es)
    (htargets : ∀ s ∈ Shorthand.table, ∀ k ∈ s.targets, K k) {p : String × Value}
    (hp : p ∈ expandEntries es) : K p.1 := by
  obtain ⟨key, hk, ht, -⟩ := mem_expandEntries hp
  rcases Shorthand.ofKey_cases key with hs | ⟨-, hs⟩
  · exact htargets _ hs p.1 ht
  · rw [hs, List.mem_singleton] at ht
    rw [ht]
    exact hes.holds hk

/-- An object expands into nothing only if all its values are null. -/
theorem expandEntries_ne_nil {es : Entries Value} {p : String × Value} (hp : p ∈ es)
    (hn : p.2.isNull = false) : expandEntries es ≠ [] := by
  -- the entry declares a target, and what a declaration writes stays
  obtain ⟨t, ht⟩ := Shorthand.exists_mem_targets p.1
  have hd : (⟨t, (Shorthand.ofKey p.1).specificity, p.2⟩ : Declaration) ∈
      Declaration.ofEntries es := by
    refine List.mem_flatMap.2 ⟨p, hp, ?_⟩
    rw [Declaration.ofEntry, hn]
    exact List.mem_map.2 ⟨t, ht, rfl⟩
  have hkey : t ∈ keys (Declaration.run (Declaration.ofEntries es)) :=
    Declaration.mem_keys_run.2 ⟨_, hd, rfl⟩
  intro hnil
  rw [expandEntries, List.map_eq_nil_iff] at hnil
  rw [hnil] at hkey
  cases hkey

/-- **Nothing to expand.** Distinct keys without shorthands, with values that are not null, expand
into themselves. -/
theorem expandEntries_of_plain {es : Entries Value} (hkeys : (keys es).Nodup)
    (h : ∀ p ∈ es, isShorthand p.1 = false ∧ p.2.isNull = false) : expandEntries es = es := by
  -- each entry declares itself, explicitly
  have hds : Declaration.ofEntries es =
      (es.map fun p => (p.1, (Specificity.explicit, p.2))).map fun p => ⟨p.1, p.2.1, p.2.2⟩ := by
    rw [Declaration.ofEntries, List.map_map, List.map_eq_flatMap]
    exact List.flatMap_congr fun p hp => Declaration.ofEntry_of_plain (h p hp).1 (h p hp).2
  have hnodup : (keys (es.map fun p => (p.1, (Specificity.explicit, p.2)))).Nodup := by
    rw [keys_map_values]
    exact hkeys
  rw [expandEntries, hds, Declaration.run_of_nodup hnodup, List.map_map]
  exact List.map_id _

end Value

/-!
## The entry that prevails

Expansion runs through the entries of an object and keeps two things for each target, the value that
stands there and how specifically it was declared. `Style.IsExpansion` says what comes out of the run
without running it, in three clauses.

* The keys are the targets of the entries that have a value.
* A target has the value of the entry that prevails: among the most specific ones that set it, the
  last (`Value.Prevails`).
* The keys stand in the order in which entries first set them. An entry that does not prevail fixes
  the position all the same, and the two targets of an axis stand in the order of the table.

An expansion is the one style for which they hold (`eq_expand_iff_isExpansion`).

The value is the part with an argument in it. A run of declarations leaves at a target what some
declaration says, if nothing more specific comes before it and only less specific ones after it
(`Declaration.find?_run_of_split`). Some entry is in this position whenever any entry sets the target
(`Value.exists_prevails`), so the value at a target can come from nowhere else.
-/

/-! ### Runs of declarations -/

theorem Specificity.rank_injective : Function.Injective rank := by
  intro a b h
  cases a <;> cases b <;> first | rfl | cases h

/-- **Specificities are ordered** as their ranks are. -/
instance : LinearOrder Specificity := LinearOrder.lift' Specificity.rank Specificity.rank_injective

namespace Declaration

theorem mem_ofEntry_iff {key : String} {value : Value} {d : Declaration} :
    d ∈ ofEntry key value ↔ value.isNull = false ∧ d.target ∈ (Shorthand.ofKey key).targets ∧
      d.specificity = (Shorthand.ofKey key).specificity ∧ d.value = value := by
  cases hn : value.isNull with
  | true => simp [ofEntry, hn]
  | false =>
    rw [ofEntry, hn, if_neg Bool.false_ne_true, List.mem_map]
    constructor
    · rintro ⟨t, ht, rfl⟩
      exact ⟨rfl, ht, rfl, rfl⟩
    · rintro ⟨-, ht, hs, hv⟩
      exact ⟨d.target, ht, by rw [← hs, ← hv]⟩

/-- An entry declares a target once. -/
theorem eq_of_mem_ofEntry {key : String} {value : Value} {d e : Declaration}
    (hd : d ∈ ofEntry key value) (he : e ∈ ofEntry key value) (h : e.target = d.target) : e = d := by
  obtain ⟨-, -, hs, hv⟩ := mem_ofEntry_iff.1 hd
  obtain ⟨-, -, hs', hv'⟩ := mem_ofEntry_iff.1 he
  cases d
  cases e
  simp_all

theorem mem_ofEntries_iff {es : Entries Value} {d : Declaration} :
    d ∈ ofEntries es ↔ ∃ key, (key, d.value) ∈ es ∧ d.value.isNull = false ∧
      d.target ∈ (Shorthand.ofKey key).targets ∧
      d.specificity = (Shorthand.ofKey key).specificity := by
  rw [ofEntries, List.mem_flatMap]
  constructor
  · rintro ⟨⟨key, value⟩, hp, hd⟩
    obtain ⟨hn, ht, hs, rfl⟩ := mem_ofEntry_iff.1 hd
    exact ⟨key, hp, hn, ht, hs⟩
  · rintro ⟨key, hp, hn, ht, hs⟩
    exact ⟨_, hp, mem_ofEntry_iff.2 ⟨hn, ht, hs, rfl⟩⟩

/-- What stands at the target of a declaration stays there while no more specific declaration, and
no other one of the same specificity, follows. -/
theorem find?_foldl_of_below {d : Declaration} {ds : List Declaration}
    (hds : ∀ e ∈ ds, e.target = d.target → e = d ∨ e.specificity < d.specificity)
    {acc : Entries (Specificity × Value)}
    (hacc : find? d.target acc = some (d.specificity, d.value)) :
    find? d.target (ds.foldl (fun acc e => update e.target e.onto acc) acc) =
      some (d.specificity, d.value) := by
  induction ds generalizing acc with
  | nil => exact hacc
  | cons e ds ih =>
    rw [List.foldl_cons]
    refine ih (fun x hx => hds x (List.mem_cons_of_mem _ hx)) ?_
    rw [find?_update]
    by_cases ht : d.target = e.target
    · rw [if_pos ht, ← ht, hacc]
      rcases hds e List.mem_cons_self ht.symm with rfl | hlt
      · exact congrArg some (if_neg (lt_irrefl _))
      · exact congrArg some (if_pos hlt)
    · rw [if_neg ht, hacc]

/-- **The winner of a run.** No declaration of its target before it is more specific, and every
other one after it is less specific. -/
theorem find?_run_of_split {d : Declaration} {before after : List Declaration}
    (hbefore : ∀ e ∈ before, e.target = d.target → ¬ d.specificity < e.specificity)
    (hafter : ∀ e ∈ after, e.target = d.target → e = d ∨ e.specificity < d.specificity) :
    find? d.target (run (before ++ d :: after)) = some (d.specificity, d.value) := by
  have hsplit : run (before ++ d :: after) =
      after.foldl (fun acc e => update e.target e.onto acc)
        (update d.target d.onto (run before)) := by
    rw [run, List.foldl_append, List.foldl_cons]
    rfl
  rw [hsplit]
  refine find?_foldl_of_below hafter ?_
  rw [find?_update, if_pos rfl]
  refine congrArg some ?_
  cases hold : find? d.target (run before) with
  | none => rfl
  | some q =>
    -- what stood there was declared no more specifically
    obtain ⟨specificity, value⟩ := q
    have hmem : (⟨d.target, specificity, value⟩ : Declaration) ∈ before :=
      mem_run (mem_of_find? hold)
    exact if_neg (hbefore _ hmem rfl)

end Declaration

namespace Value

/-! ### The entry that prevails -/

/-- The targets that an entry sets: those that its key stands for, and none if its value is null. -/
def setTargets (p : String × Value) : List String :=
  if p.2.isNull then [] else (Shorthand.ofKey p.1).targets

/-- How directly the key of an entry names what it sets. -/
def specificity (p : String × Value) : Specificity := (Shorthand.ofKey p.1).specificity

/-- **The value of the entry that prevails** at a target. No entry in front of it sets the target
more specifically, and each one behind it that sets the target does so less specifically. -/
def Prevails (es : Entries Value) (t : String) (v : Value) : Prop :=
  ∃ key before after, es = before ++ (key, v) :: after ∧ t ∈ setTargets (key, v) ∧
    (∀ p ∈ before, t ∈ setTargets p → ¬ specificity (key, v) < specificity p) ∧
    ∀ p ∈ after, t ∈ setTargets p → specificity p < specificity (key, v)

variable {es : Entries Value} {t : String} {v : Value}

theorem mem_setTargets {p : String × Value} :
    t ∈ setTargets p ↔ p.2.isNull = false ∧ t ∈ (Shorthand.ofKey p.1).targets := by
  unfold setTargets
  cases p.2.isNull <;> simp

/-- If any entry sets a target, one of them prevails. -/
theorem exists_prevails (h : ∃ p ∈ es, t ∈ setTargets p) : ∃ v, Prevails es t v := by
  induction es with
  | nil =>
    obtain ⟨p, hp, -⟩ := h
    cases hp
  | cons q es ih =>
    by_cases hes : ∃ p ∈ es, t ∈ setTargets p
    · -- the entry that prevails among the others, unless the first one is more specific
      obtain ⟨v, key, before, after, rfl, ht, hbefore, hafter⟩ := ih hes
      by_cases hq : t ∈ setTargets q ∧ specificity (key, v) < specificity q
      · refine ⟨q.2, q.1, [], before ++ (key, v) :: after, rfl, hq.1, nofun, ?_⟩
        intro p hp hset
        rw [List.mem_append, List.mem_cons] at hp
        rcases hp with hp | rfl | hp
        · exact (not_lt.1 (hbefore p hp hset)).trans_lt hq.2
        · exact hq.2
        · exact (hafter p hp hset).trans hq.2
      · refine ⟨v, key, q :: before, after, rfl, ht, ?_, hafter⟩
        intro p hp hset
        rcases List.mem_cons.1 hp with rfl | hp
        · -- an entry in front may be as specific, but not more
          exact fun hlt => hq ⟨hset, hlt⟩
        · exact hbefore p hp hset
    · -- the first entry is the only one
      obtain ⟨p, hp, hset⟩ := h
      have hpq : p = q := by
        rcases List.mem_cons.1 hp with hp | hp
        · exact hp
        · exact absurd ⟨p, hp, hset⟩ hes
      refine ⟨q.2, q.1, [], es, rfl, hpq ▸ hset, nofun, ?_⟩
      intro p hp hset
      exact absurd ⟨p, hp, hset⟩ hes

/-- An entry that is more specific than every other one prevails wherever it stands. -/
theorem prevails_of_mem (hes : (keys es).Nodup) {key : String} (hmem : (key, v) ∈ es)
    (hset : t ∈ setTargets (key, v))
    (hother : ∀ p ∈ es, t ∈ setTargets p → p = (key, v) ∨ specificity p < specificity (key, v)) :
    Prevails es t v := by
  obtain ⟨before, after, rfl⟩ := List.append_of_mem hmem
  refine ⟨key, before, after, rfl, hset, ?_, ?_⟩
  · intro p hp hp'
    rcases hother p (List.mem_append_left _ hp) hp' with rfl | hlt
    · exact lt_irrefl _
    · exact lt_asymm hlt
  · intro p hp hp'
    rcases hother p (List.mem_append_right _ (List.mem_cons_of_mem _ hp)) hp' with rfl | hlt
    · -- the entry itself does not come again
      rw [keys_append, keys_cons, List.nodup_append, List.nodup_cons] at hes
      exact absurd (mem_keys_of_mem hp) hes.2.1.1
    · exact hlt

theorem find?_expandEntries_eq (es : Entries Value) (t : String) :
    find? t (expandEntries es) =
      (find? t (Declaration.run (Declaration.ofEntries es))).map Prod.snd :=
  find?_map_values (fun p : String × (Specificity × Value) => p.2.2) t _

/-- **An expansion takes its values** from the entries that prevail. -/
theorem find?_expandEntries_of_prevails (h : Prevails es t v) :
    find? t (expandEntries es) = some v := by
  obtain ⟨key, before, after, rfl, ht, hbefore, hafter⟩ := h
  obtain ⟨hn, htarget⟩ := mem_setTargets.1 ht
  -- the declaration of the entry for the target, and those of the same entry around it
  have hd : (⟨t, specificity (key, v), v⟩ : Declaration) ∈ Declaration.ofEntry key v :=
    Declaration.mem_ofEntry_iff.2 ⟨hn, htarget, rfl, rfl⟩
  obtain ⟨ds, ds', hds⟩ := List.append_of_mem hd
  have hsplit : Declaration.ofEntries (before ++ (key, v) :: after) =
      (Declaration.ofEntries before ++ ds) ++ ⟨t, specificity (key, v), v⟩ ::
        (ds' ++ Declaration.ofEntries after) := by
    unfold Declaration.ofEntries
    rw [List.flatMap_append, List.flatMap_cons, hds]
    simp only [List.append_assoc, List.cons_append]
  have hbefore' : ∀ e ∈ Declaration.ofEntries before ++ ds, e.target = t →
      ¬ specificity (key, v) < e.specificity := by
    intro e he het
    rcases List.mem_append.1 he with he | he
    · obtain ⟨key', hp, hn', ht', hs⟩ := Declaration.mem_ofEntries_iff.1 he
      rw [hs]
      exact hbefore (key', e.value) hp (mem_setTargets.2 ⟨hn', het ▸ ht'⟩)
    · have he' : e ∈ Declaration.ofEntry key v := hds ▸ List.mem_append_left _ he
      rw [Declaration.eq_of_mem_ofEntry hd he' het]
      exact lt_irrefl _
  have hafter' : ∀ e ∈ ds' ++ Declaration.ofEntries after, e.target = t →
      e = ⟨t, specificity (key, v), v⟩ ∨ e.specificity < specificity (key, v) := by
    intro e he het
    rcases List.mem_append.1 he with he | he
    · have he' : e ∈ Declaration.ofEntry key v :=
        hds ▸ List.mem_append_right _ (List.mem_cons_of_mem _ he)
      exact .inl (Declaration.eq_of_mem_ofEntry hd he' het)
    · obtain ⟨key', hp, hn', ht', hs⟩ := Declaration.mem_ofEntries_iff.1 he
      rw [hs]
      exact .inr (hafter (key', e.value) hp (mem_setTargets.2 ⟨hn', het ▸ ht'⟩))
  have hrun := Declaration.find?_run_of_split (d := ⟨t, specificity (key, v), v⟩) hbefore' hafter'
  rw [find?_expandEntries_eq, hsplit, hrun, Option.map_some]

/-! ### The keys of an expansion -/

/-- The keys of an expansion are the targets of its entries, each where it is first set. -/
theorem keys_expandEntries_eq_setTargets (es : Entries Value) :
    keys (expandEntries es) = (es.flatMap setTargets).eraseDups := by
  have hentry : ∀ p : String × Value,
      (Declaration.ofEntry p.1 p.2).map Declaration.target = setTargets p := by
    intro p
    unfold Declaration.ofEntry setTargets
    split
    · rfl
    · rw [List.map_map]
      exact List.map_id _
  rw [keys_expandEntries, Declaration.ofEntries, List.map_flatMap]
  exact congrArg List.eraseDups (List.flatMap_congr fun p _ => hentry p)

theorem mem_keys_expandEntries :
    t ∈ keys (expandEntries es) ↔ ∃ p ∈ es, t ∈ setTargets p := by
  rw [keys_expandEntries_eq_setTargets, List.mem_eraseDups, List.mem_flatMap]

theorem find?_expandEntries_eq_some_iff :
    find? t (expandEntries es) = some v ↔ Prevails es t v := by
  refine ⟨?_, find?_expandEntries_of_prevails⟩
  intro h
  -- some entry sets the target, so one prevails, and the value is that of this one
  have hset := mem_keys_expandEntries.1 (mem_keys_of_mem (mem_of_find? h))
  obtain ⟨w, hw⟩ := exists_prevails hset
  rw [find?_expandEntries_of_prevails hw, Option.some_inj] at h
  exact h ▸ hw

end Value

/-- **The expansion of a style,** by its keys, their values and their order. -/
structure Style.IsExpansion (s r : Style) : Prop where
  /-- A key is a target of an entry that has a value. -/
  mem_keys : ∀ t, t ∈ keys r.entries ↔ ∃ p ∈ s.entries, t ∈ Value.setTargets p
  /-- A target has the value of the entry that prevails. -/
  value : ∀ t v, r.find? t = some v ↔ Value.Prevails s.entries t v
  /-- A target stands where an entry first sets it. -/
  order : keys r.entries = (s.entries.flatMap Value.setTargets).eraseDups

/-- **Expansion.** The expansion of a style is the one style whose keys are the targets of the
entries with a value, in the order in which they are first set, each with the value of the last of
the most specific entries that set it. -/
theorem eq_expand_iff_isExpansion (s r : Style) : r = s.expand ↔ s.IsExpansion r := by
  constructor
  · rintro rfl
    exact ⟨fun t => Value.mem_keys_expandEntries,
      fun t v => Value.find?_expandEntries_eq_some_iff,
      Value.keys_expandEntries_eq_setTargets s.entries⟩
  · intro h
    have hkeys : keys r.entries = keys s.expand.entries :=
      h.order.trans (Value.keys_expandEntries_eq_setTargets s.entries).symm
    apply Style.ext
    refine eq_of_find? r.distinct.1 hkeys ?_
    -- the same entries prevail
    intro t _
    refine Option.ext fun v => ?_
    exact (h.value t v).trans Value.find?_expandEntries_eq_some_iff.symm

-- A weaker entry in front fixes the position, and a null neither that nor anything else.
example :
    keys (Style.ofEntries [("paddingRight", .null), ("px", .number (.int 1)),
      ("mt", .number (.int 2)), ("pl", .number (.int 3))]).expand.entries =
      ["paddingLeft", "paddingRight", "marginTop"] := by decide +kernel

end StyleSystem
