/-!
# Ordered entries

A style object is a list of keys with values, in the order in which the keys first arrived. The one
write operation is `Entries.update`: a key that is present keeps its position and gets a new value,
made from the old one; a key that is absent goes to the end. Insertion (`insert`), insertion of
many entries (`extend`) and the deep merge are all built from it, so their order is settled here:

* `keys_update` — the keys after a write.
* `find?_update` — the values after a write.
* `nodup_update` — writing never repeats a key.
-/

namespace StyleSystem

/-- Keys with values, in order. -/
abbrev Entries (α : Type) := List (String × α)

namespace Entries

variable {α β : Type}

/-- The keys in order. -/
def keys (es : Entries α) : List String := es.map Prod.fst

@[simp] theorem keys_nil : keys ([] : Entries α) = [] := rfl

@[simp] theorem keys_cons (k : String) (v : α) (es : Entries α) :
    keys ((k, v) :: es) = k :: keys es := rfl

@[simp] theorem keys_append (es fs : Entries α) : keys (es ++ fs) = keys es ++ keys fs := by
  simp [keys]

theorem mem_keys_of_mem {es : Entries α} {k : String} {v : α} (h : (k, v) ∈ es) : k ∈ keys es :=
  List.mem_map.2 ⟨_, h, rfl⟩

theorem exists_mem_of_mem_keys {es : Entries α} {k : String} (h : k ∈ keys es) :
    ∃ v, (k, v) ∈ es := by
  obtain ⟨⟨k', v⟩, hp, he⟩ := List.mem_map.1 h
  cases he
  exact ⟨v, hp⟩

@[simp] theorem keys_map_values (f : String × α → β) (es : Entries α) :
    keys (es.map fun p => (p.1, f p)) = keys es := by
  simp [keys, Function.comp_def]

/-- The value at a key. -/
def find? (k : String) : Entries α → Option α
  | [] => none
  | (k', v) :: rest => if k' = k then some v else find? k rest

/-- **The write operation.** The new value at `k` is made from the old one, if there is one. -/
def update (k : String) (f : Option α → α) : Entries α → Entries α
  | [] => [(k, f none)]
  | (k', v) :: rest => if k' = k then (k', f (some v)) :: rest else (k', v) :: update k f rest

/-- Writes a value whatever the old one is. -/
def insert (k : String) (v : α) (es : Entries α) : Entries α := update k (fun _ => v) es

/-- Writes entries one after the other. -/
def extend (es more : Entries α) : Entries α := more.foldl (fun acc p => insert p.1 p.2 acc) es

/-- The entries after all writes of a list: the first write of a key fixes its position and the
last one its value. -/
def ofList (writes : List (String × α)) : Entries α := extend [] writes

/-! ### Keys after a write -/

theorem keys_update (k : String) (f : Option α → α) (es : Entries α) :
    keys (update k f es) = if k ∈ keys es then keys es else keys es ++ [k] := by
  induction es with
  | nil => rfl
  | cons p es ih =>
    obtain ⟨k', v⟩ := p
    by_cases h : k' = k
    · simp [update, h]
    · have h' : ¬ k = k' := fun e => h e.symm
      simp only [update, h, if_false, keys_cons, ih, List.mem_cons, h', false_or]
      split <;> simp

theorem mem_keys_update {k k' : String} {f : Option α → α} {es : Entries α} :
    k' ∈ keys (update k f es) ↔ k' = k ∨ k' ∈ keys es := by
  rw [keys_update]
  split
  · rename_i h
    exact ⟨Or.inr, fun h' => h'.elim (fun e => e ▸ h) id⟩
  · simp [or_comm]

theorem nodup_update {k : String} {f : Option α → α} {es : Entries α} (h : (keys es).Nodup) :
    (keys (update k f es)).Nodup := by
  rw [keys_update]
  split
  · exact h
  · rename_i hk
    rw [List.nodup_append]
    refine ⟨h, by simp, ?_⟩
    simp only [List.mem_singleton]
    rintro a ha b rfl rfl
    exact hk ha

theorem nodup_extend {es more : Entries α} (h : (keys es).Nodup) : (keys (extend es more)).Nodup := by
  induction more generalizing es with
  | nil => exact h
  | cons p more ih => exact ih (nodup_update h)

theorem nodup_ofList (writes : List (String × α)) : (keys (ofList writes)).Nodup :=
  nodup_extend (by simp)

/-! ### New keys go to the end -/

theorem update_of_notMem {k : String} (f : Option α → α) {es : Entries α} (h : k ∉ keys es) :
    update k f es = es ++ [(k, f none)] := by
  induction es with
  | nil => rfl
  | cons p es ih =>
    obtain ⟨k', v⟩ := p
    simp only [keys_cons, List.mem_cons, not_or] at h
    have hk : ¬ k' = k := fun e => h.1 e.symm
    rw [update, if_neg hk, ih h.2, List.cons_append]

/-- Writes of new keys, each key once, append their entries. -/
theorem foldl_update_eq_append {g : String × α → Option α → α} (hg : ∀ p, g p none = p.2)
    {more : Entries α} (hmore : (keys more).Nodup) {es : Entries α}
    (hnew : ∀ k ∈ keys more, k ∉ keys es) :
    more.foldl (fun acc p => update p.1 (g p) acc) es = es ++ more := by
  induction more generalizing es with
  | nil => simp
  | cons p more ih =>
    obtain ⟨k, v⟩ := p
    rw [keys_cons, List.nodup_cons] at hmore
    have hk : k ∉ keys es := hnew k (by simp)
    rw [List.foldl_cons, update_of_notMem _ hk, hg, ih hmore.2 ?_]
    · simp
    · -- the key just written is none of the later ones
      intro k' hk' hmem
      rw [keys_append, List.mem_append] at hmem
      rcases hmem with hmem | hmem
      · exact hnew k' (by simp [hk']) hmem
      · have : k' = k := by simpa using hmem
        exact hmore.1 (this ▸ hk')

theorem extend_eq_append {es more : Entries α} (hmore : (keys more).Nodup)
    (hnew : ∀ k ∈ keys more, k ∉ keys es) : extend es more = es ++ more :=
  foldl_update_eq_append (g := fun p _ => p.2) (fun _ => rfl) hmore hnew

/-! ### Values after a write -/

theorem find?_update (k k' : String) (f : Option α → α) (es : Entries α) :
    find? k' (update k f es) = if k' = k then some (f (find? k es)) else find? k' es := by
  induction es with
  | nil => simp [update, find?, eq_comm]
  | cons p es ih =>
    obtain ⟨l, v⟩ := p
    by_cases h : l = k
    · by_cases h' : k' = k
      · simp [update, find?, h, h']
      · simp [update, find?, h, h', show ¬ k = k' from fun e => h' e.symm]
    · by_cases h' : k' = k
      · subst h'
        simp [update, find?, h, ih]
      · simp only [update, h, if_false, find?, ih, h']

/-- Two writes to one key are one write. -/
theorem update_update (k : String) (f g : Option α → α) (es : Entries α) :
    update k f (update k g es) = update k (fun old => f (some (g old))) es := by
  induction es with
  | nil => rw [update, update, update, if_pos rfl]
  | cons p es ih =>
    obtain ⟨l, v⟩ := p
    by_cases h : l = k
    · rw [update, if_pos h, update, if_pos h, update, if_pos h]
    · rw [update, if_neg h, update, if_neg h, update, if_neg h, ih]

/-- What an update leaves at a key is an old entry or the new value made from an old one. -/
theorem mem_update {k k' : String} {v : α} {f : Option α → α} {es : Entries α}
    (h : (k', v) ∈ update k f es) :
    (k', v) ∈ es ∨ (k' = k ∧ v = f none) ∨ ∃ old, (k', old) ∈ es ∧ k' = k ∧ v = f (some old) := by
  induction es with
  | nil => simp only [update, List.mem_singleton, Prod.mk.injEq] at h; exact .inr (.inl h)
  | cons p es ih =>
    obtain ⟨l, w⟩ := p
    simp only [update] at h
    split at h
    · -- the write falls on the first entry
      rename_i hl
      rcases List.mem_cons.1 h with h | h
      · simp only [Prod.mk.injEq] at h
        refine .inr (.inr ⟨w, ?_, h.1.trans hl, h.2⟩)
        rw [h.1]; exact List.mem_cons_self
      · exact .inl (List.mem_cons_of_mem _ h)
    · -- the write falls on a later one, or at the end
      rcases List.mem_cons.1 h with h | h
      · rw [h]; exact .inl List.mem_cons_self
      · rcases ih h with h | h | ⟨old, h, h'⟩
        · exact .inl (List.mem_cons_of_mem _ h)
        · exact .inr (.inl h)
        · exact .inr (.inr ⟨old, List.mem_cons_of_mem _ h, h'⟩)

theorem mem_insert {k k' : String} {v w : α} {es : Entries α} (h : (k', v) ∈ insert k w es) :
    (k', v) ∈ es ∨ (k' = k ∧ v = w) := by
  rcases mem_update h with h | h | ⟨_, _, h⟩
  · exact .inl h
  · exact .inr h
  · exact .inr h

theorem mem_extend {k : String} {v : α} {es more : Entries α} (h : (k, v) ∈ extend es more) :
    (k, v) ∈ es ∨ (k, v) ∈ more := by
  induction more generalizing es with
  | nil => exact .inl h
  | cons p more ih =>
    rcases ih h with h | h
    · rcases mem_insert h with h | ⟨h, h'⟩
      · exact .inl h
      · exact .inr (by rw [h, h']; exact List.mem_cons_self)
    · exact .inr (List.mem_cons_of_mem _ h)

theorem mem_of_mem_ofList {k : String} {v : α} {writes : List (String × α)}
    (h : (k, v) ∈ ofList writes) : (k, v) ∈ writes := by
  rcases mem_extend h with h | h
  · cases h
  · exact h

theorem mem_of_find? {k : String} {v : α} {es : Entries α} (h : find? k es = some v) :
    (k, v) ∈ es := by
  induction es with
  | nil => cases h
  | cons p es ih =>
    obtain ⟨l, w⟩ := p
    simp only [find?] at h
    split at h
    · rename_i hl
      cases h
      rw [hl]; exact List.mem_cons_self
    · exact List.mem_cons_of_mem _ (ih h)

/-- A write through a function of the values is a write of the values it takes. -/
theorem update_map_values {f : α → β} {g : Option α → α} {g' : Option β → β}
    (h : ∀ old, g' (old.map f) = f (g old)) (k : String) (es : Entries α) :
    update k g' (es.map fun p => (p.1, f p.2)) = (update k g es).map fun p => (p.1, f p.2) := by
  induction es with
  | nil =>
    have hnone : g' none = f (g none) := h none
    rw [List.map_nil, update, update, hnone, List.map_singleton]
  | cons p es ih =>
    obtain ⟨l, v⟩ := p
    have hsome : g' (some (f v)) = f (g (some v)) := h (some v)
    rw [List.map_cons, update, update, hsome, ih]
    split <;> rfl

/-! ### Look-up -/

theorem find?_eq_none {k : String} {es : Entries α} (h : k ∉ keys es) : find? k es = none := by
  cases hf : find? k es with
  | none => rfl
  | some v => exact absurd (mem_keys_of_mem (mem_of_find? hf)) h

theorem notMem_keys_of_find?_eq_none {k : String} {es : Entries α} (h : find? k es = none) :
    k ∉ keys es := by
  induction es with
  | nil => simp
  | cons p es ih =>
    obtain ⟨l, v⟩ := p
    rw [find?] at h
    split at h
    · cases h
    · rename_i hl
      rw [keys_cons, List.mem_cons, not_or]
      exact ⟨fun hk => hl hk.symm, ih h⟩

/-- Where no key is repeated, what stands at a key is the entry with it. -/
theorem find?_eq_some_iff {k : String} {v : α} {es : Entries α} (hes : (keys es).Nodup) :
    find? k es = some v ↔ (k, v) ∈ es := by
  refine ⟨mem_of_find?, ?_⟩
  induction es with
  | nil => nofun
  | cons p es ih =>
    obtain ⟨l, w⟩ := p
    rw [keys_cons, List.nodup_cons] at hes
    intro h
    rw [find?]
    rcases List.mem_cons.1 h with h | h
    · cases h
      rw [if_pos rfl]
    · -- a later entry has another key
      have hl : l ≠ k := fun hl => hes.1 (hl ▸ mem_keys_of_mem h)
      rw [if_neg hl, ih hes.2 h]

/-- Entries are known from their keys in order and from what stands at each of them. -/
theorem eq_of_find? {es fs : Entries α} (hes : (keys es).Nodup) (hkeys : keys es = keys fs)
    (h : ∀ k ∈ keys es, find? k es = find? k fs) : es = fs := by
  induction es generalizing fs with
  | nil => exact (List.map_eq_nil_iff.1 hkeys.symm).symm
  | cons p es ih =>
    obtain ⟨k, v⟩ := p
    cases fs with
    | nil => cases hkeys
    | cons q fs =>
      obtain ⟨l, w⟩ := q
      rw [keys_cons, List.nodup_cons] at hes
      simp only [keys_cons, List.cons.injEq] at hkeys
      obtain ⟨rfl, hkeys⟩ := hkeys
      have hfirst := h k List.mem_cons_self
      rw [find?, find?, if_pos rfl, if_pos rfl, Option.some_inj] at hfirst
      have hrest : es = fs := by
        refine ih hes.2 hkeys ?_
        intro l hl
        -- the first entry has another key
        have hne : k ≠ l := fun hk => hes.1 (hk ▸ hl)
        have hfind := h l (List.mem_cons_of_mem _ hl)
        rwa [find?, find?, if_neg hne, if_neg hne] at hfind
      rw [hfirst, hrest]

theorem find?_append (k : String) (es fs : Entries α) :
    find? k (es ++ fs) = (find? k es).or (find? k fs) := by
  induction es with
  | nil => rfl
  | cons p es ih =>
    obtain ⟨l, w⟩ := p
    rw [List.cons_append, find?, find?, ih]
    split <;> rfl

theorem find?_map_values (f : String × α → β) (k : String) (es : Entries α) :
    find? k (es.map fun p => (p.1, f p)) = (find? k es).map fun v => f (k, v) := by
  induction es with
  | nil => rfl
  | cons p es ih =>
    obtain ⟨l, w⟩ := p
    rw [List.map_cons, find?, find?, ih]
    split
    · rename_i hl
      obtain rfl : l = k := hl
      rfl
    · rfl

/-- A filter that keeps every entry with some key does not change what stands there. -/
theorem find?_filter {p : String × α → Bool} {k : String} {es : Entries α}
    (hp : ∀ v, (k, v) ∈ es → p (k, v) = true) : find? k (es.filter p) = find? k es := by
  induction es with
  | nil => rfl
  | cons q es ih =>
    obtain ⟨l, w⟩ := q
    have ih' := ih fun v hv => hp v (List.mem_cons_of_mem _ hv)
    by_cases hl : l = k
    · subst hl
      rw [List.filter_cons_of_pos (hp w List.mem_cons_self), find?, find?, if_pos rfl, if_pos rfl]
    · rw [List.filter_cons]
      split
      · rw [find?, find?, if_neg hl, if_neg hl, ih']
      · rw [find?, if_neg hl, ih']

/-- Two related look-ups both find nothing, or two related values. -/
theorem rel_cases {R : α → β → Prop} {x : Option α} {y : Option β} (h : Option.Rel R x y) :
    (x = none ∧ y = none) ∨ ∃ v w, x = some v ∧ y = some w ∧ R v w := by
  cases h with
  | none => exact .inl ⟨rfl, rfl⟩
  | some h => exact .inr ⟨_, _, rfl, rfl, h⟩

/-- Two related look-ups are related in another way, if the values that they find are. -/
theorem rel_imp {R S : α → β → Prop} {x : Option α} {y : Option β} (h : Option.Rel R x y)
    (hRS : ∀ v w, x = some v → y = some w → R v w → S v w) : Option.Rel S x y := by
  cases h with
  | none => exact .none
  | some h => exact .some (hRS _ _ rfl rfl h)

end Entries

end StyleSystem
