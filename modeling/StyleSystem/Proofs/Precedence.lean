import StyleSystem.Proofs.Expansion
import StyleSystem.Style.Shorthand

/-!
# Precedence among keys

Several keys of a style may set one target. The value that an expansion has there is that of the
most specific key with a value, wherever it is declared (`Value.find?_expandEntries`). This is how
`pl` stands over `px`, since both set `paddingLeft`.

The shorthand for all sides sets another target than the keys for one side or one axis, so here the
order decides which of them a side takes its value from. `BoxProperty.sideValue?_expand` says what
comes out: the value of the most specific key, as long as the shorthand for all sides comes first
among the keys that set the side. Where it comes later it stands over all of them, against the
documented precedence (`BoxProperty.sideValue?_expand_ne`).
-/

namespace StyleSystem

open Entries

namespace Value

/-- **Precedence.** The keys that set a target, the most specific first: the target has the value of
the first of them that has one. -/
theorem find?_expandEntries {es : Entries Value} (hes : (keys es).Nodup) {t : String}
    {setters : List String}
    (hsetters : ∀ key, t ∈ (Shorthand.ofKey key).targets ↔ key ∈ setters)
    (horder : setters.Pairwise fun k l =>
      (Shorthand.ofKey l).specificity < (Shorthand.ofKey k).specificity) :
    find? t (expandEntries es) = setters.findSome? fun key => present? key es := by
  cases hwin : setters.findSome? fun key => present? key es with
  | none =>
    -- no key with a value sets the target
    apply find?_eq_none
    rw [mem_keys_expandEntries]
    rintro ⟨p, hp, hset⟩
    obtain ⟨hn, ht⟩ := mem_setTargets.1 hset
    have hnone := List.findSome?_eq_none_iff.1 hwin p.1 ((hsetters p.1).1 ht)
    rw [(present?_eq_some_iff hes).2 ⟨hp, hn⟩] at hnone
    cases hnone
  | some v =>
    obtain ⟨before, key, after, hsplit, hkey, hbefore⟩ := List.findSome?_eq_some_iff.1 hwin
    obtain ⟨hmem, hn⟩ := (present?_eq_some_iff hes).1 hkey
    have ht : key ∈ setters := by rw [hsplit]; simp
    rw [hsplit, List.pairwise_append, List.pairwise_cons] at horder
    -- every other entry that sets the target has a less specific key
    have hother : ∀ p ∈ es, t ∈ setTargets p → p = (key, v) ∨ specificity p < specificity (key, v) := by
      intro p hp hset
      obtain ⟨hn', ht'⟩ := mem_setTargets.1 hset
      have hpresent : present? p.1 es = some p.2 := (present?_eq_some_iff hes).2 ⟨hp, hn'⟩
      have hkey' : p.1 ∈ setters := (hsetters p.1).1 ht'
      rw [hsplit, List.mem_append, List.mem_cons] at hkey'
      rcases hkey' with hkey' | hkey' | hkey'
      · rw [hbefore p.1 hkey'] at hpresent
        cases hpresent
      · rw [hkey', hkey, Option.some_inj] at hpresent
        exact .inl (Prod.ext hkey' hpresent.symm)
      · exact .inr (horder.2.1.1 p.1 hkey')
    exact find?_expandEntries_of_prevails
      (prevails_of_mem hes hmem (mem_setTargets.2 ⟨hn, (hsetters key).2 ht⟩) hother)

end Value

/-! ### Keys that set a side -/

namespace BoxProperty

variable (b : BoxProperty) (s : Side)

theorem name_ne_longhand : b.name ≠ b.longhand s := by cases b <;> cases s <;> decide

/-- The property for one side is a target of the keys for the side and its axis. -/
theorem longhand_mem_targets_iff (key : String) :
    b.longhand s ∈ (Shorthand.ofKey key).targets ↔ key ∈ b.sideKeys s := by
  have htable : ∀ sh ∈ Shorthand.table, b.longhand s ∈ sh.targets → sh.key ∈ b.sideKeys s := by
    cases b <;> cases s <;> decide
  constructor
  · intro h
    rcases Shorthand.ofKey_cases key with hsh | ⟨-, hsh⟩
    · have hmem := htable _ hsh h
      rwa [Shorthand.key_ofKey] at hmem
    · rw [hsh, List.mem_singleton] at h
      rw [← h]
      exact List.mem_cons_self
  · intro h
    simp only [sideKeys, List.mem_cons, List.not_mem_nil, or_false] at h
    rcases h with rfl | rfl | rfl <;> cases b <;> cases s <;> decide

/-- The property for all sides is a target of itself and of the shorthand for all sides. -/
theorem name_mem_targets_iff (key : String) :
    b.name ∈ (Shorthand.ofKey key).targets ↔ key ∈ [b.name, b.letter] := by
  have htable : ∀ sh ∈ Shorthand.table, b.name ∈ sh.targets → sh.key ∈ [b.name, b.letter] := by
    cases b <;> decide
  constructor
  · intro h
    rcases Shorthand.ofKey_cases key with hsh | ⟨-, hsh⟩
    · have hmem := htable _ hsh h
      rwa [Shorthand.key_ofKey] at hmem
    · rw [hsh, List.mem_singleton] at h
      rw [← h]
      exact List.mem_cons_self
  · intro h
    simp only [List.mem_cons, List.not_mem_nil, or_false] at h
    rcases h with rfl | rfl <;> cases b <;> decide

/-- What a key sets a side by: the property for all sides or the one for the side. -/
theorem find?_sets_targets {key : String} (hkey : key ≠ b.name) :
    (Shorthand.ofKey key).targets.find? (b.sets s) =
      if key = b.letter then some b.name
      else if key ∈ b.covering s then some (b.longhand s) else none := by
  by_cases hletter : key = b.letter
  · rw [if_pos hletter, hletter]
    cases b <;> cases s <;> decide
  · rw [if_neg hletter]
    by_cases hcover : key ∈ b.covering s
    · rw [if_pos hcover]
      simp only [covering, sideKeys, List.mem_append, List.mem_cons, List.not_mem_nil, or_false,
        hletter] at hcover
      rcases hcover with rfl | rfl | rfl <;> cases b <;> cases s <;> decide
    · rw [if_neg hcover, List.find?_eq_none]
      intro t ht hsets
      simp only [sets, Bool.or_eq_true, decide_eq_true_eq] at hsets
      rcases hsets with rfl | rfl
      · have hmem := (b.name_mem_targets_iff key).1 ht
        simp [hkey, hletter] at hmem
      · exact hcover (List.mem_append_left _ ((b.longhand_mem_targets_iff s key).1 ht))

variable {b s} {es : Entries Value}

/-! ### Values of an expansion -/

theorem find?_longhand_expandEntries (hes : (keys es).Nodup) :
    find? (b.longhand s) (Value.expandEntries es) =
      (b.sideKeys s).findSome? fun key => present? key es :=
  Value.find?_expandEntries hes (b.longhand_mem_targets_iff s)
    (by cases b <;> cases s <;> decide)

theorem find?_name_expandEntries (hes : (keys es).Nodup) (hname : b.name ∉ keys es) :
    find? b.name (Value.expandEntries es) = present? b.letter es := by
  have hnone : present? b.name es = none := by rw [present?, find?_eq_none hname]; rfl
  rw [Value.find?_expandEntries hes b.name_mem_targets_iff (by cases b <;> decide)]
  simp only [List.findSome?_cons, hnone, List.findSome?_nil]
  cases present? b.letter es <;> rfl

theorem precedent?_eq (es : Entries Value) :
    b.precedent? s es =
      ((b.sideKeys s).findSome? fun key => present? key es).or (present? b.letter es) := by
  rw [precedent?, covering, List.findSome?_append, List.findSome?_singleton]

/-! ### The order of an expansion -/

/-- The first property that sets a side is the one for all sides if the first key is. -/
theorem find?_sets_expandEntries (hname : b.name ∉ keys es) :
    (keys (Value.expandEntries es)).find? (b.sets s) = some b.name ↔
      b.firstCovering? s es = some b.letter := by
  rw [Value.keys_expandEntries_eq_setTargets, find?_eraseDups]
  induction es with
  | nil => simp [firstCovering?]
  | cons p es ih =>
    obtain ⟨key, v⟩ := p
    rw [keys_cons, List.mem_cons, not_or] at hname
    have ih := ih hname.2
    rw [firstCovering?] at ih ⊢
    rw [List.flatMap_cons, List.find?_append, List.find?_cons, Value.setTargets]
    cases hn : v.isNull with
    | true => simpa [hn] using ih
    | false =>
      rw [if_neg Bool.false_ne_true, find?_sets_targets b s (Ne.symm hname.1)]
      by_cases hletter : key = b.letter
      · simp [hletter, covering]
      · by_cases hcover : key ∈ b.covering s
        · simp [hletter, hcover, (b.name_ne_longhand s).symm]
        · simpa [hletter, hcover] using ih

/-! ### The value of a side -/

/-- Where one property sets a side, the side has its value. -/
theorem sideValue?_of_single {property : String} (hset : b.sets s property = true)
    (hes : (keys es).Nodup) (honly : ∀ k ∈ keys es, b.sets s k = true → k = property) :
    b.sideValue? s es = find? property es := by
  induction es with
  | nil => rfl
  | cons p es ih =>
    obtain ⟨k, v⟩ := p
    rw [keys_cons, List.nodup_cons] at hes
    rw [sideValue?, find?, ih hes.2 fun l hl => honly l (List.mem_cons_of_mem _ hl)]
    by_cases hk : k = property
    · subst hk
      rw [find?_eq_none hes.1, if_pos hset, if_pos rfl, Option.none_or]
    · have hnot : ¬ b.sets s k = true := fun h => hk (honly k List.mem_cons_self h)
      rw [if_neg hnot, if_neg hk, Option.or_none]

theorem sets_iff {property : String} :
    b.sets s property = true ↔ property = b.name ∨ property = b.longhand s := by
  simp [sets]

/-- **The value of a side** is that of the one of its two properties that comes later. -/
theorem sideValue?_eq (hes : (keys es).Nodup) :
    b.sideValue? s es =
      if (keys es).find? (b.sets s) = some b.name then
        (find? (b.longhand s) es).or (find? b.name es)
      else (find? b.name es).or (find? (b.longhand s) es) := by
  have hne := b.name_ne_longhand s
  induction es with
  | nil => rfl
  | cons p es ih =>
    obtain ⟨k, v⟩ := p
    rw [keys_cons, List.nodup_cons] at hes
    rw [sideValue?, keys_cons, List.find?_cons, find?, find?]
    by_cases hname : k = b.name
    · -- the property for all sides comes first
      subst hname
      have hset : b.sets s b.name = true := sets_iff.2 (.inl rfl)
      have hrest : b.sideValue? s es = find? (b.longhand s) es := by
        refine sideValue?_of_single (sets_iff.2 (.inr rfl)) hes.2 ?_
        intro l hl hsets
        exact (sets_iff.1 hsets).resolve_left fun h => hes.1 (h ▸ hl)
      simp only [hset, if_true, hrest, if_neg hne]
    · by_cases hlong : k = b.longhand s
      · -- the property for the side comes first
        subst hlong
        have hset : b.sets s (b.longhand s) = true := sets_iff.2 (.inr rfl)
        have hrest : b.sideValue? s es = find? b.name es := by
          refine sideValue?_of_single (sets_iff.2 (.inl rfl)) hes.2 ?_
          intro l hl hsets
          exact (sets_iff.1 hsets).resolve_right fun h => hes.1 (h ▸ hl)
        simp only [hset, if_true, hrest, if_neg hname, Option.some.injEq]
      · have hset : b.sets s k = false := by simp [sets, hname, hlong]
        simp only [hset, if_neg hname, if_neg hlong, Bool.false_eq_true, if_false, Option.or_none]
        exact ih hes.2

/-- The value of a side after an expansion, by where the shorthand for all sides stands. -/
theorem sideValue?_expandEntries (hes : (keys es).Nodup) (hname : b.name ∉ keys es) :
    b.sideValue? s (Value.expandEntries es) =
      if b.lateForSide s es then present? b.letter es else b.precedent? s es := by
  have hfirst := find?_sets_expandEntries (s := s) hname
  rw [sideValue?_eq (Value.nodup_expandEntries es), find?_longhand_expandEntries hes,
    find?_name_expandEntries hes hname, precedent?_eq, lateForSide]
  by_cases hfc : b.firstCovering? s es = some b.letter
  · rw [if_pos (hfirst.2 hfc)]
    simp [hfc]
  · rw [if_neg (mt hfirst.1 hfc)]
    cases hletter : present? b.letter es with
    | none => simp
    | some v => simp [hfc]

/-- **The value of a side of a box** in a style that does not name the property itself. It is the
value of the most specific key that sets the side, unless the shorthand for all sides comes after
another key that sets the side: then it is the value of that shorthand. -/
theorem sideValue?_expand (b : BoxProperty) (s : Side) (style : Style)
    (hname : style.find? b.name = none) :
    b.sideValue? s style.expand.entries =
      if b.lateForSide s style.entries then present? b.letter style.entries
      else b.precedent? s style.entries := by
  refine sideValue?_expandEntries style.distinct.1 ?_
  intro hmem
  obtain ⟨v, hv⟩ := exists_mem_of_mem_keys hmem
  rw [Style.find?, (find?_eq_some_iff style.distinct.1).2 hv] at hname
  cases hname

/-- A margin with the shorthand for all sides before those that are more specific. -/
def margins : Style :=
  .ofEntries [("py", .number (.int 1)), ("mx", .null), ("m", .number (.int 2)),
    ("marginTop", .string "auto"), ("ml", .number (.int 3)), ("my", .number (.int 4))]

theorem sideValue?_expand_margins :
    margins.find? margin.name = none ∧
      margin.sideValue? .left margins.expand.entries = some (.number (.int 3)) := by
  have hname : margins.find? margin.name = none := by decide +kernel
  refine ⟨hname, ?_⟩
  rw [sideValue?_expand margin .left margins hname]
  decide +kernel

/-- The shorthand for all sides after the one for one side. -/
def latePadding : Style := .ofEntries [("pl", .number (.int 1)), ("p", .number (.int 2))]

/-- **Precedence depends on the order of keys.** The shorthand for all sides takes a side from a
more specific key that it follows. -/
theorem sideValue?_expand_ne :
    latePadding.find? padding.name = none ∧
      padding.sideValue? .left latePadding.expand.entries = some (.number (.int 2)) ∧
      padding.precedent? .left latePadding.entries = some (.number (.int 1)) := by
  decide +kernel

end BoxProperty

end StyleSystem
