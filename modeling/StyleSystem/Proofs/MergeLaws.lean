import StyleSystem.Proofs.Leaves
import StyleSystem.Proofs.Level
import StyleSystem.Proofs.MergeByKey
import StyleSystem.Style.Path

/-!
# Laws of merging

A merge of styles is not quite associative and not quite commutative. These are the conditions under
which the order of layers makes no difference, and one law that needs none.

* `merge_assoc` — three layers, if the middle one undoes nothing.
* `repeated_layers` — a sequence of layers a second time.
* `resolve_pair_comm` — two layers in either order, if they nowhere say different things.
-/

namespace StyleSystem

/-!
## Three layers

Of three styles merged one over the other it makes no difference which two are merged first, unless
the one in the middle undoes something: it has a plain value where the other two have objects
(`Style.Interrupts`). From left to right that value replaces the object of the first style and is
replaced by the one of the third. With the last two merged first it is gone before it meets the first
style, and the two objects are merged.

Where the middle style does no such thing the two merges are equal, key order included
(`merge_assoc`). Both sides have their keys in the order in which the three styles first have them.
The values are compared key by key: unless all three styles have an object at a key the newest plain
value, or the only value, decides on both sides (`Value.onto_onto`), and three objects lead one level
down.
-/

open Entries

/-- **A plain value between two objects:** it stands on a path that leads to objects in the value
below and in the one above. -/
def Value.Interrupts (v below above : Value) : Prop :=
  ∃ path, below.hasObject path = true ∧ v.hasPlain path = true ∧ above.hasObject path = true

/-- A style that has a plain value where the styles below and above have objects. -/
def Style.Interrupts (s below above : Style) : Prop :=
  s.toValue.Interrupts below.toValue above.toValue

namespace Value

theorem interrupts_iff_exists_mem {v below above : Value} :
    v.Interrupts below above ↔ ∃ path ∈ v.paths,
      below.hasObject path = true ∧ v.hasPlain path = true ∧ above.hasObject path = true := by
  constructor
  · rintro ⟨path, hbelow, hv, habove⟩
    exact ⟨path, mem_paths (lookup?_isSome_of_hasPlain hv), hbelow, hv, habove⟩
  · rintro ⟨path, -, h⟩
    exact ⟨path, h⟩

instance (v below above : Value) : Decidable (v.Interrupts below above) :=
  decidable_of_iff _ interrupts_iff_exists_mem.symm

instance (s below above : Style) : Decidable (s.Interrupts below above) :=
  inferInstanceAs (Decidable (s.toValue.Interrupts below.toValue above.toValue))

/-! ### One key -/

variable {u v w : Value}

theorem interrupts_of_plain (hu : u.isObject = true) (hv : v.isObject = false)
    (hw : w.isObject = true) : v.Interrupts u w := by
  refine ⟨[], ?_⟩
  simp [hasObject, hasPlain, hu, hv, hw]

/-- An interruption at a key is one of the objects with the key. -/
theorem Interrupts.of_find? {as bs cs : Entries Value} {k : String} (hu : find? k as = some u)
    (hv : find? k bs = some v) (hw : find? k cs = some w) (h : v.Interrupts u w) :
    (object bs).Interrupts (object as) (object cs) := by
  obtain ⟨path, h⟩ := h
  refine ⟨k :: path, ?_⟩
  unfold hasObject hasPlain at h ⊢
  simpa only [lookup?_cons_object, hu, hv, hw, Option.bind_some] using h

/-- **Three values at one key.** If the one in the middle does not interrupt, it may be written onto
the first one, or the third one onto it. Three objects are left to their keys. -/
theorem onto_onto (h : ¬ v.Interrupts u w)
    (ih : ∀ as bs cs, u = object as → v = object bs → w = object cs →
      mergeEntries (mergeEntries as bs) cs = mergeEntries as (mergeEntries bs cs)) :
    onto w (some (onto v (some u))) = onto (onto w (some v)) (some u) := by
  cases hw : w.isObject with
  | false =>
    -- a plain value on top stands on both sides
    rw [onto_plain hw, onto_plain hw, onto_plain hw]
  | true =>
    cases hv : v.isObject with
    | false =>
      -- over a plain value the object on top stands alone, so it must not meet another one
      have hu : u.isObject = false := by
        by_contra hu
        exact h (interrupts_of_plain (by simpa using hu) hv hw)
      rw [onto_plain hv, onto_of_not_isObject w hv, onto_of_not_isObject w hu]
    | true =>
      obtain ⟨bs, rfl⟩ := exists_entries_of_isObject hv
      obtain ⟨cs, rfl⟩ := exists_entries_of_isObject hw
      cases hu : u.isObject with
      | false =>
        rw [onto_of_not_isObject _ hu, onto_object_object, onto_of_not_isObject _ hu]
      | true =>
        obtain ⟨as, rfl⟩ := exists_entries_of_isObject hu
        rw [onto_object_object, onto_object_object, onto_object_object, onto_object_object,
          ih as bs cs rfl rfl rfl]

/-- Each of the three may be missing. A missing value leaves two, and nothing to choose. -/
theorem written_written_toList {x y z : Option Value}
    (h : ∀ u v w, x = some u → y = some v → z = some w →
      onto w (some (onto v (some u))) = onto (onto w (some v)) (some u)) :
    written (written x y.toList) z.toList = written x (written y z.toList).toList := by
  cases z with
  | none => rw [Option.toList_none, written_nil, written_nil]
  | some w =>
    cases y with
    | none => rw [Option.toList_none, written_nil, written_toList]
    | some v =>
      cases x with
      | none => simp
      | some u => simp [h u v w rfl rfl rfl]

/-! ### All keys -/

/-- **Three objects.** -/
theorem mergeEntries_assoc (as bs cs : Entries Value) (has : DistinctEntries as)
    (hbs : DistinctEntries bs) (hcs : DistinctEntries cs)
    (h : ¬ (object bs).Interrupts (object as) (object cs)) :
    mergeEntries (mergeEntries as bs) cs = mergeEntries as (mergeEntries bs cs) := by
  -- the induction goes into the objects of the third one, at keys which all of them have
  induction cs using nestedInduction generalizing as bs with
  | step cs ih =>
    have hleft := nodup_mergeEntries has.1 bs
    have hright := nodup_mergeEntries hbs.1 cs
    have hkeys : keys (mergeEntries (mergeEntries as bs) cs) =
        keys (mergeEntries as (mergeEntries bs cs)) := by
      rw [keys_mergeEntries hleft, keys_mergeEntries has.1, keys_mergeEntries has.1,
        keys_mergeEntries hbs.1, eraseDups_eraseDups_append, eraseDups_append_eraseDups,
        List.append_assoc]
    refine eq_of_find? (nodup_mergeEntries hleft cs) hkeys ?_
    intro k _
    rw [find?_mergeEntries_of_nodup hcs.1, find?_mergeEntries_of_nodup hbs.1,
      find?_mergeEntries_of_nodup hright, find?_mergeEntries_of_nodup hcs.1]
    apply written_written_toList
    intro u v w hu hv hw
    have hinside : ¬ v.Interrupts u w := fun hi => h (hi.of_find? hu hv hw)
    apply onto_onto hinside
    rintro as' bs' cs' rfl rfl rfl
    have has' : DistinctEntries as' := distinct_object.1 (has.2 _ (mem_of_find? hu))
    have hbs' : DistinctEntries bs' := distinct_object.1 (hbs.2 _ (mem_of_find? hv))
    have hcs' : DistinctEntries cs' := distinct_object.1 (hcs.2 _ (mem_of_find? hw))
    exact ih k cs' (mem_of_find? hw) as' bs' has' hbs' hcs' hinside

end Value

/-- **Merging is associative** where the middle style does not interrupt: three styles give the same
whichever two are merged first, key order at every level included. -/
theorem merge_assoc {a b c : Style} (h : ¬ b.Interrupts a c) :
    (a.merge b).merge c = a.merge (b.merge c) :=
  Style.ext (Value.mergeEntries_assoc _ _ _ a.distinct b.distinct c.distinct h)

/-- The lowest of three layers of a button. -/
def buttonBase : Style :=
  .ofEntries [("color", .string "red"), ("&:hover", .object [("color", .string "blue")]),
    ("width", .object [("md", .number (.int 1))])]

/-- The layer in the middle. It has a plain value over an object, and an object over a plain value,
but not between two objects. -/
def buttonSize : Style :=
  .ofEntries [("&:hover", .object [("margin", .number (.int 2)), ("color", .object [])]),
    ("width", .string "auto"), ("height", .number (.int 3))]

/-- The highest layer. -/
def buttonState : Style :=
  .ofEntries [("left", .null), ("&:hover", .object [("color", .string "grey"), ("top", .null)]),
    ("height", .object [("sm", .string "auto")])]

theorem merge_assoc_button :
    ¬ buttonSize.Interrupts buttonBase buttonState ∧
      (buttonBase.merge buttonSize).merge buttonState =
        buttonBase.merge (buttonSize.merge buttonState) := by
  have h : ¬ buttonSize.Interrupts buttonBase buttonState := by decide +kernel
  exact ⟨h, merge_assoc h⟩

-- A plain value between two objects keeps them apart only if it meets the lower one first.
example :
    let a := Style.ofEntries [("width", .object [("xs", .number (.int 1))])]
    let b := Style.ofEntries [("width", .string "auto")]
    let c := Style.ofEntries [("width", .object [("md", .number (.int 2))])]
    b.Interrupts a c ∧ (a.merge b).merge c ≠ a.merge (b.merge c) := by decide +kernel

/-!
## Repeated layers

Merging a sequence of styles a second time changes nothing, and a specification that stands twice in
a list resolves as it does alone (`repeated_layers`). This is more than saying so of a single style.
Merging is not associative, because a plain value discards the object that it replaces: in
`a: (b: 1)`, `a: 2`, `a: (c: 3)` the second style undoes what the first one did. So a sequence
cannot be treated style by style.

It can be treated key by key. A second run over the values that a sequence has for a key starts from
what the first run left there (`Value.written_written`).

* If one of them is plain, both runs end in what the values behind it leave.
* If all of them are objects, the first run leaves an object, and the second one merges the contents
  of all of them into it once more. They are a smaller sequence of entries, and this is where the
  induction goes.
-/

namespace Value

/-! ### What is in the values for a key -/

/-- The contents of the values for a key are smaller than the entries that hold them. -/
theorem sizeOf_contents_valuesAt (k : String) (es : Entries Value) :
    sizeOf ((valuesAt k es).flatMap contents) + es.length ≤ sizeOf es := by
  induction es with
  | nil => simp
  | cons p es ih =>
    obtain ⟨l, v⟩ := p
    have hv := sizeOf_contents_le v
    rw [valuesAt_cons]
    simp only [List.cons.sizeOf_spec, Prod.mk.sizeOf_spec, List.length_cons]
    split
    · have hsplit := sizeOf_append v.contents ((valuesAt k es).flatMap contents)
      rw [List.flatMap_cons]
      omega
    · omega

theorem sizeOf_contents_valuesAt_lt {k : String} {es : Entries Value} (h : valuesAt k es ≠ []) :
    sizeOf ((valuesAt k es).flatMap contents) < sizeOf es := by
  have hle := sizeOf_contents_valuesAt k es
  have hne : es ≠ [] := by
    rintro rfl
    exact h rfl
  have hlength := List.length_pos_iff.2 hne
  omega

theorem distinct_contents_of_mem {vs : List Value} (h : ∀ v ∈ vs, v.Distinct) :
    ∀ p ∈ vs.flatMap contents, p.2.Distinct := by
  intro p hp
  obtain ⟨v, hv, hp⟩ := List.mem_flatMap.1 hp
  exact (distinct_contents (h v hv)).2 p hp

/-! ### The second run -/

/-- **One key.** Writing the same values again changes nothing, if that holds of merging what is in
them. -/
theorem written_written {vs : List Value} (hvs : ∀ v ∈ vs, v.Distinct) {old : Option Value}
    (hold : ∀ w, old = some w → w.Distinct)
    (ih : ∀ fs : Entries Value, DistinctEntries fs →
      mergeEntries (mergeEntries fs (vs.flatMap contents)) (vs.flatMap contents) =
        mergeEntries fs (vs.flatMap contents)) :
    written (written old vs) vs = written old vs := by
  by_cases hplain : ∃ v ∈ vs, v.isObject = false
  · -- from the plain value on, the two runs are the same
    obtain ⟨v, hv, hobj⟩ := hplain
    obtain ⟨before, after, rfl⟩ := List.append_of_mem hv
    rw [written_of_plain hobj, written_of_plain hobj]
  · have hobjects : ∀ v ∈ vs, v.isObject = true := by
      intro v hv
      by_contra hobj
      exact hplain ⟨v, hv, by simpa using hobj⟩
    by_cases hne : vs = []
    · rw [hne, written_nil, written_nil]
    by_cases hobject : ∃ fs, old = some (object fs)
    · obtain ⟨fs, rfl⟩ := hobject
      have hfs : DistinctEntries fs := distinct_object.1 (hold _ rfl)
      -- all values go into the object that is there
      rw [written_of_objects hobjects, written_of_objects hobjects, ih fs hfs]
    · -- what stood there is lost, and the first object takes its place
      have hnone : ∀ fs, old ≠ some (object fs) := fun fs h => hobject ⟨fs, h⟩
      have hnil : DistinctEntries [] := ⟨List.nodup_nil, nofun⟩
      have hkeys : ∀ v ∈ vs, (keys v.contents).Nodup := fun v hv => (distinct_contents (hvs v hv)).1
      rw [written_of_not_object hobjects hkeys hne hnone, written_of_objects hobjects, ih [] hnil]

/-- **Merging entries twice** is merging them once. -/
theorem mergeEntries_mergeEntries (source : Entries Value) (hs : ∀ p ∈ source, p.2.Distinct)
    (target : Entries Value) (ht : DistinctEntries target) :
    mergeEntries (mergeEntries target source) source = mergeEntries target source := by
  induction source using sizeInduction generalizing target with
  | step source ih =>
    have hmerge := nodup_mergeEntries ht.1 source
    have hkeys : keys (mergeEntries (mergeEntries target source) source) =
        keys (mergeEntries target source) := by
      calc keys (mergeEntries (mergeEntries target source) source)
          = ((keys target ++ keys source).eraseDups ++ keys source).eraseDups := by
            rw [keys_mergeEntries hmerge, keys_mergeEntries ht.1]
        _ = (keys target ++ keys source).eraseDups := by
            rw [eraseDups_eraseDups_append]
            exact eraseDups_append_of_subset (List.subset_append_right _ _)
        _ = keys (mergeEntries target source) := by rw [keys_mergeEntries ht.1]
    -- the second run finds all keys in place, and only values are left to compare
    refine eq_of_find? (nodup_mergeEntries hmerge source) hkeys ?_
    intro k _
    rw [find?_mergeEntries_eq_written, find?_mergeEntries_eq_written]
    by_cases hnil : valuesAt k source = []
    · rw [hnil, written_nil]
    have hvalues : ∀ v ∈ valuesAt k source, v.Distinct := fun v hv => hs _ (mem_valuesAt.1 hv)
    refine written_written hvalues ?_ ?_
    · intro w hw
      exact ht.2 _ (mem_of_find? hw)
    · intro fs hfs
      exact ih _ (sizeOf_contents_valuesAt_lt hnil) (distinct_contents_of_mem hvalues) fs hfs

end Value

/-! ### Sequences of styles -/

theorem Style.mergeAll_mergeAll (base : Style) (overlays : List Style) :
    (base.mergeAll overlays).mergeAll overlays = base.mergeAll overlays := by
  have hdistinct : ∀ p ∈ overlays.flatMap entries, p.2.Distinct := by
    intro p hp
    obtain ⟨s, -, hp⟩ := List.mem_flatMap.1 hp
    exact s.distinct.2 p hp
  apply Style.ext
  rw [entries_mergeAll, entries_mergeAll]
  exact Value.mergeEntries_mergeEntries _ hdistinct _ base.distinct

/-- **Repeating a layer is harmless.** A sequence of styles merged twice is the sequence merged once,
key order included, and so a list of a specification twice resolves as the specification does, or
fails as it does, whatever the functions of the theme give. -/
theorem repeated_layers {F : Type} (call : Calls F) (θ : Theme) :
    (∀ (base : Style) (overlays : List Style),
      (base.mergeAll overlays).mergeAll overlays = base.mergeAll overlays) ∧
    ∀ s : SpecOver F, (SpecOver.list [s, s]).resolve call θ = s.resolve call θ := by
  refine ⟨Style.mergeAll_mergeAll, ?_⟩
  intro s
  have hleaves : (SpecOver.list [s, s]).leaves call θ = s.leaves call θ ++ s.leaves call θ := by
    simp [SpecOver.leaves_list]
  rw [SpecOver.resolve_eq_foldlM, SpecOver.resolve_eq_foldlM, hleaves]
  rcases exists_first_error_or_ok (s.leaves call θ) with ⟨styles, e, rest, hs⟩ | ⟨styles, hs⟩
  · -- the first of the two fails, and the second one is not reached
    rw [hs, List.append_assoc, List.cons_append, SpecOver.foldlM_mergeLeaf_error,
      SpecOver.foldlM_mergeLeaf_error]
  · -- no failure: the normal forms are merged twice
    rw [hs, ← List.map_append, SpecOver.foldlM_mergeLeaf_ok, SpecOver.foldlM_mergeLeaf_ok,
      List.map_append]
    refine congrArg Except.ok ?_
    unfold Style.mergeAll
    rw [List.foldl_append]
    exact Style.mergeAll_mergeAll .empty _

/-!
## Layers in either order

The later of two layers wins where both say something. If nowhere they say different things, there is
nothing to win, and the order of the layers decides about the order of the keys alone
(`resolve_pair_comm`). It is not required that the layers have different keys: they may agree on plain
values and share blocks at any depth.

The condition is one on the styles that the layers resolve to, each by itself. It need not be more,
since a layer is normalized before it meets the other one. So the statement is one on merging
(`Value.Compatible.onto_comm`): at a key that only one of two objects has, both merges have its
value, and at a key of both they merge values that are again without a conflict.
-/

namespace Value

theorem Compatible.isObject_or_eq {v w : Value} (h : Compatible v w) :
    v.isObject = true ∧ w.isObject = true ∨ v.isObject = false ∧ v = w :=
  h [] v w (lookup?_nil v) (lookup?_nil w)

/-- **Two values without a conflict** make the same mapping whichever is written onto the other. -/
theorem Compatible.onto_comm {v w : Value} (h : Compatible v w) (hv : v.Distinct) (hw : w.Distinct) :
    SameMapping (onto v (some w)) (onto w (some v)) := by
  rcases h.isObject_or_eq with ⟨hvo, hwo⟩ | ⟨-, rfl⟩
  · obtain ⟨es, rfl⟩ := exists_entries_of_isObject hvo
    obtain ⟨fs, rfl⟩ := exists_entries_of_isObject hwo
    have hes : DistinctEntries es := distinct_object.1 hv
    have hfs : DistinctEntries fs := distinct_object.1 hw
    rw [onto_object_object, onto_object_object, sameMapping_object_iff]
    intro k
    rw [find?_mergeEntries_of_nodup hes.1, find?_mergeEntries_of_nodup hfs.1]
    cases hx : find? k es with
    | none =>
      -- the key is one of the second object, if of any
      rw [Option.toList_none, written_nil, written_toList]
      cases find? k fs with
      | none => exact .none
      | some y => exact .some (.refl y)
    | some x =>
      cases hy : find? k fs with
      | none =>
        rw [Option.toList_none, written_nil, written_toList]
        exact .some (.refl x)
      | some y =>
        have hmem : (k, x) ∈ es := mem_of_find? hx
        have hlt : sizeOf x < sizeOf (object es) :=
          Nat.lt_trans (sizeOf_lt_of_mem hmem) (sizeOf_lt_object es)
        have hinside : Compatible x y := h.inside hx hy
        exact .some (Compatible.onto_comm hinside (hes.2 _ hmem) (hfs.2 _ (mem_of_find? hy)))
  · -- equal plain values
    exact .refl _
termination_by sizeOf v

end Value

theorem Style.Compatible.merge_comm {r q : Style} (h : r.Compatible q) :
    (r.merge q).SameMapping (q.merge r) := by
  have hr : r.toValue.Distinct := Value.distinct_object.2 r.distinct
  have hq : q.toValue.Distinct := Value.distinct_object.2 q.distinct
  have hcomm := (h.onto_comm hr hq).symm
  rwa [toValue, toValue, Value.onto_object_object, Value.onto_object_object] at hcomm

/-- Two layers resolve to the merge of what each of them resolves to. -/
theorem resolve_pair {F : Type} {call : Calls F} {θ : Theme} {s t r q : Style}
    (hs : (SpecOver.object s).resolve call θ = .ok r)
    (ht : (SpecOver.object t).resolve call θ = .ok q) :
    (SpecOver.list [.object s, .object t]).resolve call θ = .ok (r.merge q) := by
  rw [SpecOver.resolve_object, Except.ok.injEq] at hs ht
  have hmerge : Style.empty.mergeAll [r, q] = r.merge q := by
    unfold Style.mergeAll
    rw [List.foldl_cons, List.foldl_cons, List.foldl_nil, Style.empty_merge]
  calc (SpecOver.list [.object s, .object t]).resolve call θ
      = .ok (Style.empty.mergeAll [s.normalize θ, t.normalize θ]) :=
        SpecOver.resolve_list_object [s, t] call θ
    _ = .ok (r.merge q) := by rw [hs, ht, hmerge]

/-- **Independent layers commute.** Two styles whose resolved styles are without a conflict resolve
to the same mapping in either order. -/
theorem resolve_pair_comm {F : Type} (call : Calls F) (θ : Theme) {s t r q : Style}
    (hs : (SpecOver.object s).resolve call θ = .ok r)
    (ht : (SpecOver.object t).resolve call θ = .ok q) (h : r.Compatible q) :
    ∃ st ts, (SpecOver.list [.object s, .object t]).resolve call θ = .ok st ∧
      (SpecOver.list [.object t, .object s]).resolve call θ = .ok ts ∧ st.SameMapping ts :=
  ⟨r.merge q, q.merge r, resolve_pair hs ht, resolve_pair ht hs, h.merge_comm⟩

/-- A layer with a block for larger viewports and a hover state. -/
def sizeLayer : Style :=
  .ofEntries [("width", .object [("md", .number (.int 400)), ("xs", .string "100%")]),
    ("&:hover", .object [("bg", .string "primary"), ("top", .number (.int 1))])]

/-- A layer that has its own values in both of them, and one that the other layer has too. -/
def colorLayer : Style :=
  .ofEntries [("&:hover", .object [("color", .string "red"), ("backgroundColor", .string "primary")]),
    ("md", .object [("color", .string "blue"), ("width", .string "400px")])]

theorem resolve_pair_comm_layers :
    ∃ r q, (SpecOver.object sizeLayer).resolve ThemeFunction.call .default = .ok r ∧
      (SpecOver.object colorLayer).resolve ThemeFunction.call .default = .ok q ∧ r.Compatible q ∧
      ∃ st ts,
        (SpecOver.list [.object sizeLayer, .object colorLayer]).resolve ThemeFunction.call
          .default = .ok st ∧
        (SpecOver.list [.object colorLayer, .object sizeLayer]).resolve ThemeFunction.call
          .default = .ok ts ∧
        st.SameMapping ts := by
  have hsize := SpecOver.resolve_object sizeLayer ThemeFunction.call .default
  have hcolor := SpecOver.resolve_object colorLayer ThemeFunction.call .default
  have h : (sizeLayer.normalize .default).Compatible (colorLayer.normalize .default) := by
    decide +kernel
  exact ⟨_, _, hsize, hcolor, h, resolve_pair_comm _ .default hsize hcolor h⟩

-- The order of the keys does depend on which layer comes first.
example :
    (sizeLayer.normalize .default).merge (colorLayer.normalize .default) ≠
      (colorLayer.normalize .default).merge (sizeLayer.normalize .default) := by decide +kernel

end StyleSystem
