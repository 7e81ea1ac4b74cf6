import Mathlib.Data.Option.Basic
import StyleSystem.Style.Basic

/-!
# Key paths

A key path leads from a style through nested objects to a value: each key but the last one has an
object. A list ends the descent, as every plain value does.

* `Value.lookup?` — the value at the end of a path. The empty path ends at the value itself.
* `Value.paths` — the paths that lead to a value. There are finitely many, so what is said of all
  paths can be decided.
* `Style.lookup?` — the same from a style on, so the empty path ends at the whole style.
* `Style.keysAt` — the keys of the object at the end of a path.
* `Style.SameMapping`, `Style.Compatible` — two styles that say the same, or nothing different, at the
  end of each path.
-/

namespace StyleSystem

/-! ## Paths -/

namespace Value

/-- **The value at the end of a path.** -/
def lookup? : List String → Value → Option Value
  | [], v => some v
  | key :: path, object es => (Entries.find? key es).bind (lookup? path)
  | _ :: _, _ => none

@[simp] theorem lookup?_nil (v : Value) : lookup? [] v = some v := by rw [lookup?]

@[simp] theorem lookup?_cons_object (key : String) (path : List String) (es : Entries Value) :
    lookup? (key :: path) (object es) = (Entries.find? key es).bind (lookup? path) := by
  rw [lookup?]

/-- No path leads into a plain value. -/
theorem lookup?_of_not_isObject {path : List String} {v : Value} (hv : v.isObject = false)
    (hpath : path ≠ []) : lookup? path v = none := by
  cases path with
  | nil => exact absurd rfl hpath
  | cons key path => cases v <;> simp_all [lookup?, isObject]

/-- A path in two parts goes on where the first part ends. -/
theorem lookup?_append (p q : List String) (v : Value) :
    lookup? (p ++ q) v = (lookup? p v).bind (lookup? q) := by
  induction p generalizing v with
  | nil => rw [List.nil_append, lookup?_nil, Option.bind_some]
  | cons key p ih =>
    cases hv : v.isObject with
    | true =>
      obtain ⟨es, rfl⟩ := exists_entries_of_isObject hv
      rw [List.cons_append, lookup?_cons_object, lookup?_cons_object, Option.bind_assoc]
      exact congrArg _ (funext ih)
    | false =>
      rw [lookup?_of_not_isObject hv (by simp), lookup?_of_not_isObject hv (by simp)]
      rfl

theorem lookup?_singleton_object (key : String) (es : Entries Value) :
    lookup? [key] (object es) = Entries.find? key es := by
  have hnil : lookup? [] = (some : Value → Option Value) := funext lookup?_nil
  rw [lookup?_cons_object, hnil, Option.bind_fun_some]

theorem lookup?_concat_of_object {path : List String} {v : Value} {es : Entries Value}
    (h : lookup? path v = some (object es)) (key : String) :
    lookup? (path ++ [key]) v = Entries.find? key es := by
  rw [lookup?_append, h, Option.bind_some, lookup?_singleton_object]

/-- A path goes on only through objects. -/
theorem isObject_of_lookup?_append {p q : List String} {v u w : Value} (hq : q ≠ [])
    (hu : lookup? p v = some u) (hw : lookup? (p ++ q) v = some w) : u.isObject = true := by
  cases hobj : u.isObject with
  | true => rfl
  | false =>
    rw [lookup?_append, hu, Option.bind_some, lookup?_of_not_isObject hobj hq] at hw
    cases hw

/-- What a path leads to repeats no key, if the value it starts from does not. -/
theorem Distinct.lookup? {v w : Value} (hv : v.Distinct) {path : List String}
    (h : v.lookup? path = some w) : w.Distinct := by
  induction path generalizing v with
  | nil =>
    rw [lookup?_nil, Option.some_inj] at h
    exact h ▸ hv
  | cons key path ih =>
    cases hobj : v.isObject with
    | false =>
      rw [lookup?_of_not_isObject hobj (by simp)] at h
      cases h
    | true =>
      obtain ⟨es, rfl⟩ := exists_entries_of_isObject hobj
      rw [lookup?_cons_object, Option.bind_eq_some_iff] at h
      obtain ⟨u, hu, hw⟩ := h
      exact ih ((distinct_object.1 hv).2 _ (Entries.mem_of_find? hu)) hw

/-- Whether a path leads to an object. -/
def hasObject (path : List String) (v : Value) : Bool := (v.lookup? path).any isObject

/-- Whether a path leads to a plain value. -/
def hasPlain (path : List String) (v : Value) : Bool := (v.lookup? path).any fun w => !w.isObject

theorem lookup?_isSome_of_hasPlain {path : List String} {v : Value} (h : v.hasPlain path = true) :
    (v.lookup? path).isSome = true := by
  unfold hasPlain at h
  cases hv : v.lookup? path with
  | none => rw [hv] at h; cases h
  | some w => rfl

/-! ### All paths -/

mutual

/-- **The paths that lead to a value,** the empty one first. -/
def paths : Value → List (List String)
  | object entries => [] :: entryPaths entries
  | _ => [[]]

/-- The paths that start with the key of an entry. -/
def entryPaths : List (String × Value) → List (List String)
  | [] => []
  | (key, v) :: rest => (paths v).map (key :: ·) ++ entryPaths rest

end

theorem nil_mem_paths (v : Value) : [] ∈ v.paths := by
  cases v <;> simp [paths]

theorem cons_mem_entryPaths {es : Entries Value} {key : String} {v : Value} {path : List String}
    (hv : (key, v) ∈ es) (hpath : path ∈ v.paths) : key :: path ∈ entryPaths es := by
  induction es with
  | nil => cases hv
  | cons p es ih =>
    obtain ⟨l, w⟩ := p
    rw [entryPaths, List.mem_append]
    rcases List.mem_cons.1 hv with hv | hv
    · cases hv
      exact .inl (List.mem_map_of_mem hpath)
    · exact .inr (ih hv)

theorem mem_paths {path : List String} {v : Value} (h : (v.lookup? path).isSome = true) :
    path ∈ v.paths := by
  induction path generalizing v with
  | nil => exact nil_mem_paths v
  | cons key path ih =>
    cases hobj : v.isObject with
    | false =>
      rw [lookup?_of_not_isObject hobj (by simp)] at h
      cases h
    | true =>
      obtain ⟨es, rfl⟩ := exists_entries_of_isObject hobj
      rw [lookup?_cons_object, Option.isSome_bind, Option.any_eq_true] at h
      obtain ⟨u, hu, h⟩ := h
      rw [paths]
      exact List.mem_cons_of_mem _ (cons_mem_entryPaths (Entries.mem_of_find? hu) (ih h))

/-- What is said of every value inside a value is decided by the paths that lead to one. -/
theorem forall_lookup?_iff {v : Value} {P : List String → Value → Prop} :
    (∀ path x, v.lookup? path = some x → P path x) ↔
      ∀ path ∈ v.paths, ∀ x ∈ v.lookup? path, P path x := by
  constructor
  · intro h path _ x hx
    exact h path x hx
  · intro h path x hx
    have hpath : path ∈ v.paths := mem_paths (Option.isSome_of_mem hx)
    exact h path hpath x hx

end Value

namespace Style

/-- **The value at the end of a path** in a style. -/
def lookup? (s : Style) (path : List String) : Option Value := s.toValue.lookup? path

/-- The keys of the object at the end of a path, and none where no object is there. -/
def keysAt (s : Style) (path : List String) : List String :=
  match s.lookup? path with
  | some (.object es) => Entries.keys es
  | _ => []

@[simp] theorem lookup?_nil (s : Style) : s.lookup? [] = some (.object s.entries) :=
  Value.lookup?_nil s.toValue

theorem keysAt_of_object {s : Style} {path : List String} {es : Entries Value}
    (h : s.lookup? path = some (.object es)) : s.keysAt path = Entries.keys es := by
  rw [keysAt, h]

theorem keysAt_of_not_object {s : Style} {path : List String}
    (h : ∀ es, s.lookup? path ≠ some (.object es)) : s.keysAt path = [] := by
  rw [keysAt]
  split
  · next es hes => exact absurd hes (h es)
  · rfl

/-- An object inside a style repeats no key. -/
theorem nodup_of_lookup? {s : Style} {path : List String} {es : Entries Value}
    (h : s.lookup? path = some (.object es)) : (Entries.keys es).Nodup := by
  have hs : s.toValue.Distinct := Value.distinct_object.2 s.distinct
  exact (Value.distinct_object.1 (hs.lookup? h)).1

end Style

/-!
## Styles as mappings

The keys of an object stand in an order. As a mapping from keys to values it has none, and two styles
may differ in nothing but the order of their keys, at any depth. Then each path leads to the same in
both of them: to nothing, to an object, or to the same plain value. A list is a plain value here, and
the objects in it count with their order.

* `Style.SameMapping` — two styles that are the same mapping, at every depth.
* `Style.Compatible` — two styles that nowhere say different things. Either may have keys that the
  other one does not have.

Both speak of all paths, and are decided by those that lead to a value. Two objects are the same
mapping if they are so key by key (`Value.sameMapping_object_iff`).
-/

open Entries

namespace Value

/-- A value without what lies inside it: an object is emptied, and a plain value stays. -/
def shell : Value → Value
  | object _ => object []
  | v => v

theorem shell_of_not_isObject {v : Value} (h : v.isObject = false) : v.shell = v := by
  cases v with
  | object es => cases h
  | null | bool _ | number _ | string _ | array _ => rfl

@[simp] theorem isObject_shell (v : Value) : v.shell.isObject = v.isObject := by cases v <;> rfl

@[simp] theorem isNull_shell (v : Value) : v.shell.isNull = v.isNull := by cases v <;> rfl

/-- **The same mapping** at every depth. -/
def SameMapping (v w : Value) : Prop :=
  ∀ path, (v.lookup? path).map shell = (w.lookup? path).map shell

/-- **No conflict.** A path that leads to a value in both leads to two objects, or to the same plain
value. -/
def Compatible (v w : Value) : Prop :=
  ∀ path x y, v.lookup? path = some x → w.lookup? path = some y →
    x.isObject = true ∧ y.isObject = true ∨ x.isObject = false ∧ x = y

/-! ### Decision -/

theorem lookup?_eq_none_of_notMem_paths {path : List String} {v : Value} (h : path ∉ v.paths) :
    v.lookup? path = none := by
  simpa using mt mem_paths h

/-- What is said of two values path by path is decided by the paths that lead to a value. -/
theorem forall_map_lookup?_eq_iff {α : Type} (f : List String → Value → α) {v w : Value} :
    (∀ path, (v.lookup? path).map (f path) = (w.lookup? path).map (f path)) ↔
      ∀ path ∈ v.paths ++ w.paths,
        (v.lookup? path).map (f path) = (w.lookup? path).map (f path) := by
  constructor
  · intro h path _
    exact h path
  · intro h path
    by_cases hpath : path ∈ v.paths ++ w.paths
    · exact h path hpath
    · rw [List.mem_append, not_or] at hpath
      rw [lookup?_eq_none_of_notMem_paths hpath.1, lookup?_eq_none_of_notMem_paths hpath.2,
        Option.map_none]

instance (v w : Value) : Decidable (SameMapping v w) :=
  decidable_of_iff _ (forall_map_lookup?_eq_iff fun _ => shell).symm

instance (v w : Value) : Decidable (Compatible v w) :=
  decidable_of_iff (∀ path ∈ v.paths, ∀ x ∈ v.lookup? path, ∀ y ∈ w.lookup? path,
      x.isObject = true ∧ y.isObject = true ∨ x.isObject = false ∧ x = y)
    (forall_lookup?_iff.symm.trans
      ⟨fun h path x y hx hy => h path x hx y hy, fun h path x hx y hy => h path x y hx hy⟩)

/-! ### One level -/

namespace SameMapping

variable {u v w : Value}

theorem refl (v : Value) : SameMapping v v := fun _ => rfl

theorem symm (h : SameMapping v w) : SameMapping w v := fun path => (h path).symm

theorem shell_eq (h : SameMapping v w) : v.shell = w.shell := by
  have hroot := h []
  rwa [lookup?_nil, lookup?_nil, Option.map_some, Option.map_some, Option.some_inj] at hroot

theorem isObject_eq (h : SameMapping v w) : v.isObject = w.isObject := by
  rw [← isObject_shell, h.shell_eq, isObject_shell]

theorem isNull_eq (h : SameMapping v w) : v.isNull = w.isNull := by
  rw [← isNull_shell, h.shell_eq, isNull_shell]

/-- Plain values are the same mapping only if they are equal. -/
theorem eq_of_not_isObject (h : SameMapping v w) (hv : v.isObject = false) : v = w := by
  have hw : w.isObject = false := by rw [← h.isObject_eq, hv]
  rw [← shell_of_not_isObject hv, h.shell_eq, shell_of_not_isObject hw]

end SameMapping

/-- **Objects are compared key by key.** -/
theorem sameMapping_object_iff {es fs : Entries Value} :
    SameMapping (object es) (object fs) ↔
      ∀ k, Option.Rel SameMapping (find? k es) (find? k fs) := by
  constructor
  · intro h k
    -- a path below the value is a path below the object, with the key in front
    have hpath : ∀ path, ((find? k es).bind (lookup? path)).map shell =
        ((find? k fs).bind (lookup? path)).map shell := by
      intro path
      rw [← lookup?_cons_object, ← lookup?_cons_object]
      exact h (k :: path)
    cases hv : find? k es with
    | none =>
      cases hw : find? k fs with
      | none => exact .none
      | some w => simpa [hv, hw] using hpath []
    | some v =>
      cases hw : find? k fs with
      | none => simpa [hv, hw] using hpath []
      | some w =>
        refine .some fun path => ?_
        simpa [hv, hw] using hpath path
  · intro h path
    cases path with
    | nil => rfl
    | cons k path =>
      rw [lookup?_cons_object, lookup?_cons_object]
      rcases rel_cases (h k) with ⟨hv, hw⟩ | ⟨v, w, hv, hw, hvw⟩
      · rw [hv, hw]
      · rw [hv, hw]
        exact hvw path

theorem SameMapping.find? {es fs : Entries Value} (h : SameMapping (object es) (object fs))
    (k : String) : Option.Rel SameMapping (Entries.find? k es) (Entries.find? k fs) :=
  sameMapping_object_iff.1 h k

/-- Two values without a conflict have none at a key that both have. -/
theorem Compatible.inside {es fs : Entries Value} (h : Compatible (object es) (object fs))
    {k : String} {v w : Value} (hv : Entries.find? k es = some v) (hw : Entries.find? k fs = some w) :
    Compatible v w := by
  intro path x y hx hy
  apply h (k :: path) x y
  · rw [lookup?_cons_object, hv, Option.bind_some, hx]
  · rw [lookup?_cons_object, hw, Option.bind_some, hy]

end Value

namespace Style

/-- **The same mapping,** whatever the order of the keys is at each level. -/
def SameMapping (s t : Style) : Prop := s.toValue.SameMapping t.toValue

/-- **Two styles without a conflict.** -/
def Compatible (s t : Style) : Prop := s.toValue.Compatible t.toValue

instance (s t : Style) : Decidable (s.SameMapping t) :=
  inferInstanceAs (Decidable (s.toValue.SameMapping t.toValue))

instance (s t : Style) : Decidable (s.Compatible t) :=
  inferInstanceAs (Decidable (s.toValue.Compatible t.toValue))

end Style

end StyleSystem
