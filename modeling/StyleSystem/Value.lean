import StyleSystem.Entries
import StyleSystem.Number.Binary64

/-!
# Style values

A `Value` is what stands at a key of a style object: null, a truth value, a number, a text, a list
or a nested object. Integers and floating-point numbers are kept apart: `1` and `1.0` are two
values.

An object is an ordered list of entries. The lists that arise as objects repeat no key, at any
depth; `Value.Distinct` says so, and `Value.collapse` enforces it by writing the entries of each
object one after the other.
-/

namespace StyleSystem

/-- A number as it is written in a style: an integer or a floating-point number. -/
inductive Number where
  | int (z : Int)
  | float (x : Binary64)
  deriving DecidableEq, Inhabited

/-- The value of a number in double precision; an integer takes the nearest one. -/
def Number.toBinary64 : Number → Binary64
  | .int z => .ofInt z
  | .float x => x

/-- A value of a style object. -/
inductive Value where
  | null
  | bool (b : Bool)
  | number (n : Number)
  | string (s : String)
  | array (items : List Value)
  | object (entries : List (String × Value))
  deriving Inhabited

namespace Value

/-- Whether a value is null. -/
def isNull : Value → Bool
  | null => true
  | _ => false

/-- Whether a value is an object. -/
def isObject : Value → Bool
  | object _ => true
  | _ => false

theorem exists_entries_of_isObject {v : Value} (h : v.isObject = true) : ∃ es, v = object es := by
  cases v with
  | object es => exact ⟨es, rfl⟩
  | null | bool _ | number _ | string _ | array _ => cases h

/-- The double-precision value of a number; other values have none. -/
def toBinary64? : Value → Option Binary64
  | number n => some n.toBinary64
  | _ => none

/-- A floating-point number as a value; what is not finite has no such value and becomes null. -/
def ofBinary64 (x : Binary64) : Value := if x.isFinite then number (.float x) else null

/-! ### Equality -/

mutual

/-- Equality of values, decided by their structure. -/
def decideEq : (v w : Value) → Decidable (v = w)
  | null, null => isTrue rfl
  | bool b, bool c => if h : b = c then isTrue (by rw [h]) else isFalse (by simpa using h)
  | number m, number n => if h : m = n then isTrue (by rw [h]) else isFalse (by simpa using h)
  | string s, string t => if h : s = t then isTrue (by rw [h]) else isFalse (by simpa using h)
  | array vs, array ws =>
    match decideEqItems vs ws with
    | isTrue h => isTrue (by rw [h])
    | isFalse h => isFalse (by simpa using h)
  | object es, object fs =>
    match decideEqEntries es fs with
    | isTrue h => isTrue (by rw [h])
    | isFalse h => isFalse (by simpa using h)
  -- values of different kinds
  | null, bool _ | null, number _ | null, string _ | null, array _ | null, object _
  | bool _, null | bool _, number _ | bool _, string _ | bool _, array _ | bool _, object _
  | number _, null | number _, bool _ | number _, string _ | number _, array _
  | number _, object _
  | string _, null | string _, bool _ | string _, number _ | string _, array _
  | string _, object _
  | array _, null | array _, bool _ | array _, number _ | array _, string _ | array _, object _
  | object _, null | object _, bool _ | object _, number _ | object _, string _
  | object _, array _ => isFalse nofun

/-- Equality of lists of values. -/
def decideEqItems : (vs ws : List Value) → Decidable (vs = ws)
  | [], [] => isTrue rfl
  | [], _ :: _ | _ :: _, [] => isFalse nofun
  | v :: vs, w :: ws =>
    match decideEq v w, decideEqItems vs ws with
    | isTrue h, isTrue h' => isTrue (by rw [h, h'])
    | isFalse h, _ => isFalse (by simp [h])
    | _, isFalse h => isFalse (by simp [h])

/-- Equality of entries. -/
def decideEqEntries : (es fs : List (String × Value)) → Decidable (es = fs)
  | [], [] => isTrue rfl
  | [], _ :: _ | _ :: _, [] => isFalse nofun
  | (k, v) :: es, (l, w) :: fs =>
    match decEq k l, decideEq v w, decideEqEntries es fs with
    | isTrue h, isTrue h', isTrue h'' => isTrue (by rw [h, h', h''])
    | isFalse h, _, _ => isFalse (by simp [h])
    | _, isFalse h, _ => isFalse (by simp [h])
    | _, _, isFalse h => isFalse (by simp [h])

end

instance : DecidableEq Value := decideEq

/-! ### Distinct keys -/

/-- **No object in the value repeats a key,** neither the value itself nor an object inside it. -/
inductive Distinct : Value → Prop
  | null : Distinct null
  | bool (b : Bool) : Distinct (bool b)
  | number (n : Number) : Distinct (number n)
  | string (s : String) : Distinct (string s)
  | array {items : List Value} : (∀ v ∈ items, Distinct v) → Distinct (array items)
  | object {entries : List (String × Value)} :
    (Entries.keys entries).Nodup → (∀ p ∈ entries, Distinct p.2) → Distinct (object entries)

/-- No object in or at the entries repeats a key. -/
def DistinctEntries (es : Entries Value) : Prop :=
  (Entries.keys es).Nodup ∧ ∀ p ∈ es, Distinct p.2

@[simp] theorem distinct_object {es : Entries Value} :
    Distinct (.object es) ↔ DistinctEntries es :=
  ⟨fun h => by cases h; exact ⟨‹_›, ‹_›⟩, fun h => .object h.1 h.2⟩

mutual

/-- The value with the entries of each object written one after the other: of a repeated key the
first entry keeps the position and the last one gives the value. -/
def collapse : Value → Value
  | array items => array (collapseItems items)
  | object entries => object (Entries.ofList (collapseEntries entries))
  | v => v

/-- `collapse` on the items of a list. -/
def collapseItems : List Value → List Value
  | [] => []
  | v :: rest => collapse v :: collapseItems rest

/-- `collapse` on the values of entries. -/
def collapseEntries : List (String × Value) → List (String × Value)
  | [] => []
  | (k, v) :: rest => (k, collapse v) :: collapseEntries rest

end

theorem distinctEntries_ofList {writes : List (String × Value)}
    (h : ∀ p ∈ writes, Distinct p.2) : DistinctEntries (Entries.ofList writes) :=
  ⟨Entries.nodup_ofList writes, fun p hp => h p (Entries.mem_of_mem_ofList hp)⟩

mutual

theorem distinct_collapse : (v : Value) → Distinct (collapse v)
  | .null => .null
  | .bool b => .bool b
  | .number n => .number n
  | .string s => .string s
  | .array items => .array (distinct_collapseItems items)
  | .object entries => distinct_object.2 (distinctEntries_ofList (distinct_collapseEntries entries))

theorem distinct_collapseItems : (items : List Value) → ∀ v ∈ collapseItems items, Distinct v
  | [], _, h => nomatch h
  | v :: rest, w, h => by
    rcases List.mem_cons.1 h with h | h
    · rw [h]; exact distinct_collapse v
    · exact distinct_collapseItems rest w h

theorem distinct_collapseEntries : (entries : List (String × Value)) →
    ∀ p ∈ collapseEntries entries, Distinct p.2
  | [], _, h => nomatch h
  | (k, v) :: rest, p, h => by
    rcases List.mem_cons.1 h with h | h
    · rw [h]; exact distinct_collapse v
    · exact distinct_collapseEntries rest p h

end

/-! ### Size

The compilers recurse into the values of objects. Each such value is smaller than its object. -/

theorem sizeOf_lt_of_mem {es : Entries Value} {k : String} {v : Value} (h : (k, v) ∈ es) :
    sizeOf v < sizeOf es := by
  have h' := List.sizeOf_lt_of_mem h
  simp only [Prod.mk.sizeOf_spec] at h'
  omega

theorem sizeOf_lt_object (es : Entries Value) : sizeOf es < sizeOf (object es) := by
  simp only [object.sizeOf_spec]
  omega

/-- An object among the values of another one is smaller, and so are its entries. -/
theorem sizeOf_lt_of_object_mem {es inner : Entries Value} {k : String}
    (h : (k, object inner) ∈ es) : sizeOf inner < sizeOf es :=
  Nat.lt_trans (sizeOf_lt_object inner) (sizeOf_lt_of_mem h)

theorem sizeOf_filter_le (p : String × Value → Bool) (es : Entries Value) :
    sizeOf (es.filter p) ≤ sizeOf es := by
  induction es with
  | nil => simp
  | cons e es ih =>
    simp only [List.filter]
    split <;> simp only [List.cons.sizeOf_spec] <;> omega

theorem sizeOf_append (es fs : Entries Value) : sizeOf (es ++ fs) + 1 = sizeOf es + sizeOf fs := by
  induction es with
  | nil => simp only [List.nil_append, List.nil.sizeOf_spec]; omega
  | cons p es ih => simp only [List.cons_append, List.cons.sizeOf_spec]; omega

end Value

/-! ### Present values -/

/-- The value at a key, if there is one other than null. -/
def Entries.present? (k : String) (es : Entries Value) : Option Value :=
  (Entries.find? k es).filter fun v => !v.isNull

theorem Entries.find?_of_present? {k : String} {v : Value} {es : Entries Value}
    (h : Entries.present? k es = some v) : Entries.find? k es = some v :=
  (Option.filter_eq_some_iff.1 h).1

theorem Entries.isNull_of_present? {k : String} {v : Value} {es : Entries Value}
    (h : Entries.present? k es = some v) : v.isNull = false := by
  simpa using (Option.filter_eq_some_iff.1 h).2

/-- What is absent is missing or null. -/
theorem Entries.find?_of_present?_eq_none {k : String} {es : Entries Value}
    (h : Entries.present? k es = none) :
    Entries.find? k es = none ∨ Entries.find? k es = some Value.null := by
  cases hv : Entries.find? k es with
  | none => exact .inl rfl
  | some v =>
    rw [present?, hv, Option.filter_eq_none_iff] at h
    have hn : v.isNull = true := by simpa using h v rfl
    cases v with
    | null => exact .inr rfl
    | _ => cases hn

theorem Entries.present?_eq_some_iff {k : String} {v : Value} {es : Entries Value}
    (hes : (Entries.keys es).Nodup) :
    Entries.present? k es = some v ↔ (k, v) ∈ es ∧ v.isNull = false := by
  rw [present?, Option.filter_eq_some_iff, Entries.find?_eq_some_iff hes, Bool.not_eq_true']

/-- Related values are present together, if both are null or none is. -/
theorem Entries.rel_present? {R : Value → Value → Prop} (hR : ∀ v w, R v w → v.isNull = w.isNull)
    {k : String} {es fs : Entries Value} (h : Option.Rel R (Entries.find? k es) (Entries.find? k fs)) :
    Option.Rel R (Entries.present? k es) (Entries.present? k fs) := by
  rw [present?, present?]
  rcases rel_cases h with ⟨hv, hw⟩ | ⟨v, w, hv, hw, hvw⟩
  · rw [hv, hw]
    exact .none
  · rw [hv, hw, Option.filter_some, Option.filter_some, hR v w hvw]
    split
    · exact .some hvw
    · exact .none

end StyleSystem
