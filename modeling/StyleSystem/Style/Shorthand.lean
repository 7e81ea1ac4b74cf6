import StyleSystem.Style.Basic

/-!
# Shorthands

Some keys of a style stand for other keys: `px` for `paddingLeft` and `paddingRight`, `bg` for
`backgroundColor`. Expansion replaces them by their targets. Where several keys write one target
the more specific one wins, wherever it is declared:

own name > one side (`pl`) > one axis (`px`) > all sides (`p`) > synonym (`bg`)

and among equally specific ones the last. Entries with the value null are dropped.

* `Shorthand.table` — the shorthands with their targets.
* `Style.expand` — the expansion of one object; nested objects are left as they are.
* `BoxProperty.sideValue?` — the value that a side of a box has after all.
-/

namespace StyleSystem

/-! ## Expansion -/

/-- How directly a key names what it sets. -/
inductive Specificity where
  | synonym | allSides | axis | side | explicit
  deriving DecidableEq, Repr

namespace Specificity

/-- The place in the order of precedence. -/
def rank : Specificity → Nat
  | synonym => 0
  | allSides => 1
  | axis => 2
  | side => 3
  | explicit => 4

instance : LT Specificity := ⟨fun a b => a.rank < b.rank⟩

instance (a b : Specificity) : Decidable (a < b) := inferInstanceAs (Decidable (a.rank < b.rank))

end Specificity

/-- A key that stands for other keys. -/
structure Shorthand where
  key : String
  specificity : Specificity
  targets : List String

namespace Shorthand

/-- All shorthands. -/
def table : List Shorthand :=
  [⟨"p", .allSides, ["padding"]⟩,
   ⟨"px", .axis, ["paddingLeft", "paddingRight"]⟩,
   ⟨"py", .axis, ["paddingTop", "paddingBottom"]⟩,
   ⟨"pt", .side, ["paddingTop"]⟩,
   ⟨"pr", .side, ["paddingRight"]⟩,
   ⟨"pb", .side, ["paddingBottom"]⟩,
   ⟨"pl", .side, ["paddingLeft"]⟩,
   ⟨"m", .allSides, ["margin"]⟩,
   ⟨"mx", .axis, ["marginLeft", "marginRight"]⟩,
   ⟨"my", .axis, ["marginTop", "marginBottom"]⟩,
   ⟨"mt", .side, ["marginTop"]⟩,
   ⟨"mr", .side, ["marginRight"]⟩,
   ⟨"mb", .side, ["marginBottom"]⟩,
   ⟨"ml", .side, ["marginLeft"]⟩,
   ⟨"bgcolor", .synonym, ["backgroundColor"]⟩,
   ⟨"bg", .synonym, ["backgroundColor"]⟩,
   ⟨"radius", .synonym, ["borderRadius"]⟩,
   ⟨"shadow", .synonym, ["boxShadow"]⟩]

/-- The shorthand with a key. -/
def find? (key : String) : Option Shorthand := table.find? fun s => s.key = key

/-- What a key stands for, and how directly: a key that is no shorthand stands for itself. -/
def ofKey (key : String) : Shorthand := (find? key).getD ⟨key, .explicit, [key]⟩

end Shorthand

/-- Whether a key is a shorthand. -/
def isShorthand (key : String) : Bool := (Shorthand.find? key).isSome

/-! ### Expansion -/

/-- A value for a target, with the specificity of the key that declares it. -/
structure Declaration where
  target : String
  specificity : Specificity
  value : Value

namespace Declaration

/-- The declarations of an entry: its value for every target of its key, and none if the value is
null. -/
def ofEntry (key : String) (value : Value) : List Declaration :=
  if value.isNull then []
  else (Shorthand.ofKey key).targets.map fun t => ⟨t, (Shorthand.ofKey key).specificity, value⟩

/-- The declarations of an object in order. -/
def ofEntries (es : Entries Value) : List Declaration := es.flatMap fun p => ofEntry p.1 p.2

/-- What stands at the target of a declaration after it: the older value stays if it was declared
more specifically. -/
def onto (d : Declaration) : Option (Specificity × Value) → Specificity × Value
  | some (specificity, value) =>
    if d.specificity < specificity then (specificity, value) else (d.specificity, d.value)
  | none => (d.specificity, d.value)

/-- The targets written by a list of declarations, with the declared values and specificities. -/
def run (ds : List Declaration) : Entries (Specificity × Value) :=
  ds.foldl (fun acc d => Entries.update d.target d.onto acc) []

end Declaration

/-- **The expansion of the shorthands of one object.** A target stands where the first entry for it
stood. -/
def Value.expandEntries (es : Entries Value) : Entries Value :=
  (Declaration.run (Declaration.ofEntries es)).map fun p => (p.1, p.2.2)

/-! ### What expansion keeps -/

namespace Declaration

theorem mem_ofEntries {es : Entries Value} {d : Declaration} (h : d ∈ ofEntries es) :
    ∃ key, (key, d.value) ∈ es ∧ d.target ∈ (Shorthand.ofKey key).targets ∧
      d.value.isNull = false := by
  obtain ⟨⟨key, value⟩, hp, hd⟩ := List.mem_flatMap.1 h
  simp only [ofEntry] at hd
  split at hd
  · cases hd
  · rename_i hn
    obtain ⟨t, ht, rfl⟩ := List.mem_map.1 hd
    exact ⟨key, hp, ht, by simpa using hn⟩

/-- What a list of declarations leaves at a target comes from one of them. -/
theorem mem_run {ds : List Declaration} {t : String} {s : Specificity} {v : Value}
    (h : (t, s, v) ∈ run ds) : (⟨t, s, v⟩ : Declaration) ∈ ds := by
  -- the run is taken over any entries, for the induction
  suffices ∀ acc : Entries (Specificity × Value),
      (t, s, v) ∈ ds.foldl (fun acc d => Entries.update d.target d.onto acc) acc →
      (t, s, v) ∈ acc ∨ (⟨t, s, v⟩ : Declaration) ∈ ds by
    rcases this [] h with h | h
    · cases h
    · exact h
  clear h
  induction ds with
  | nil => exact fun acc h => .inl h
  | cons d ds ih =>
    intro acc h
    rcases ih _ h with h | h
    · rcases Entries.mem_update h with h | ⟨ht, hv⟩ | ⟨⟨s', v'⟩, ho, ht, hv⟩
      · exact .inl h
      · -- the declaration writes its target for the first time
        simp only [onto, Prod.mk.injEq] at hv
        obtain ⟨rfl, rfl⟩ := hv
        subst ht
        exact .inr List.mem_cons_self
      · -- the older value stays if it is more specific
        simp only [onto] at hv
        split at hv
        · cases hv; exact .inl ho
        · cases hv; subst ht; exact .inr List.mem_cons_self
    · exact .inr (List.mem_cons_of_mem _ h)

theorem nodup_run (ds : List Declaration) : (Entries.keys (run ds)).Nodup := by
  suffices ∀ acc : Entries (Specificity × Value), (Entries.keys acc).Nodup →
      (Entries.keys (ds.foldl (fun acc d => Entries.update d.target d.onto acc) acc)).Nodup from
    this [] (by simp)
  induction ds with
  | nil => exact fun acc h => h
  | cons d ds ih => exact fun acc h => ih _ (Entries.nodup_update h)

end Declaration

namespace Value

/-- Every expanded entry has the value of an entry that names it as a target. -/
theorem mem_expandEntries {es : Entries Value} {t : String} {v : Value}
    (h : (t, v) ∈ expandEntries es) :
    ∃ key, (key, v) ∈ es ∧ t ∈ (Shorthand.ofKey key).targets ∧ v.isNull = false := by
  obtain ⟨⟨t', s, v'⟩, hp, he⟩ := List.mem_map.1 h
  cases he
  exact Declaration.mem_ofEntries (Declaration.mem_run hp)

theorem nodup_expandEntries (es : Entries Value) : (Entries.keys (expandEntries es)).Nodup := by
  have h := Declaration.nodup_run (Declaration.ofEntries es)
  simpa [Entries.keys, expandEntries, Function.comp_def] using h

theorem distinctEntries_expandEntries {es : Entries Value} (h : ∀ p ∈ es, Distinct p.2) :
    DistinctEntries (expandEntries es) := by
  refine ⟨nodup_expandEntries es, fun p hp => ?_⟩
  obtain ⟨key, hk, -⟩ := mem_expandEntries hp
  exact h (key, p.2) hk

theorem sizeOf_lt_of_mem_expandEntries {es : Entries Value} {p : String × Value}
    (h : p ∈ expandEntries es) : sizeOf p.2 < sizeOf es := by
  obtain ⟨key, hk, -⟩ := mem_expandEntries h
  exact sizeOf_lt_of_mem hk

end Value

/-- **A style with its shorthands expanded** at the outermost level. -/
def Style.expand (s : Style) : Style :=
  ⟨Value.expandEntries s.entries, Value.distinctEntries_expandEntries s.distinct.2⟩

/-!
## The sides of a box

Padding and margin surround a box. Each has a property for all four sides and one for each side, and
a list of declarations is read from first to last: a later one stands over an earlier one on every
side that it sets. `BoxProperty.sideValue?` is the value that a side has in the end.

A style may set a side by four keys, the property of the side and three shorthands. The documented
precedence is among the keys that have a value, and not among their positions;
`BoxProperty.precedent?` is the value of the most specific one.
-/

/-- A side of a box. -/
inductive Side where
  | top | right | bottom | left
  deriving DecidableEq, Repr

namespace Side

/-- The part of a property name that says which side it is for. -/
def name : Side → String
  | top => "Top"
  | right => "Right"
  | bottom => "Bottom"
  | left => "Left"

/-- The same in a shorthand for one side. -/
def letter : Side → String
  | top => "t"
  | right => "r"
  | bottom => "b"
  | left => "l"

/-- The same in a shorthand for the two sides of an axis. -/
def axisLetter : Side → String
  | top | bottom => "y"
  | right | left => "x"

end Side

/-- A property that surrounds a box. -/
inductive BoxProperty where
  | padding | margin
  deriving DecidableEq, Repr

namespace BoxProperty

/-- The property for all sides. -/
def name : BoxProperty → String
  | padding => "padding"
  | margin => "margin"

/-- The shorthand for all sides. -/
def letter : BoxProperty → String
  | padding => "p"
  | margin => "m"

/-- The property for one side. -/
def longhand (b : BoxProperty) (s : Side) : String := b.name ++ s.name

/-- The keys that set a side but not all sides, the most specific first. -/
def sideKeys (b : BoxProperty) (s : Side) : List String :=
  [b.longhand s, b.letter ++ s.letter, b.letter ++ s.axisLetter]

/-- The keys that set a side, the most specific first. The name of the property itself is none of
them. -/
def covering (b : BoxProperty) (s : Side) : List String := b.sideKeys s ++ [b.letter]

/-- Whether a property sets a side. -/
def sets (b : BoxProperty) (s : Side) (property : String) : Bool :=
  property = b.name || property = b.longhand s

/-- **The value of a side** after declarations, the last one that sets it. -/
def sideValue? (b : BoxProperty) (s : Side) : Entries Value → Option Value
  | [] => none
  | (k, v) :: rest =>
    (sideValue? b s rest).or (if b.sets s k then some v else none)

/-- **The value of the most specific key** that sets a side and has a value. -/
def precedent? (b : BoxProperty) (s : Side) (es : Entries Value) : Option Value :=
  (b.covering s).findSome? fun k => Entries.present? k es

/-- The first key in an object that sets a side and has a value. -/
def firstCovering? (b : BoxProperty) (s : Side) (es : Entries Value) : Option String :=
  (List.find? (fun p => p.1 ∈ b.covering s && !p.2.isNull) es).map Prod.fst

/-- Whether the shorthand for all sides comes after another key that sets a side. -/
def lateForSide (b : BoxProperty) (s : Side) (es : Entries Value) : Bool :=
  (Entries.present? b.letter es).isSome && b.firstCovering? s es ≠ some b.letter

end BoxProperty

end StyleSystem
