import StyleSystem.Proofs.Leaves
import StyleSystem.Proofs.Parts

/-!
# Where the values of a resolved style come from

Resolution copies values from shorthands to their targets, out of tier maps and into blocks, and it
merges what arrives at one place. Still every plain value that it leaves under a key is the
transformation, under this very key, of a value that some style **declares** for it
(`plain_values_of_resolve`): the style has the value under a key that stands for the property, or
under a tier in a map there (`Value.Declares`).

The induction goes down the parts of a value. What a part declares, the object around it declares as
well (`Value.Declares.of_part`), and what a property is given is declared for it
(`Value.declares_of_gives`). A plain value under a tier is no entry of a property and no part of one,
so nothing comes from it.
-/

namespace StyleSystem

open Entries

namespace Value

/-- **Declared values.** At some level of the object there is an entry whose key is no tier and stands
for the property; it has the value, or a map in which a tier has the value. -/
inductive Declares (es : Entries Value) (property : String) : Value → Prop where
  /-- The value of an entry. -/
  | entry {level : Entries Value} {key : String} {v : Value} (hlevel : HasLevel es level)
      (hkey : Tier.isName key = false) (htarget : property ∈ (Shorthand.ofKey key).targets)
      (hv : (key, v) ∈ level) : Declares es property v
  /-- The value of a tier in the map of an entry. -/
  | tier {level m : Entries Value} {key : String} {tier : Tier} {v : Value}
      (hlevel : HasLevel es level) (hkey : Tier.isName key = false)
      (htarget : property ∈ (Shorthand.ofKey key).targets) (hm : (key, object m) ∈ level)
      (hv : (tier.name, v) ∈ m) : Declares es property v

/-- A value that is an object, or that comes from a declared one: it is the transformation of a plain
value other than null that is declared for its key. -/
def ComesFrom (θ : Theme) (declared : String → Value → Prop) (key : String) (w : Value) : Prop :=
  w.isObject = false →
    ∃ v, declared key v ∧ v.isNull = false ∧ v.isObject = false ∧ w = transform θ key v

variable {θ : Theme}

theorem comesFrom_object (declared : String → Value → Prop) (key : String) (es : Entries Value) :
    ComesFrom θ declared key (object es) := by
  intro hobj
  cases hobj

theorem shallow_comesFrom (declared : String → Value → Prop) :
    Shallow (ComesFrom θ declared) := fun key _ fs _ => comesFrom_object declared key fs

theorem ComesFrom.imp {declared declared' : String → Value → Prop}
    (h : ∀ key v, declared key v → declared' key v) (key : String) (w : Value)
    (hw : ComesFrom θ declared key w) : ComesFrom θ declared' key w := by
  intro hobj
  obtain ⟨v, hv, hvalue⟩ := hw hobj
  exact ⟨v, h key v hv, hvalue⟩

/-! ### One object -/

/-- What a part of a value declares, the object with the value declares. -/
theorem Declares.of_part {es part : Entries Value} {key property : String} {v w : Value}
    (hv : (key, v) ∈ es) (hpart : IsPart v part) (h : Declares part property w) :
    Declares es property w := by
  -- the level of the part lies in a level of the object, which has the same entries and maybe more
  cases h with
  | entry hlevel hkey htarget hw =>
    obtain ⟨level', hlevel', hsub⟩ := hpart.hasLevel hlevel hv
    exact .entry hlevel' hkey htarget (hsub hw)
  | tier hlevel hkey htarget hm hw =>
    obtain ⟨level', hlevel', hsub⟩ := hpart.hasLevel hlevel hv
    exact .tier hlevel' hkey htarget (hsub hm) hw

/-- What a property of the expansion is given is declared for it. -/
theorem declares_of_gives {es : Entries Value} {p : String × Value} (hp : p ∈ expandEntries es)
    (hkey : Tier.isName p.1 = false) {w : Value} (hw : Gives p.2 w) : Declares es p.1 w := by
  obtain ⟨property, v⟩ := p
  obtain ⟨key, hv, htarget, -⟩ := mem_expandEntries hp
  -- the declaring key is no tier either
  have hname : Tier.isName key = false := by
    rw [← Shorthand.isName_of_mem_targets htarget]
    exact hkey
  cases hw with
  | plain _ => exact .entry (.here es) hname htarget hv
  | tier hw _ _ => exact .tier (.here es) hname htarget hv hw

/-- **A normalized object** has its plain values from what the object declares. -/
theorem comesFrom_normalizeEntries (es : Entries Value) :
    EveryEntry (ComesFrom θ (Declares es)) (normalizeEntries θ es) := by
  induction es using partInduction with
  | step es ih =>
    apply everyEntry_normalizeEntries_of (shallow_comesFrom _)
    intro p hp q hq
    have hblock : ∀ t : Tier, t.isBase = false → ∀ fs,
        ComesFrom θ (Declares es) (θ.blockKey t) (object fs) :=
      fun t _ fs => comesFrom_object _ (θ.blockKey t) fs
    have hgiven : Tier.isName p.1 = false → ∀ w, Gives p.2 w →
        ComesFrom θ (Declares es) p.1 (transform θ p.1 w) := by
      intro hkey w hw _
      have hn : w.isNull = false := hw.isNull (isNull_of_mem_expandEntries hp)
      exact ⟨w, declares_of_gives hp hkey hw, hn, hw.isObject, rfl⟩
    have hparts : ∀ part, IsPart p.2 part →
        EveryEntry (ComesFrom θ (Declares es)) (normalizeEntries θ part) := by
      intro part hpart
      obtain ⟨key, hv, -, -⟩ := mem_expandEntries hp
      exact (ih p hp part hpart).imp (ComesFrom.imp fun _ _ hw => hw.of_part hv hpart)
    exact hq.throughout hblock (fun _ fs => comesFrom_object _ p.1 fs) hgiven hparts

end Value

/-! ### Specifications -/

open Value

/-- What the styles in a specification declare. -/
def SpecOver.Declares {F : Type} (s : SpecOver F) (property : String) (v : Value) : Prop :=
  ∃ style ∈ s.styles, Value.Declares style.entries property v

/-- **Nothing is made up.** A specification without functions of the theme resolves, and each plain
value under a key, at any level of the result, is the transformation under that key of a plain value
other than null that the specification declares for it. -/
theorem plain_values_of_resolve {F : Type} (call : Calls F) (θ : Theme) (s : SpecOver F)
    (hs : s.isGeneratorFree = true) :
    ∃ r, s.resolve call θ = .ok r ∧
      ∀ level, HasLevel r.entries level → ∀ key w, (key, w) ∈ level → w.isObject = false →
        ∃ v, s.Declares key v ∧ v.isNull = false ∧ v.isObject = false ∧
          w = transform θ key v := by
  refine ⟨_, SpecOver.resolve_of_isGeneratorFree hs call θ, ?_⟩
  show EveryEntry (ComesFrom θ s.Declares) _
  rw [Style.entries_mergeAll, List.flatMap_map]
  -- merging keeps the property, so it is enough to know it of every normalized style
  refine everyEntry_nil.mergeEntries (shallow_comesFrom _) (everyEntry_flatMap ?_)
  intro style hstyle
  have hone : EveryEntry (ComesFrom θ (Value.Declares style.entries)) (style.normalize θ).entries :=
    comesFrom_normalizeEntries style.entries
  exact hone.imp (ComesFrom.imp fun _ _ hv => ⟨style, hstyle, hv⟩)

/-- An axis shorthand with a tier map in a nested selector, next to a plain value under a tier. -/
def hover : Spec :=
  .list [
    .object (.ofEntries [("md", .string "16px")]),
    .object (.ofEntries [("&:hover", .object [
      ("mx", .object [("xs", .number (.int 1)), ("md", .number (.int 2))])])])]

/-- What is left of it: the number of each tier, for both margins. -/
def hoverResolved : Style :=
  .ofEntries [("&:hover", .object [
    ("marginLeft", .string "8px"),
    ("@media (min-width:900px)", .object [("marginLeft", .string "16px"),
      ("marginRight", .string "16px")]),
    ("marginRight", .string "8px")])]

theorem resolve_hover : hover.resolve .default = .ok hoverResolved := by decide +kernel

theorem plain_values_of_resolve_hover :
    hover.isGeneratorFree = true ∧ hover.resolve .default = .ok hoverResolved ∧
      ∀ level, HasLevel hoverResolved.entries level → ∀ key w, (key, w) ∈ level →
        w.isObject = false → ∃ v, hover.Declares key v ∧ v.isNull = false ∧ v.isObject = false ∧
          w = transform .default key v := by
  have hs : hover.isGeneratorFree = true := by decide
  obtain ⟨r, hr, hvalues⟩ := plain_values_of_resolve ThemeFunction.call .default hover hs
  have heq : r = hoverResolved := Except.ok.inj (hr.symm.trans resolve_hover)
  exact ⟨hs, resolve_hover, heq ▸ hvalues⟩

end StyleSystem
