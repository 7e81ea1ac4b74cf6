import StyleSystem.Style.Basic
import StyleSystem.Style.Normal
import StyleSystem.Theme.Basic

/-!
# Style specifications

A specification says which styles a resolution merges, in which order: a style, a list of
specifications, a function from the theme to a specification, or nothing. A function of the theme
may fail with a text, and what it gives may hold functions again, even the same one: unfolding a
specification need not come to an end. So a specification holds its functions by name, and what each
of them gives is kept apart from it.

* `SpecOver F` — specifications over functions with names in `F`.
* `Calls F` — what these functions give.
* `SpecOver.members` — the styles and functions in a specification, from left to right.
* `SpecOver.resolve` — the style that a specification resolves to.
* `Spec` — specifications over functions that are written down where they stand.
-/

namespace StyleSystem

/-! ## Specifications -/

/-- **A specification of a style,** over functions of the theme that have names in `F`. -/
inductive SpecOver (F : Type) where
  /-- Contributes nothing. -/
  | empty
  /-- A style. -/
  | object (style : Style)
  /-- A function of the theme. -/
  | generator (function : F)
  /-- Specifications in order; later ones go over earlier ones. -/
  | list (items : List (SpecOver F))
  deriving Inhabited

/-- **What functions of the theme give** when they are called: a specification over the same
functions, or a failure with a text. A function may give itself. -/
abbrev Calls (F : Type) := F → Theme → Except String (SpecOver F)

namespace SpecOver

variable {F : Type}

/-- Whether a specification is the empty one. A list of nothing is not. -/
def isEmpty : SpecOver F → Bool
  | empty => true
  | _ => false

/-- The specification of an optional one. -/
def ofOption : Option (SpecOver F) → SpecOver F
  | some s => s
  | none => empty

/-- **A specification followed by another one.** A list is extended, and the empty specification
leaves nothing in front. -/
def andThen (first next : SpecOver F) : SpecOver F :=
  match first with
  | list items => list (items ++ [next])
  | empty => list [next]
  | s => list [s, next]

mutual

/-- The specification that a value stands for: an object is a style, a list a list of
specifications, and a plain value contributes nothing. -/
def ofValue : Value → SpecOver F
  | .object entries => object (.ofEntries entries)
  | .array items => list (ofValues items)
  | _ => empty

/-- The specifications that a list of values stands for. -/
def ofValues : List Value → List (SpecOver F)
  | [] => []
  | v :: rest => ofValue v :: ofValues rest

end

/-! ### Members -/

/-- A style or a function of the theme, as it stands in a specification. -/
inductive Member (F : Type) where
  | style (style : Style)
  | function (function : F)

/-- The style that a member is. -/
def Member.style? : Member F → Option Style
  | style s => some s
  | function _ => none

mutual

/-- **The members of a specification** from left to right. Lists and empty specifications have no
other effect than to put them in this order. -/
def members : SpecOver F → List (Member F)
  | empty => []
  | object s => [.style s]
  | generator f => [.function f]
  | list items => itemMembers items

/-- The members of the items of a list. -/
def itemMembers : List (SpecOver F) → List (Member F)
  | [] => []
  | item :: rest => members item ++ itemMembers rest

end

@[simp] theorem members_empty : (empty : SpecOver F).members = [] := by rw [members]

@[simp] theorem members_object (s : Style) : (object s : SpecOver F).members = [.style s] := by
  rw [members]

@[simp] theorem members_generator (f : F) : (generator f).members = [.function f] := by
  rw [members]

theorem itemMembers_eq_flatMap (items : List (SpecOver F)) :
    itemMembers items = items.flatMap members := by
  induction items with
  | nil => rw [itemMembers, List.flatMap_nil]
  | cons item rest ih => rw [itemMembers, ih, List.flatMap_cons]

@[simp] theorem members_list (items : List (SpecOver F)) :
    (list items).members = items.flatMap members := by
  rw [members, itemMembers_eq_flatMap]

/-- What follows has its members behind those of the first specification. -/
theorem members_andThen (first next : SpecOver F) :
    (first.andThen next).members = first.members ++ next.members := by
  cases first <;> simp [andThen]

/-- Whether no function of the theme is in a specification. -/
def isGeneratorFree (s : SpecOver F) : Bool := s.members.all fun m => m.style?.isSome

/-- **The styles in a specification** from left to right. A function of the theme has none until it
is called. -/
def styles (s : SpecOver F) : List Style := s.members.filterMap Member.style?

/-- Without functions of the theme, the members are styles. -/
theorem members_of_isGeneratorFree {s : SpecOver F} (h : s.isGeneratorFree = true) :
    s.members = s.styles.map .style := by
  unfold isGeneratorFree at h
  unfold styles
  generalize s.members = members at h ⊢
  induction members with
  | nil => rfl
  | cons m rest ih =>
    rw [List.all_cons, Bool.and_eq_true] at h
    cases m with
    | style s => exact congrArg (Member.style s :: ·) (ih h.2)
    | function f => cases h.1

end SpecOver

/-! ### Functions written down -/

/-- A function of the theme that is its own name. What it gives was there before, so a tower of such
functions has an end. -/
inductive ThemeFunction where
  | of (make : Theme → Except String (SpecOver ThemeFunction))

/-- A function that is written down gives what it says. -/
def ThemeFunction.call : Calls ThemeFunction
  | .of make, θ => make θ

/-- **A specification whose functions are written down** where they stand. -/
abbrev Spec := SpecOver ThemeFunction

namespace Spec

export SpecOver (andThen)

/-- The specification of a function, which may fail. -/
def generator (make : Theme → Except String Spec) : Spec := SpecOver.generator (.of make)

/-- The specification of a function that cannot fail. -/
def ofFunction (make : Theme → Spec) : Spec := generator fun θ => .ok (make θ)

/-- A specification inside a number of functions of the theme, one giving the next. -/
def nested : Nat → Spec → Spec
  | 0, s => s
  | n + 1, s => generator fun _ => .ok (nested n s)

end Spec

/-!
## Resolution

Resolving a specification merges its normalized styles from first to last. Functions of the theme
are called in that order as well, and what they give is resolved in their place. The first failure
ends the resolution: a function fails, or more than `maxGeneratorDepth` of them gave each other.
Unfolding a specification may go on without end, and it is this limit alone that ends a resolution.

* `SpecOver.resolveOver` — resolution over a style that is there already.
* `SpecOver.resolve` — resolution over the empty style.
* `Resolver` — resolutions with one theme.
-/

/-- How many functions of the theme may give each other before resolution fails. -/
def maxGeneratorDepth : Nat := 64

/-- Why a specification cannot be resolved. -/
inductive ResolveError where
  /-- A function of the theme failed, with this text. -/
  | generator (source : String)
  /-- Functions of the theme gave each other beyond the limit. -/
  | generatorDepth (limit : Nat)
  deriving DecidableEq, Repr

/-- **The wording of a failure.** -/
def ResolveError.message : ResolveError → String
  | generator source => "style generator failed: " ++ source
  | generatorDepth limit =>
    "style generators nested deeper than " ++ toString limit ++ " levels"

namespace SpecOver

variable {F : Type}

mutual

/-- Resolution over a style, where `function` is how a function of the theme is resolved over
one. -/
def resolveWith (function : F → Style → Except ResolveError Style) (θ : Theme) (base : Style) :
    SpecOver F → Except ResolveError Style
  | empty => .ok base
  | object style => .ok (base.merge (style.normalize θ))
  | generator f => function f base
  | list items => resolveItemsWith function θ base items

/-- Resolution of the items of a list, each over what the ones before it gave. -/
def resolveItemsWith (function : F → Style → Except ResolveError Style) (θ : Theme)
    (base : Style) : List (SpecOver F) → Except ResolveError Style
  | [] => .ok base
  | item :: rest =>
    (resolveWith function θ base item).bind fun style => resolveItemsWith function θ style rest

end

/-- **Resolution over a style.** `left` is how many functions of the theme may still be called, one
inside the other. Once there are none left, a function fails without being called. -/
def resolveOver (call : Calls F) (θ : Theme) :
    (left : Nat) → Style → SpecOver F → Except ResolveError Style
  | 0 => resolveWith (fun _ _ => .error (.generatorDepth maxGeneratorDepth)) θ
  | left + 1 => resolveWith (fun f base =>
      ((call f θ).mapError .generator).bind (resolveOver call θ left base)) θ

/-- **The style that a specification resolves to.** -/
def resolve (s : SpecOver F) (call : Calls F) (θ : Theme) : Except ResolveError Style :=
  resolveOver call θ maxGeneratorDepth .empty s

end SpecOver

/-- The style that a specification resolves to, if its functions are written down. -/
def Spec.resolve (s : Spec) (θ : Theme) : Except ResolveError Style :=
  SpecOver.resolve s ThemeFunction.call θ

/-- A theme to resolve specifications with. -/
structure Resolver where
  theme : Theme := .default

namespace Resolver

/-- The style that a specification resolves to; the empty specification has none. -/
def resolve (r : Resolver) (s : Spec) : Except ResolveError (Option Style) :=
  if s.isEmpty then .ok none else (s.resolve r.theme).map some

end Resolver

end StyleSystem
