import Mathlib.Data.List.Forall2
import StyleSystem.Spec.Resolution

/-!
# Resolution by leaves

Lists, functions of the theme and empty specifications only say which styles are resolved, and in
which order. The leaves of a specification are these styles from left to right: lists are flattened,
what a function of the theme gives stands in the place of the function, and the empty specification
has no leaves. A function that fails, or that stands inside as many others as are allowed, is a leaf
too, namely its failure (`SpecOver.leaves`).

Resolution calls functions of the theme, normalizes styles and merges them all in one pass. The same
can be done in two: first find the leaves of the specification, then merge their normal forms one
after the other, up to the first failure (`SpecOver.resolveOver_eq_foldlM`). So nothing but the
sequence of leaves counts (`resolve_leaves`):

* if a leaf is a failure, the first one is the result, whatever stands to its right;
* otherwise each leaf resolves by itself, and the result is the merge of these styles.

Specifications with the same leaves resolve alike, and putting specifications one behind the other
appends their leaves. It makes no difference how they are put together.

The induction is on the number of calls that are left, and nothing else could carry it: a function
may give itself, so there need not be an end to what is called. Below a function lists come to an
end, and the members of a specification stand in one list (`SpecOver.resolveWith_eq_foldlM`).
-/

namespace StyleSystem

/-- Merging over the empty style changes nothing. -/
@[simp] theorem Style.empty_merge (s : Style) : Style.empty.merge s = s :=
  Style.ext (Value.mergeEntries_nil_left s.distinct.1)

/-! ### Runs over lists -/

theorem foldlM_flatMap {ε α β γ : Type} (step : γ → β → Except ε γ) (parts : α → List β)
    (as : List α) (c : γ) :
    (as.flatMap parts).foldlM step c = as.foldlM (fun c a => (parts a).foldlM step c) c := by
  induction as generalizing c with
  | nil => rfl
  | cons a as ih =>
    rw [List.flatMap_cons, List.foldlM_append, List.foldlM_cons]
    exact congrArg (bind _) (funext ih)

/-- A sequence of results has a first failure or none. -/
theorem exists_first_error_or_ok {ε α : Type} (ls : List (Except ε α)) :
    (∃ (as : List α) (e : ε) (rest : List (Except ε α)), ls = as.map .ok ++ .error e :: rest) ∨
      ∃ as : List α, ls = as.map .ok := by
  induction ls with
  | nil => exact .inr ⟨[], rfl⟩
  | cons l ls ih =>
    cases l with
    | error e => exact .inl ⟨[], e, ls, rfl⟩
    | ok a =>
      rcases ih with ⟨as, e, rest, rfl⟩ | ⟨as, rfl⟩
      · exact .inl ⟨a :: as, e, rest, rfl⟩
      · exact .inr ⟨a :: as, rfl⟩

namespace SpecOver

variable {F : Type}

/-- **Induction over lists in lists.** There is nothing to go into below a function, which stands in
a specification by its name. -/
@[elab_as_elim]
theorem itemInduction {motive : SpecOver F → Prop} (s : SpecOver F) (empty : motive .empty)
    (object : ∀ style, motive (.object style)) (generator : ∀ f, motive (.generator f))
    (list : ∀ items : List (SpecOver F), (∀ item ∈ items, motive item) → motive (.list items)) :
    motive s := by
  match s with
  | .empty => exact empty
  | .object style => exact object style
  | .generator f => exact generator f
  | .list items =>
    exact list items fun item _ => itemInduction item empty object generator list
termination_by sizeOf s
decreasing_by
  have hitem : sizeOf item < sizeOf items := List.sizeOf_lt_of_mem ‹_›
  simp only [SpecOver.list.sizeOf_spec]
  omega

/-! ### Leaves -/

/-- The leaves of a member, `function` giving those of a function of the theme. -/
def Member.leaves (function : F → List (Except ResolveError Style)) :
    Member F → List (Except ResolveError Style)
  | .style s => [.ok s]
  | .function f => function f

/-- The leaves of the outcome of a call, `produced` giving those of a specification. -/
def calledLeaves (produced : SpecOver F → List (Except ResolveError Style)) :
    Except String (SpecOver F) → List (Except ResolveError Style)
  | .ok s => produced s
  | .error source => [.error (.generator source)]

/-- The leaves of a specification, where `left` functions of the theme may still be called, one
inside the other. -/
def leavesWithin (call : Calls F) (θ : Theme) :
    (left : Nat) → SpecOver F → List (Except ResolveError Style)
  | 0, s =>
    s.members.flatMap (Member.leaves fun _ => [.error (.generatorDepth maxGeneratorDepth)])
  | left + 1, s =>
    s.members.flatMap (Member.leaves fun f => calledLeaves (leavesWithin call θ left) (call f θ))

/-- **The leaves of a specification** from left to right, each a style or a failure. They go on to
the right of a failure. -/
def leaves (s : SpecOver F) (call : Calls F) (θ : Theme) : List (Except ResolveError Style) :=
  s.leavesWithin call θ maxGeneratorDepth

variable {call : Calls F} {θ : Theme}

theorem leavesWithin_list (left : Nat) (items : List (SpecOver F)) :
    (list items).leavesWithin call θ left = items.flatMap (leavesWithin call θ left) := by
  cases left <;> simp only [leavesWithin, members_list, List.flatMap_assoc]

/-- What follows has its leaves behind those of the first specification. -/
theorem leaves_andThen (a b : SpecOver F) :
    (a.andThen b).leaves call θ = a.leaves call θ ++ b.leaves call θ := by
  unfold leaves maxGeneratorDepth leavesWithin
  rw [members_andThen, List.flatMap_append]

theorem leaves_list (items : List (SpecOver F)) :
    (list items).leaves call θ = items.flatMap fun s => s.leaves call θ :=
  leavesWithin_list maxGeneratorDepth items

theorem leaves_empty : (empty : SpecOver F).leaves call θ = [] := rfl

/-- Without functions of the theme, the styles are all the leaves. -/
theorem leavesWithin_of_isGeneratorFree {s : SpecOver F} (h : s.isGeneratorFree = true)
    (left : Nat) : s.leavesWithin call θ left = s.styles.map .ok := by
  have hstyles (function : F → List (Except ResolveError Style)) :
      s.members.flatMap (Member.leaves function) = s.styles.map .ok := by
    rw [members_of_isGeneratorFree h, List.flatMap_map]
    exact List.flatMap_pure_eq_map Except.ok s.styles
  cases left with
  | zero => exact hstyles _
  | succ left => exact hstyles _

/-! ### Resolution as a run -/

/-- One step of a resolution by members. -/
def Member.mergeOver (function : F → Style → Except ResolveError Style) (θ : Theme)
    (base : Style) : Member F → Except ResolveError Style
  | .style s => .ok (base.merge (s.normalize θ))
  | .function f => function f base

/-- One step of a resolution by leaves: a style is normalized and merged over what is there. -/
def mergeLeaf (θ : Theme) (base : Style) (leaf : Except ResolveError Style) :
    Except ResolveError Style :=
  leaf.map fun s => base.merge (s.normalize θ)

/-- **Resolution goes through the members,** whatever it does with functions of the theme. -/
theorem resolveWith_eq_foldlM (function : F → Style → Except ResolveError Style) (θ : Theme)
    (s : SpecOver F) (base : Style) :
    resolveWith function θ base s = s.members.foldlM (Member.mergeOver function θ) base := by
  induction s using itemInduction generalizing base with
  | empty => rw [resolveWith, members_empty]; rfl
  | object s => rw [resolveWith, members_object]; rfl
  | generator f =>
    rw [resolveWith, members_generator, List.foldlM_cons]
    exact (bind_pure (function f base)).symm
  | list items ih =>
    rw [resolveWith, members_list]
    induction items generalizing base with
    | nil => rw [resolveItemsWith]; rfl
    | cons item rest ihrest =>
      rw [resolveItemsWith, List.flatMap_cons, List.foldlM_append, ih item List.mem_cons_self]
      -- the style goes from one item to the next as it goes from member to member
      refine congrArg (Except.bind _) (funext fun style => ihrest ?_ style)
      exact fun item' hitem => ih item' (List.mem_cons_of_mem item hitem)

/-- Each member is resolved as a run over its leaves, if each function is. -/
theorem resolveWith_eq_foldlM_leaves {function : F → Style → Except ResolveError Style}
    {leavesOf : F → List (Except ResolveError Style)}
    (h : ∀ f base, function f base = (leavesOf f).foldlM (mergeLeaf θ) base) (s : SpecOver F)
    (base : Style) :
    resolveWith function θ base s =
      (s.members.flatMap (Member.leaves leavesOf)).foldlM (mergeLeaf θ) base := by
  have hmember : Member.mergeOver function θ =
      fun base m => (Member.leaves leavesOf m).foldlM (mergeLeaf θ) base := by
    funext base m
    cases m with
    | style s => rfl
    | function f => exact h f base
  rw [resolveWith_eq_foldlM, foldlM_flatMap, hmember]

/-- **A resolution is a run over the leaves,** from any style on. -/
theorem resolveOver_eq_foldlM (left : Nat) (base : Style) (s : SpecOver F) :
    resolveOver call θ left base s = (s.leavesWithin call θ left).foldlM (mergeLeaf θ) base := by
  induction left generalizing base s with
  | zero =>
    -- nothing is called any more, and both have the failure in the place of a function
    have hlimit (_ : F) (base : Style) : Except.error (.generatorDepth maxGeneratorDepth) =
        [Except.error (.generatorDepth maxGeneratorDepth)].foldlM (mergeLeaf θ) base := rfl
    exact resolveWith_eq_foldlM_leaves hlimit s base
  | succ left ih =>
    refine resolveWith_eq_foldlM_leaves (fun f base => ?_) s base
    cases call f θ with
    | ok produced => exact ih base produced
    | error source => rfl

theorem resolve_eq_foldlM (s : SpecOver F) :
    s.resolve call θ = (s.leaves call θ).foldlM (mergeLeaf θ) .empty :=
  resolveOver_eq_foldlM maxGeneratorDepth .empty s

/-! ### Runs over leaves -/

/-- A run over styles alone merges their normal forms. -/
theorem foldlM_mergeLeaf_ok (base : Style) (styles : List Style) :
    (styles.map Except.ok).foldlM (mergeLeaf θ) base =
      .ok (base.mergeAll (styles.map fun s => s.normalize θ)) := by
  induction styles generalizing base with
  | nil => rfl
  | cons s styles ih => exact ih (base.merge (s.normalize θ))

/-- A run stops at the first failure. -/
theorem foldlM_mergeLeaf_error (base : Style) (styles : List Style) (e : ResolveError)
    (rest : List (Except ResolveError Style)) :
    (styles.map Except.ok ++ Except.error e :: rest).foldlM (mergeLeaf θ) base = .error e := by
  rw [List.foldlM_append, foldlM_mergeLeaf_ok]
  rfl

/-- **A run keeps what a merge keeps.** A property of styles that holds of the empty one and is kept
when a normalized style is merged holds of all that is resolved. -/
theorem resolve_keeps {I : Style → Prop} (hempty : I .empty)
    (hmerge : ∀ base s : Style, I base → I (base.merge (s.normalize θ))) {s : SpecOver F}
    {r : Style} (hr : s.resolve call θ = .ok r) : I r := by
  have hall (styles : List Style) (base : Style) (hbase : I base) :
      I (base.mergeAll (styles.map fun s => s.normalize θ)) := by
    induction styles generalizing base with
    | nil => exact hbase
    | cons t styles ih => exact ih _ (hmerge base t hbase)
  rw [resolve_eq_foldlM] at hr
  rcases exists_first_error_or_ok (s.leaves call θ) with ⟨styles, e, rest, hs⟩ | ⟨styles, hs⟩
  · rw [hs, foldlM_mergeLeaf_error] at hr
    cases hr
  · rw [hs, foldlM_mergeLeaf_ok] at hr
    cases hr
    exact hall styles .empty hempty

/-- Only the leaves count. -/
theorem resolve_congr {s t : SpecOver F} (h : s.leaves call θ = t.leaves call θ) :
    s.resolve call θ = t.resolve call θ := by
  rw [resolve_eq_foldlM, resolve_eq_foldlM, h]

/-! ### Without functions of the theme -/

/-- Without functions of the theme, the styles of a specification are normalized and merged. -/
theorem resolve_of_isGeneratorFree {s : SpecOver F} (h : s.isGeneratorFree = true)
    (call : Calls F) (θ : Theme) :
    s.resolve call θ = .ok (Style.empty.mergeAll (s.styles.map fun t => t.normalize θ)) := by
  rw [resolve_eq_foldlM, leaves, leavesWithin_of_isGeneratorFree h, foldlM_mergeLeaf_ok]

/-- A single style resolves to its normal form. -/
theorem resolve_object (s : Style) (call : Calls F) (θ : Theme) :
    (object s).resolve call θ = .ok (s.normalize θ) := by
  rw [resolve_eq_foldlM]
  show Except.ok (Style.empty.merge (s.normalize θ)) = _
  rw [Style.empty_merge]

/-- A list of styles resolves to their normal forms, merged from first to last. -/
theorem resolve_list_object (styles : List Style) (call : Calls F) (θ : Theme) :
    (list (styles.map object)).resolve call θ =
      .ok (Style.empty.mergeAll (styles.map fun s => s.normalize θ)) := by
  have hmembers : (list (styles.map object) : SpecOver F).members = styles.map .style := by
    rw [members_list, List.flatMap_map]
    simp only [members_object]
    exact List.flatMap_pure_eq_map Member.style styles
  have hfree : (list (styles.map object) : SpecOver F).isGeneratorFree = true := by
    rw [isGeneratorFree, hmembers, List.all_map]
    exact List.all_eq_true.2 fun _ _ => rfl
  have hstyles : (list (styles.map object) : SpecOver F).styles = styles := by
    rw [SpecOver.styles, hmembers, List.filterMap_map]
    exact List.filterMap_some
  rw [resolve_of_isGeneratorFree hfree, hstyles]

/-! ### Putting specifications together -/

variable (call θ) (a b c : SpecOver F)

theorem resolve_andThen_andThen :
    ((a.andThen b).andThen c).resolve call θ = (list [a, b, c]).resolve call θ ∧
      (a.andThen (b.andThen c)).resolve call θ = (list [a, b, c]).resolve call θ := by
  have hlist : (list [a, b, c]).leaves call θ =
      a.leaves call θ ++ (b.leaves call θ ++ c.leaves call θ) := by
    simp [leaves_list]
  constructor
  · apply resolve_congr
    rw [leaves_andThen, leaves_andThen, hlist, List.append_assoc]
  · apply resolve_congr
    rw [leaves_andThen, leaves_andThen, hlist]

/-- The empty specification changes nothing, in front or behind. -/
theorem resolve_andThen_empty :
    (a.andThen empty).resolve call θ = a.resolve call θ ∧
      (empty.andThen a).resolve call θ = a.resolve call θ := by
  constructor
  · apply resolve_congr
    rw [leaves_andThen, leaves_empty, List.append_nil]
  · apply resolve_congr
    rw [leaves_andThen, leaves_empty, List.nil_append]

end SpecOver

/-- **Only the leaves of a specification count.** The first leaf that is a failure is the failure of
the resolution; if there is none, the result is the merge of the leaves, each resolved by itself. So
it does not matter how three specifications are put one behind the other, and the empty one changes
nothing. This holds whatever the functions of the theme give, also where they go on without end. -/
theorem resolve_leaves {F : Type} (call : Calls F) (θ : Theme) :
    (∀ s : SpecOver F,
      (∃ (styles : List Style) (e : ResolveError) (rest : List (Except ResolveError Style)),
        s.leaves call θ = styles.map .ok ++ .error e :: rest ∧ s.resolve call θ = .error e) ∨
      (∃ styles resolved : List Style, s.leaves call θ = styles.map .ok ∧
        List.Forall₂ (fun style r => (SpecOver.object style).resolve call θ = .ok r)
          styles resolved ∧
        s.resolve call θ = .ok (Style.empty.mergeAll resolved))) ∧
    ∀ a b c : SpecOver F,
      ((a.andThen b).andThen c).resolve call θ = (SpecOver.list [a, b, c]).resolve call θ ∧
      (a.andThen (b.andThen c)).resolve call θ = (SpecOver.list [a, b, c]).resolve call θ ∧
      (a.andThen .empty).resolve call θ = a.resolve call θ ∧
      (SpecOver.empty.andThen a).resolve call θ = a.resolve call θ := by
  constructor
  · intro s
    rcases exists_first_error_or_ok (s.leaves call θ) with ⟨styles, e, rest, hs⟩ | ⟨styles, hs⟩
    · -- the run over the leaves stops at the failure
      refine .inl ⟨styles, e, rest, hs, ?_⟩
      rw [SpecOver.resolve_eq_foldlM, hs, SpecOver.foldlM_mergeLeaf_error]
    · -- no failure, and each leaf alone resolves to its normal form
      refine .inr ⟨styles, styles.map fun t => t.normalize θ, hs, ?_, ?_⟩
      · rw [List.forall₂_map_right_iff, List.forall₂_same]
        exact fun t _ => SpecOver.resolve_object t call θ
      · rw [SpecOver.resolve_eq_foldlM, hs, SpecOver.foldlM_mergeLeaf_ok]
  · intro a b c
    obtain ⟨hleft, hright⟩ := SpecOver.resolve_andThen_andThen call θ a b c
    exact ⟨hleft, hright, SpecOver.resolve_andThen_empty call θ a⟩

end StyleSystem
