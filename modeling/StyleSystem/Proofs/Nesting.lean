import StyleSystem.Proofs.Leaves

/-!
# The limit on nested functions of the theme

With a theme a specification unfolds into a tree: below a list stand its items, and below a function
of the theme what the function gives. A function may give itself, so the tree may go down without
end. A branch leads down this tree, through lists and through functions of the theme, and only the
functions are counted.

* `SpecOver.Reaches` — what stands at the end of a branch that passes through a number of functions.
* `SpecOver.DeeperThan` — some branch passes through more functions than a limit.
* `SpecOver.NeverFails` — no function on any branch fails.
* `SpecOver.Wraps` — one specification alone inside a number of functions and any number of lists.

Functions of the theme may give each other up to a limit of `maxGeneratorDepth`. The limit is exact
and counts nesting alone (`resolve_nesting`): a specification whose functions do not fail resolves
if and only if none of its branches passes through more functions than that, and lists count for
nothing, neither their nesting nor the number of their items. At the limit a function is not called
any more, so that it makes no difference what it would give, or whether it would fail.

The leaves of a specification show where its branches end. A branch that is too deep is a leaf of
its own, the failure at the limit (`SpecOver.error_mem_leavesWithin_iff`), and a resolution succeeds
if no leaf is a failure (`SpecOver.exists_resolve_iff`). As with resolution itself, the induction is
on the number of calls that are left: an endless branch has no end to start from.
-/

namespace StyleSystem

namespace SpecOver

variable {F : Type} {call : Calls F} {θ : Theme}

/-! ### Branches -/

/-- **The end of a branch:** the branch leads from a specification to another one, through a number
of functions of the theme. -/
inductive Reaches (call : Calls F) (θ : Theme) : SpecOver F → Nat → SpecOver F → Prop where
  /-- The branch that ends where it starts. -/
  | here (s : SpecOver F) : Reaches call θ s 0 s
  /-- A branch of an item of a list. -/
  | item {items : List (SpecOver F)} {item t : SpecOver F} {n : Nat} :
    item ∈ items → Reaches call θ item n t → Reaches call θ (list items) n t
  /-- A branch of what a function gives. -/
  | output {f : F} {produced t : SpecOver F} {n : Nat} :
    call f θ = .ok produced → Reaches call θ produced n t → Reaches call θ (generator f) (n + 1) t

/-- Some branch passes through more functions of the theme than a limit. -/
def DeeperThan (s : SpecOver F) (call : Calls F) (θ : Theme) (limit : Nat) : Prop :=
  ∃ n t, s.Reaches call θ n t ∧ limit < n

/-- No function of the theme on a branch fails. -/
def NeverFails (s : SpecOver F) (call : Calls F) (θ : Theme) : Prop :=
  ∀ n f, s.Reaches call θ n (generator f) → ∃ produced, call f θ = .ok produced

/-- Branches go on from the functions among the members. -/
theorem reaches_of_mem_members {s t : SpecOver F} {f : F} {n : Nat}
    (hmem : Member.function f ∈ s.members) (hf : (generator f).Reaches call θ n t) :
    s.Reaches call θ n t := by
  induction s using itemInduction with
  | empty =>
    rw [members_empty] at hmem
    cases hmem
  | object s =>
    rw [members_object, List.mem_singleton] at hmem
    cases hmem
  | generator g =>
    rw [members_generator, List.mem_singleton] at hmem
    cases hmem
    exact hf
  | list items ih =>
    rw [members_list] at hmem
    obtain ⟨item, hitem, hmem⟩ := List.mem_flatMap.1 hmem
    exact .item hitem (ih item hitem hmem)

/-- **A branch that passes through a function** passes through one of the members first. -/
theorem reaches_succ_iff {s t : SpecOver F} {n : Nat} :
    s.Reaches call θ (n + 1) t ↔ ∃ f produced, Member.function f ∈ s.members ∧
      call f θ = .ok produced ∧ produced.Reaches call θ n t := by
  constructor
  · intro h
    -- lists may come before the first function, so the induction is on the branch
    generalize hk : n + 1 = k at h
    induction h with
    | here s => cases hk
    | @item items item t n hitem _ ih =>
      obtain ⟨f, produced, hf, hcall, hr⟩ := ih hk
      refine ⟨f, produced, ?_, hcall, hr⟩
      rw [members_list]
      exact List.mem_flatMap_of_mem hitem hf
    | @output f produced t n hcall hr _ =>
      cases hk
      exact ⟨f, produced, by rw [members_generator]; exact List.mem_cons_self, hcall, hr⟩
  · rintro ⟨f, produced, hf, hcall, hr⟩
    exact reaches_of_mem_members hf (.output hcall hr)

theorem deeperThan_zero_iff {s : SpecOver F} : s.DeeperThan call θ 0 ↔
    ∃ f produced, Member.function f ∈ s.members ∧ call f θ = .ok produced := by
  constructor
  · rintro ⟨n, t, hr, hn⟩
    obtain ⟨n, rfl⟩ := Nat.exists_eq_succ_of_ne_zero (Nat.ne_of_gt hn)
    obtain ⟨f, produced, hf, hcall, -⟩ := reaches_succ_iff.1 hr
    exact ⟨f, produced, hf, hcall⟩
  · rintro ⟨f, produced, hf, hcall⟩
    exact ⟨1, produced, reaches_succ_iff.2 ⟨f, produced, hf, hcall, .here produced⟩, Nat.one_pos⟩

/-- A specification is one deeper than what its functions give. -/
theorem deeperThan_succ_iff {s : SpecOver F} {limit : Nat} : s.DeeperThan call θ (limit + 1) ↔
    ∃ f produced, Member.function f ∈ s.members ∧ call f θ = .ok produced ∧
      produced.DeeperThan call θ limit := by
  constructor
  · rintro ⟨n, t, hr, hn⟩
    obtain ⟨n, rfl⟩ := Nat.exists_eq_succ_of_ne_zero (Nat.ne_of_gt (Nat.zero_lt_of_lt hn))
    obtain ⟨f, produced, hf, hcall, hr⟩ := reaches_succ_iff.1 hr
    exact ⟨f, produced, hf, hcall, n, t, hr, Nat.lt_of_succ_lt_succ hn⟩
  · rintro ⟨f, produced, hf, hcall, n, t, hr, hn⟩
    exact ⟨n + 1, t, reaches_succ_iff.2 ⟨f, produced, hf, hcall, hr⟩, Nat.succ_lt_succ hn⟩

/-- The functions that a specification holds do not fail, nor does what they give. -/
theorem NeverFails.exists_call {s : SpecOver F} (h : s.NeverFails call θ) {f : F}
    (hf : Member.function f ∈ s.members) :
    ∃ produced, call f θ = .ok produced ∧ produced.NeverFails call θ := by
  obtain ⟨produced, hcall⟩ := h 0 f (reaches_of_mem_members hf (.here _))
  refine ⟨produced, hcall, fun n g hr => ?_⟩
  exact h (n + 1) g (reaches_succ_iff.2 ⟨f, produced, hf, hcall, hr⟩)

/-! ### Leaves that are failures -/

/-- A resolution succeeds if no leaf is a failure. -/
theorem exists_resolve_iff (s : SpecOver F) :
    (∃ r, s.resolve call θ = .ok r) ↔ ∀ e, Except.error e ∉ s.leaves call θ := by
  rw [resolve_eq_foldlM]
  rcases exists_first_error_or_ok (s.leaves call θ) with ⟨styles, e, rest, hs⟩ | ⟨styles, hs⟩
  · rw [hs, foldlM_mergeLeaf_error]
    constructor
    · rintro ⟨r, hr⟩
      cases hr
    · intro h
      exact absurd (by simp) (h e)
  · rw [hs, foldlM_mergeLeaf_ok]
    constructor
    · intro _ e he
      obtain ⟨style, -, hstyle⟩ := List.mem_map.1 he
      cases hstyle
    · intro _
      exact ⟨_, rfl⟩

/-- A resolution fails with the failure of a leaf. -/
theorem exists_error_mem_of_resolve {s : SpecOver F} {e : ResolveError}
    (h : s.resolve call θ = .error e) : Except.error e ∈ s.leaves call θ := by
  rw [resolve_eq_foldlM] at h
  rcases exists_first_error_or_ok (s.leaves call θ) with ⟨styles, e', rest, hs⟩ | ⟨styles, hs⟩
  · rw [hs, foldlM_mergeLeaf_error] at h
    cases h
    rw [hs]
    simp
  · rw [hs, foldlM_mergeLeaf_ok] at h
    cases h

/-- The failures among the leaves come from functions. -/
theorem error_mem_flatMap_leaves {s : SpecOver F}
    {function : F → List (Except ResolveError Style)} {e : ResolveError} :
    Except.error e ∈ s.members.flatMap (Member.leaves function) ↔
      ∃ f, Member.function f ∈ s.members ∧ Except.error e ∈ function f := by
  rw [List.mem_flatMap]
  constructor
  · rintro ⟨m, hm, he⟩
    cases m with
    | style s =>
      cases List.mem_singleton.1 he
    | function f => exact ⟨f, hm, he⟩
  · rintro ⟨f, hf, he⟩
    exact ⟨.function f, hf, he⟩

/-- **Failures among the leaves.** If no function fails by itself, the failures are those at the
limit, and there is one if some branch is deeper than the calls that are left. -/
theorem error_mem_leavesWithin_iff {left : Nat} {s : SpecOver F} (hs : s.NeverFails call θ)
    {e : ResolveError} : Except.error e ∈ s.leavesWithin call θ left ↔
      e = .generatorDepth maxGeneratorDepth ∧ s.DeeperThan call θ left := by
  induction left generalizing s with
  | zero =>
    -- the limit is reached, and any function is one more
    rw [leavesWithin, error_mem_flatMap_leaves, deeperThan_zero_iff]
    constructor
    · rintro ⟨f, hf, he⟩
      cases List.mem_singleton.1 he
      obtain ⟨produced, hcall, -⟩ := hs.exists_call hf
      exact ⟨rfl, f, produced, hf, hcall⟩
    · rintro ⟨rfl, f, produced, hf, -⟩
      exact ⟨f, hf, List.mem_singleton_self _⟩
  | succ left ih =>
    rw [leavesWithin, error_mem_flatMap_leaves, deeperThan_succ_iff]
    constructor
    · rintro ⟨f, hf, he⟩
      obtain ⟨produced, hcall, hproduced⟩ := hs.exists_call hf
      rw [hcall] at he
      obtain ⟨he, hdeeper⟩ := (ih hproduced).1 he
      exact ⟨he, f, produced, hf, hcall, hdeeper⟩
    · rintro ⟨he, f, produced, hf, hcall, hdeeper⟩
      obtain ⟨produced', hcall', hproduced⟩ := hs.exists_call hf
      cases hcall.symm.trans hcall'
      refine ⟨f, hf, ?_⟩
      rw [hcall]
      exact (ih hproduced).2 ⟨he, hdeeper⟩

theorem error_mem_leaves_iff {s : SpecOver F} (hs : s.NeverFails call θ) {e : ResolveError} :
    Except.error e ∈ s.leaves call θ ↔
      e = .generatorDepth maxGeneratorDepth ∧ s.DeeperThan call θ maxGeneratorDepth :=
  error_mem_leavesWithin_iff hs

/-- Too deep a branch is the only reason to fail, and it is one. -/
theorem resolve_of_deeperThan {s : SpecOver F} (hs : s.NeverFails call θ)
    (hdeeper : s.DeeperThan call θ maxGeneratorDepth) :
    s.resolve call θ = .error (.generatorDepth maxGeneratorDepth) := by
  cases hr : s.resolve call θ with
  | ok r =>
    have hleaf := (error_mem_leaves_iff hs).2 ⟨rfl, hdeeper⟩
    exact absurd hleaf ((exists_resolve_iff s).1 ⟨r, hr⟩ _)
  | error e => rw [((error_mem_leaves_iff hs).1 (exists_error_mem_of_resolve hr)).1]

/-! ### Functions that are not called -/

/-- **What is asked of functions.** The leaves depend on the functions that fewer others enclose
than there are calls left. -/
theorem leavesWithin_congr {call' : Calls F} {left : Nat} {s : SpecOver F}
    (h : ∀ n f, s.Reaches call θ n (generator f) → n < left → call' f θ = call f θ) :
    s.leavesWithin call' θ left = s.leavesWithin call θ left := by
  induction left generalizing s with
  | zero => rfl
  | succ left ih =>
    rw [leavesWithin, leavesWithin]
    refine List.flatMap_congr fun m hm => ?_
    cases m with
    | style s => rfl
    | function f =>
      show calledLeaves _ (call' f θ) = calledLeaves _ (call f θ)
      rw [h 0 f (reaches_of_mem_members hm (.here _)) (Nat.succ_pos left)]
      cases hcall : call f θ with
      | error source => rfl
      | ok produced =>
        -- below `f` one call less is left, and every branch is longer by one
        refine ih fun n g hr hn => h (n + 1) g ?_ (Nat.succ_lt_succ hn)
        exact reaches_succ_iff.2 ⟨f, produced, hm, hcall, hr⟩

theorem resolve_congr_calls {call' : Calls F} {s : SpecOver F}
    (h : ∀ n f, s.Reaches call θ n (generator f) → n < maxGeneratorDepth →
      call' f θ = call f θ) : s.resolve call' θ = s.resolve call θ := by
  rw [resolve_eq_foldlM, resolve_eq_foldlM]
  exact congrArg (List.foldlM (mergeLeaf θ) .empty) (leavesWithin_congr h)

/-! ### Lists and wrapped specifications -/

/-- A list resolves if each of its items does. -/
theorem exists_resolve_list_iff (items : List (SpecOver F)) :
    (∃ r, (list items).resolve call θ = .ok r) ↔
      ∀ item ∈ items, ∃ r, item.resolve call θ = .ok r := by
  simp only [exists_resolve_iff, leaves_list, List.mem_flatMap, not_exists, not_and]
  constructor
  · intro h item hitem e
    exact h e item hitem
  · intro h e item hitem
    exact h item hitem e

/-- **Wrapping.** A specification alone inside a number of functions of the theme, and inside any
number of lists between them. -/
inductive Wraps (call : Calls F) (θ : Theme) (s : SpecOver F) : Nat → SpecOver F → Prop where
  /-- The bare specification. -/
  | bare : Wraps call θ s 0 s
  /-- One more list. -/
  | inList {n : Nat} {t : SpecOver F} : Wraps call θ s n t → Wraps call θ s n (list [t])
  /-- One more function of the theme. -/
  | inFunction {n : Nat} {t : SpecOver F} {f : F} :
    call f θ = .ok t → Wraps call θ s n t → Wraps call θ s (n + 1) (generator f)

theorem leavesWithin_generator_succ {f : F} {produced : SpecOver F}
    (hcall : call f θ = .ok produced) (left : Nat) :
    (generator f).leavesWithin call θ (left + 1) = produced.leavesWithin call θ left := by
  rw [leavesWithin, members_generator, List.flatMap_singleton]
  show calledLeaves _ (call f θ) = _
  rw [hcall]
  rfl

/-- **The leaves of a wrapped specification** are those of the bare one, as long as the functions
around it can all be called. -/
theorem leavesWithin_of_wraps {s t : SpecOver F} {n : Nat} (h : s.Wraps call θ n t) (left : Nat) :
    t.leavesWithin call θ (left + n) = s.leavesWithin call θ left := by
  induction h with
  | bare => rfl
  | inList _ ih => rw [leavesWithin_list, List.flatMap_singleton, ih]
  | inFunction hcall _ ih => rw [← Nat.add_assoc, leavesWithin_generator_succ hcall, ih]

/-- And if they cannot, nothing is left but the failure at the limit. -/
theorem leavesWithin_of_wraps_of_lt {s t : SpecOver F} {n left : Nat} (h : s.Wraps call θ n t)
    (hn : left < n) :
    t.leavesWithin call θ left = [.error (.generatorDepth maxGeneratorDepth)] := by
  induction h generalizing left with
  | bare => cases hn
  | inList _ ih => rw [leavesWithin_list, List.flatMap_singleton, ih hn]
  | inFunction hcall _ ih =>
    cases left with
    | zero => rw [leavesWithin, members_generator, List.flatMap_singleton, Member.leaves]
    | succ left => rw [leavesWithin_generator_succ hcall, ih (Nat.lt_of_succ_lt_succ hn)]

theorem resolve_of_wraps {s t : SpecOver F} {n : Nat} (h : s.Wraps call θ n t)
    (hn : n ≤ maxGeneratorDepth) (hs : s.isGeneratorFree = true) :
    t.resolve call θ = s.resolve call θ := by
  obtain ⟨left, hleft⟩ : ∃ left, maxGeneratorDepth = left + n :=
    ⟨maxGeneratorDepth - n, (Nat.sub_add_cancel hn).symm⟩
  apply resolve_congr
  calc t.leaves call θ
      = s.leavesWithin call θ left := by rw [leaves, hleft, leavesWithin_of_wraps h]
    _ = s.leaves call θ := by
        rw [leaves, leavesWithin_of_isGeneratorFree hs, leavesWithin_of_isGeneratorFree hs]

theorem resolve_of_wraps_of_lt {s t : SpecOver F} {n : Nat} (h : s.Wraps call θ n t)
    (hn : maxGeneratorDepth < n) :
    t.resolve call θ = .error (.generatorDepth maxGeneratorDepth) := by
  rw [resolve_eq_foldlM, leaves, leavesWithin_of_wraps_of_lt h hn]
  rfl

end SpecOver

/-- **The limit is exact, and it counts nesting alone.** A specification whose functions of the
theme do not fail resolves if and only if no branch passes through more than 64 of them, and else it
fails at the limit; a branch may be endless. A list resolves if its items do, however many there
are. Alone inside up to 64 functions, with any number of lists between them, a specification without
functions resolves as it does by itself; inside more of them every specification fails. A function
inside 64 others is not called: what it would give makes no difference. -/
theorem resolve_nesting {F : Type} (call : Calls F) (θ : Theme) :
    (∀ s : SpecOver F, s.NeverFails call θ →
      ((∃ r, s.resolve call θ = .ok r) ↔ ¬ s.DeeperThan call θ 64) ∧
      (s.DeeperThan call θ 64 → s.resolve call θ = .error (.generatorDepth 64))) ∧
    (∀ items : List (SpecOver F), (∃ r, (SpecOver.list items).resolve call θ = .ok r) ↔
      ∀ item ∈ items, ∃ r, item.resolve call θ = .ok r) ∧
    (∀ (s t : SpecOver F) (n : Nat), s.Wraps call θ n t →
      (n ≤ 64 → s.isGeneratorFree = true → t.resolve call θ = s.resolve call θ) ∧
      (64 < n → t.resolve call θ = .error (.generatorDepth 64))) ∧
    ∀ (s : SpecOver F) (call' : Calls F),
      (∀ n f, s.Reaches call θ n (.generator f) → n < 64 → call' f θ = call f θ) →
      s.resolve call' θ = s.resolve call θ := by
  refine ⟨?_, SpecOver.exists_resolve_list_iff, ?_, ?_⟩
  · intro s hs
    refine ⟨⟨?_, ?_⟩, SpecOver.resolve_of_deeperThan hs⟩
    · -- too deep a branch makes it fail
      rintro ⟨r, hr⟩ hdeeper
      cases hr.symm.trans (SpecOver.resolve_of_deeperThan hs hdeeper)
    · -- a failure among the leaves would be the end of a branch that is too deep
      intro hwithin
      rw [SpecOver.exists_resolve_iff]
      intro e he
      exact hwithin ((SpecOver.error_mem_leaves_iff hs).1 he).2
  · intro s t n h
    exact ⟨SpecOver.resolve_of_wraps h, SpecOver.resolve_of_wraps_of_lt h⟩
  · intro s call' h
    exact SpecOver.resolve_congr_calls h

/-- Functions of the theme: one that gives itself, and the floors of a tower, each of which gives
the one below it. -/
inductive Tower where
  | endless
  | floor (height : Nat)
  deriving DecidableEq

namespace Tower

/-- What the functions give. Below the tower stands a style that asks the theme. -/
def call : Calls Tower
  | endless, _ => .ok (.generator endless)
  | floor 0, θ => .ok (.object (.ofEntries [("width", θ.space (.number (.int 3)))]))
  | floor (height + 1), _ => .ok (.list [.generator (floor height)])

/-- The same functions, but the lowest floor fails. -/
def callSunken : Calls Tower
  | floor 0, _ => .error "flooded"
  | f, θ => call f θ

/-- Two towers as high as the limit, one beside the other. -/
def twins : SpecOver Tower :=
  .list [.generator (floor 63), .list [.list [.generator (floor 63)], .empty]]

theorem exists_call (f : Tower) (θ : Theme) : ∃ produced, call f θ = .ok produced := by
  cases f with
  | endless => exact ⟨_, rfl⟩
  | floor height =>
    cases height with
    | zero => exact ⟨_, rfl⟩
    | succ height => exact ⟨_, rfl⟩

theorem neverFails (s : SpecOver Tower) (θ : Theme) : s.NeverFails call θ :=
  fun _ f _ => exists_call f θ

/-- The function that gives itself is on a branch of every length. -/
theorem reaches_endless (θ : Theme) (n : Nat) :
    (SpecOver.generator endless).Reaches call θ n (.generator endless) := by
  induction n with
  | zero => exact .here _
  | succ n ih => exact .output rfl ih

/-- A tower is as deep as it is high, and a floor of height 0 counts, too. -/
theorem not_deeperThan_floor (θ : Theme) (height : Nat) :
    ¬ (SpecOver.generator (floor height)).DeeperThan call θ (height + 1) := by
  induction height with
  | zero =>
    rw [SpecOver.deeperThan_succ_iff]
    rintro ⟨f, produced, hf, hcall, hdeeper⟩
    rw [SpecOver.members_generator, List.mem_singleton] at hf
    cases hf
    cases hcall
    obtain ⟨g, _, hg, -⟩ := SpecOver.deeperThan_zero_iff.1 hdeeper
    rw [SpecOver.members_object, List.mem_singleton] at hg
    cases hg
  | succ height ih =>
    rw [SpecOver.deeperThan_succ_iff]
    rintro ⟨f, produced, hf, hcall, hdeeper⟩
    rw [SpecOver.members_generator, List.mem_singleton] at hf
    cases hf
    cases hcall
    -- the list around the next floor changes nothing
    obtain ⟨n, t, hr, hn⟩ := hdeeper
    cases hr with
    | here => cases hn
    | item hitem hr =>
      cases List.mem_singleton.1 hitem
      exact ih ⟨n, t, hr, hn⟩

/-- Down the tower each floor is inside one function more. -/
theorem eq_floor_of_reaches {θ : Theme} {height n : Nat} {f : Tower}
    (h : (SpecOver.generator (floor height)).Reaches call θ n (.generator f)) :
    ∃ k, f = floor k ∧ k + n = height := by
  induction height generalizing n with
  | zero =>
    cases h with
    | here => exact ⟨0, rfl, rfl⟩
    | output hcall hr =>
      cases hcall
      cases hr
  | succ height ih =>
    cases h with
    | here => exact ⟨height + 1, rfl, rfl⟩
    | output hcall hr =>
      cases hcall
      cases hr with
      | item hitem hr =>
        -- the list around the next floor is passed on the way
        cases List.mem_singleton.1 hitem
        obtain ⟨k, rfl, hk⟩ := ih hr
        exact ⟨k, rfl, congrArg (· + 1) hk⟩

theorem wraps_floor (θ : Theme) (height : Nat) :
    (SpecOver.object (.ofEntries [("width", θ.space (.number (.int 3)))])).Wraps call θ
      (height + 1) (.generator (floor height)) := by
  induction height with
  | zero => exact .inFunction rfl .bare
  | succ height ih => exact .inFunction rfl (.inList ih)

end Tower

open Tower in
theorem resolve_nesting_tower :
    (twins.NeverFails Tower.call .default ∧ ∃ r, twins.resolve Tower.call .default = .ok r) ∧
    ((SpecOver.generator endless).DeeperThan Tower.call .default 64 ∧
      (SpecOver.generator endless).resolve Tower.call .default = .error (.generatorDepth 64)) ∧
    (SpecOver.generator (floor 63)).resolve Tower.call .default =
      (SpecOver.object (.ofEntries [("width", .string "24px")])).resolve Tower.call .default ∧
    (SpecOver.generator (floor 64)).resolve Tower.call .default = .error (.generatorDepth 64) ∧
    (SpecOver.generator (floor 64)).resolve callSunken .default =
      (SpecOver.generator (floor 64)).resolve Tower.call .default := by
  obtain ⟨hmain, hlists, hwraps, hasked⟩ := resolve_nesting Tower.call .default
  have htower : ∃ r, (SpecOver.generator (floor 63)).resolve Tower.call .default = .ok r :=
    (hmain _ (neverFails _ _)).1.2 (not_deeperThan_floor .default 63)
  have hdeeper : (SpecOver.generator endless).DeeperThan Tower.call .default 64 :=
    ⟨65, _, reaches_endless .default 65, by decide⟩
  refine ⟨⟨neverFails _ _, ?_⟩, ⟨hdeeper, (hmain _ (neverFails _ _)).2 hdeeper⟩, ?_, ?_, ?_⟩
  · -- two towers side by side, each of them within the limit
    rw [twins, hlists]
    have hempty : ∃ r, (SpecOver.empty : SpecOver Tower).resolve Tower.call .default = .ok r :=
      ⟨_, rfl⟩
    simp only [List.forall_mem_cons, List.not_mem_nil, false_implies, implies_true, and_true]
    refine ⟨htower, ?_⟩
    rw [hlists]
    simp only [List.forall_mem_cons, List.not_mem_nil, false_implies, implies_true, and_true]
    refine ⟨?_, hempty⟩
    rw [hlists]
    exact List.forall_mem_singleton.2 htower
  · have hspace : Theme.default.space (.number (.int 3)) = .string "24px" := by decide +kernel
    rw [← hspace]
    exact (hwraps _ _ 64 (wraps_floor .default 63)).1 (by decide) rfl
  · exact (hwraps _ _ 65 (wraps_floor .default 64)).2 (by decide)
  · -- the floor that fails is inside 64 others
    refine hasked _ callSunken fun n f hr hn => ?_
    obtain ⟨k, rfl, hk⟩ := eq_floor_of_reaches hr
    cases k with
    | zero => omega
    | succ k => rfl

end StyleSystem
