import StyleSystem.Text.Basic
import StyleSystem.Theme.Basic

/-!
# Theme configurations

A configuration may set the spacing unit and the widths of tiers by their names; what it leaves out
keeps its default. It makes a theme if every name is that of a tier and the theme is valid, and
otherwise a `ThemeError`.
-/

namespace StyleSystem

/-!
## Faults of themes

`ThemeError` has one constructor for each reason why no theme can be built; `ThemeError.message` is
its wording.
-/

/-- Why a configuration file cannot be read. -/
inductive ReadFault where
  /-- There is no such file. -/
  | notFound
  /-- The path leads to a directory. -/
  | isDirectory
  /-- The bytes are no UTF-8 text. -/
  | notText
  deriving DecidableEq, Repr

/-- The wording of a read fault. -/
def ReadFault.message : ReadFault → String
  | notFound => "No such file or directory (os error 2)"
  | isDirectory => "Is a directory (os error 21)"
  | notText => "stream did not contain valid UTF-8"

/-- Why a theme cannot be built. -/
inductive ThemeError where
  /-- The text is no configuration document. -/
  | malformed
  /-- The configuration file cannot be read. -/
  | unreadable (path : String) (fault : ReadFault)
  /-- A width is given for a name that no tier has. -/
  | unknownTier (name : String)
  /-- The spacing unit is negative, infinite or NaN. -/
  | invalidSpacing (unit : Binary64)
  /-- A tier is narrower than the tier before it. -/
  | unordered (smaller : Tier) (smallerWidth : UInt32) (larger : Tier) (largerWidth : UInt32)
  deriving DecidableEq

/-- **The wording of a fault.** -/
def ThemeError.message : ThemeError → String
  | malformed => "invalid theme config"
  | unreadable path fault =>
    "failed to read theme config " ++ Text.quoted path ++ ": " ++ fault.message
  | unknownTier name =>
    "unknown breakpoint '" ++ name ++ "' (expected one of: " ++
      ", ".intercalate (Tier.all.map Tier.name) ++ ")"
  | invalidSpacing unit =>
    "invalid spacing unit " ++ unit.plainText ++ ": must be finite and non-negative"
  | unordered smaller smallerWidth larger largerWidth =>
    "breakpoint '" ++ larger.name ++ "' (" ++ toString largerWidth.toNat ++
      "px) is narrower than '" ++ smaller.name ++ "' (" ++ toString smallerWidth.toNat ++ "px)"

/-!
## Valid themes

A theme is valid if no tier is narrower than the one before it and its spacing unit, if it has one,
is finite and not negative. Styles can be resolved with any theme, but the conditional blocks of a
theme whose widths decrease override each other in the wrong order.
-/

/-- The first of two neighbouring tiers of which the larger one is narrower. -/
def firstDecrease? : List (Tier × UInt32) → Option ThemeError
  | (smaller, smallerWidth) :: (larger, largerWidth) :: rest =>
    if largerWidth < smallerWidth then
      some (.unordered smaller smallerWidth larger largerWidth)
    else firstDecrease? ((larger, largerWidth) :: rest)
  | _ => none

/-- The fault of a spacing scale. A function has none. -/
def Spacing.fault? : Spacing → Option ThemeError
  | .unit u => if u.isFinite && !u.isBelowZero then none else some (.invalidSpacing u)
  | .custom _ => none

/-- **The first fault of a theme:** its widths are looked at before its spacing. -/
def Theme.fault? (θ : Theme) : Option ThemeError :=
  (firstDecrease? θ.breakpoints.toList).or θ.spacing.fault?

/-!
## Named widths

The widths of a configuration by tier name. The names are kept in ascending order, each once, so
that two configurations with the same widths are equal and the first unknown name is the least
one.
-/

/-- Widths by name, the names in ascending order. -/
structure Widths where
  entries : List (String × UInt32) := []
  ascending : entries.Pairwise (fun a b => a.1 < b.1) := by simp

namespace Widths

@[ext] theorem ext {a b : Widths} (h : a.entries = b.entries) : a = b := by
  cases a; cases b; cases h; rfl

instance : DecidableEq Widths := fun a b =>
  decidable_of_iff (a.entries = b.entries) ⟨ext, congrArg entries⟩

/-- No widths. -/
def empty : Widths := {}

instance : Inhabited Widths := ⟨empty⟩

/-- The entries with a width set for a name: the older width of the name is replaced. -/
def insertInto (name : String) (width : UInt32) : List (String × UInt32) → List (String × UInt32)
  | [] => [(name, width)]
  | (n, w) :: rest =>
    if name < n then (name, width) :: (n, w) :: rest
    else if n < name then (n, w) :: insertInto name width rest
    else (n, width) :: rest

theorem mem_insertInto {name n : String} {width w : UInt32} {es : List (String × UInt32)}
    (h : (n, w) ∈ insertInto name width es) : n = name ∨ ∃ w', (n, w') ∈ es := by
  induction es with
  | nil =>
    simp only [insertInto, List.mem_singleton, Prod.mk.injEq] at h
    exact .inl h.1
  | cons e es ih =>
    obtain ⟨n', w'⟩ := e
    simp only [insertInto] at h
    split at h
    · -- the new name is the least one
      rcases List.mem_cons.1 h with h | h
      · cases h; exact .inl rfl
      · exact .inr ⟨w, h⟩
    · split at h
      · -- the new name goes in further down
        rcases List.mem_cons.1 h with h | h
        · cases h; exact .inr ⟨_, List.mem_cons_self⟩
        · rcases ih h with h | ⟨w'', h⟩
          · exact .inl h
          · exact .inr ⟨w'', List.mem_cons_of_mem _ h⟩
      · -- the name is there already
        rcases List.mem_cons.1 h with h | h
        · cases h; exact .inr ⟨_, List.mem_cons_self⟩
        · exact .inr ⟨w, List.mem_cons_of_mem _ h⟩

theorem ascending_insertInto {name : String} {width : UInt32} {es : List (String × UInt32)}
    (h : es.Pairwise (fun a b => a.1 < b.1)) :
    (insertInto name width es).Pairwise (fun a b => a.1 < b.1) := by
  induction es with
  | nil => simp [insertInto]
  | cons e es ih =>
    obtain ⟨n, w⟩ := e
    have hn := (List.pairwise_cons.1 h).1
    have hes := (List.pairwise_cons.1 h).2
    simp only [insertInto]
    split
    · -- the new name is the least one
      rename_i hlt
      refine List.pairwise_cons.2 ⟨?_, h⟩
      intro p hp
      rcases List.mem_cons.1 hp with hp | hp
      · rw [hp]; exact hlt
      · exact String.lt_trans hlt (hn p hp)
    · split
      · -- the new name goes in further down
        rename_i hlt
        refine List.pairwise_cons.2 ⟨?_, ih hes⟩
        rintro ⟨n', w'⟩ hp
        rcases mem_insertInto hp with hp | ⟨w'', hp⟩
        · rw [hp]; exact hlt
        · exact hn (n', w'') hp
      · -- the name is there already, and only its width changes
        exact List.pairwise_cons.2 ⟨hn, hes⟩

/-- A name that comes after all others is put at the end. -/
theorem insertInto_of_lt {name : String} {width : UInt32} {es : List (String × UInt32)}
    (h : ∀ e ∈ es, e.1 < name) : insertInto name width es = es ++ [(name, width)] := by
  induction es with
  | nil => rfl
  | cons e es ih =>
    obtain ⟨n, w⟩ := e
    have hlt : n < name := h (n, w) List.mem_cons_self
    rw [insertInto, if_neg (String.lt_asymm hlt), if_pos hlt,
      ih fun e he => h e (List.mem_cons_of_mem _ he)]
    rfl

/-- **Sets the width of a name.** -/
def insert (ws : Widths) (name : String) (width : UInt32) : Widths :=
  ⟨insertInto name width ws.entries, ascending_insertInto ws.ascending⟩

/-- The widths set by a list one after the other: of a repeated name the last one counts. -/
def ofList (es : List (String × UInt32)) : Widths := es.foldl (fun ws e => ws.insert e.1 e.2) empty

/-- **Widths in ascending order are set one after the other.** -/
theorem ofList_entries (ws : Widths) : ofList ws.entries = ws := by
  have hfold (es : List (String × UInt32)) (older : Widths)
      (h : (older.entries ++ es).Pairwise fun a b => a.1 < b.1) :
      (es.foldl (fun ws e => ws.insert e.1 e.2) older).entries = older.entries ++ es := by
    induction es generalizing older with
    | nil => exact (List.append_nil _).symm
    | cons e es ih =>
      have hinsert : (older.insert e.1 e.2).entries = older.entries ++ [e] :=
        insertInto_of_lt fun e' he' => (List.pairwise_append.1 h).2.2 e' he' e List.mem_cons_self
      have hordered : ((older.insert e.1 e.2).entries ++ es).Pairwise fun a b => a.1 < b.1 := by
        rw [hinsert, List.append_assoc]
        exact h
      rw [List.foldl_cons, ih _ hordered, hinsert, List.append_assoc]
      rfl
  exact ext (hfold ws.entries empty ws.ascending)

end Widths

/-! ## Configurations -/

/-- What a configuration document says about a theme. -/
structure Config where
  spacing : Option Binary64 := none
  widths : Widths := .empty
  deriving DecidableEq, Inhabited

namespace Config

/-- Whether two configurations say the same, with numeric equality of the units: a unit that is not
a number differs from itself. -/
def agrees (a b : Config) : Bool :=
  a.widths = b.widths &&
    match a.spacing, b.spacing with
    | some x, some y => x.sameNumber y
    | none, none => true
    | _, _ => false

/-- The least name that is not that of a tier. -/
def unknownName? (c : Config) : Option String :=
  (c.widths.entries.find? fun e => !Tier.isName e.1).map Prod.fst

/-- The settings of the names that are tiers. -/
def widthSteps (c : Config) : List Theme.Step :=
  c.widths.entries.filterMap fun e => (Tier.ofName? e.1).map fun t => .width t e.2

/-- The settings that a configuration makes. -/
def steps (c : Config) : List Theme.Step :=
  (c.spacing.map fun unit => Theme.Step.spacing (.unit unit)).toList ++ c.widthSteps

end Config

/-- **The theme of a configuration.** An unknown name is the first fault, and the faults of the
theme itself come after it. -/
def Theme.ofConfig (c : Config) : Except ThemeError Theme :=
  match c.unknownName? with
  | some name => .error (.unknownTier name)
  | none =>
    let θ := Theme.build c.steps
    match θ.fault? with
    | some e => .error e
    | none => .ok θ

end StyleSystem
