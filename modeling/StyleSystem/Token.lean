import StyleSystem.Text.Basic

/-!
# Design tokens

A design token is a name in place of a plain value. There are tokens for colors, for the radii of
corners and for the shadows of boxes, and almost all of them resolve into a chain of references to
custom properties that ends in a literal.

* `resolveColor?`, `resolveRadius?`, `resolveShadow?` — what a text stands for that names a token.
-/

namespace StyleSystem

/-!
## Fallback chains

A design token resolves into a chain of references to custom properties that ends in a literal, so
that a page which defines neither property still gets a value it can draw:

`var(--ld-color-primary-hover, var(--color-primary-hover, #2563eb))`

* `chain` — the chain of a token.
* `reference` — the first reference of such a chain, alone.
* `isReference` — whether a text already refers to a custom property.
-/

namespace Token

/-- The start of the names of the system's own custom properties. -/
def ownStart : String := "--ld-"

/-- The start of the names of the older custom properties, which the chain falls back to. -/
def legacyStart : String := "--"

/-- **The fallback chain** of the token `name` of a family such as `color`. -/
def chain (family name literal : String) : String :=
  "var(" ++ ownStart ++ family ++ "-" ++ name ++ ", var(" ++ legacyStart ++ family ++ "-" ++ name ++
    ", " ++ literal ++ "))"

/-- The reference to the system's own property for a color, whether or not the name is known. -/
def colorReference (name : String) : String := "var(" ++ ownStart ++ "color-" ++ name ++ ")"

/-- Whether a text is a reference (`var(…)`) or the name of a custom property (`--…`), apart from
white space in front of it. -/
def isReference (cs : List Char) : Bool :=
  Text.startsWith (Text.trimStart cs) "var(" || Text.startsWith (Text.trimStart cs) "--"

end Token

/-!
## Color tokens

A color token is a role, alone or with a state: `primary`, `primary.hover`, and with a dash in
place of the dot `primary-hover`. White space around it does not matter.

* `ColorToken.parse?` — the token that a text names.
* `ColorToken.chain` — its fallback chain.
* `isColorLiteral` — whether a text is a color in its own right.
* `resolveColor?` — the chain of a text that names a token and is no color in its own right.
-/

/-! ### Roles and states -/

/-- What a color is for. -/
inductive ColorRole where
  | primary | secondary | success | danger | warning | info | neutral | background | text | border
  | surface
  deriving DecidableEq, Repr

namespace ColorRole

/-- The roles in their order of declaration. -/
def all : List ColorRole :=
  [primary, secondary, success, danger, warning, info, neutral, background, text, border, surface]

/-- The name of a role in tokens. -/
def name : ColorRole → String
  | primary => "primary"
  | secondary => "secondary"
  | success => "success"
  | danger => "danger"
  | warning => "warning"
  | info => "info"
  | neutral => "neutral"
  | background => "background"
  | text => "text"
  | border => "border"
  | surface => "surface"

/-- The role with a name. -/
def ofName? (s : String) : Option ColorRole := all.find? fun r => r.name = s

theorem ofName?_name (r : ColorRole) : ofName? r.name = some r := by cases r <;> decide

theorem ofName?_eq_some_iff {s : String} {r : ColorRole} : ofName? s = some r ↔ r.name = s := by
  constructor
  · intro h
    simpa using List.find?_some h
  · rintro rfl
    exact ofName?_name r

/-- The color of a role when nothing more specific is known. -/
def defaultColor : ColorRole → String
  | primary => "#3b82f6"
  | secondary => "#e5e7eb"
  | success => "#22c55e"
  | danger => "#ef4444"
  | warning => "#f59e0b"
  | info => "#0ea5e9"
  | neutral => "#6b7280"
  | background => "#0b0f16"
  | text => "#e5e7eb"
  | border => "#1f2937"
  | surface => "#12131a"

end ColorRole

/-- A state or a variant of a role. -/
inductive ColorState where
  | default | hover | active | disabled | muted | contrast | secondary | level0 | level1 | level2
  | outlinedBorder | solid | solidBg | soft | softBg | plain | plainColor
  deriving DecidableEq, Repr

namespace ColorState

/-- The states in their order of declaration. -/
def all : List ColorState :=
  [default, hover, active, disabled, muted, contrast, secondary, level0, level1, level2,
   outlinedBorder, solid, solidBg, soft, softBg, plain, plainColor]

/-- The name of a state in tokens. -/
def name : ColorState → String
  | default => "default"
  | hover => "hover"
  | active => "active"
  | disabled => "disabled"
  | muted => "muted"
  | contrast => "contrast"
  | secondary => "secondary"
  | level0 => "level0"
  | level1 => "level1"
  | level2 => "level2"
  | outlinedBorder => "outlinedBorder"
  | solid => "solid"
  | solidBg => "solidBg"
  | soft => "soft"
  | softBg => "softBg"
  | plain => "plain"
  | plainColor => "plainColor"

/-- The state with a name. -/
def ofName? (s : String) : Option ColorState := all.find? fun st => st.name = s

theorem ofName?_name (st : ColorState) : ofName? st.name = some st := by cases st <;> decide

theorem ofName?_eq_some_iff {s : String} {st : ColorState} : ofName? s = some st ↔ st.name = s := by
  constructor
  · intro h
    simpa using List.find?_some h
  · rintro rfl
    exact ofName?_name st

end ColorState

/-! ### Tokens -/

/-- A role with an optional state. -/
structure ColorToken where
  role : ColorRole
  state : Option ColorState
  deriving DecidableEq, Repr

/-- The two parts of a text around its first occurrence of a character. -/
def splitAtFirst? (c : Char) : List Char → Option (List Char × List Char)
  | [] => none
  | d :: rest =>
    if d = c then some ([], rest)
    else (splitAtFirst? c rest).map fun (before, after) => (d :: before, after)

theorem splitAtFirst?_eq_none_iff {c : Char} {cs : List Char} :
    splitAtFirst? c cs = none ↔ c ∉ cs := by
  induction cs with
  | nil => simp [splitAtFirst?]
  | cons d rest ih =>
    rw [splitAtFirst?, List.mem_cons, not_or]
    split
    · next hd => simp [hd]
    · next hd => simp [ih, Ne.symm hd]

/-- The split is at the first occurrence. -/
theorem splitAtFirst?_eq_some_iff {c : Char} {cs before after : List Char} :
    splitAtFirst? c cs = some (before, after) ↔ cs = before ++ c :: after ∧ c ∉ before := by
  induction cs generalizing before with
  | nil => simp [splitAtFirst?]
  | cons d rest ih =>
    rw [splitAtFirst?]
    split
    · next hd =>
      -- nothing stands before it
      subst hd
      cases before with
      | nil => simp
      | cons e before => simp +contextual [eq_comm]
    · next hd =>
      rw [Option.map_eq_some_iff]
      cases before with
      | nil => simp [hd]
      | cons e before =>
        simp only [Prod.exists, Prod.mk.injEq, List.cons.injEq, List.cons_append, List.mem_cons,
          not_or]
        constructor
        · rintro ⟨before, after, h, ⟨rfl, rfl⟩, rfl⟩
          obtain ⟨hrest, hnew⟩ := ih.1 h
          exact ⟨⟨rfl, hrest⟩, fun h => hd h.symm, hnew⟩
        · rintro ⟨⟨rfl, hrest⟩, -, hnew⟩
          exact ⟨before, after, ih.2 ⟨hrest, hnew⟩, ⟨rfl, rfl⟩, rfl⟩

namespace ColorToken

/-- The role and the state that a text consists of, the first dot or, where there is no dot, the
first dash between them. -/
def ofChars? (cs : List Char) : Option ColorToken :=
  match (splitAtFirst? '.' cs).or (splitAtFirst? '-' cs) with
  | some (role, state) => do
    let role ← ColorRole.ofName? (.ofList role)
    let state ← ColorState.ofName? (.ofList state)
    return ⟨role, some state⟩
  | none => (ColorRole.ofName? (.ofList cs)).map fun role => ⟨role, none⟩

/-- **The token that a text names,** white space around it aside. -/
def parse? (s : String) : Option ColorToken := ofChars? (Text.trim s.toList)

/-- The name shared by the custom properties of a token, such as `primary-hover`. -/
def referenceName (t : ColorToken) : String :=
  match t.state with
  | some state => t.role.name ++ "-" ++ state.name
  | none => t.role.name

/-- The colors of the pairs that do not take the color of their role. -/
def pairColor? : ColorRole → ColorState → Option String
  | .primary, .hover => some "#2563eb"
  | .primary, .active => some "#1d4ed8"
  | .primary, .contrast => some "#ffffff"
  | .secondary, .hover => some "#d1d5db"
  | .secondary, .disabled => some "#f3f4f6"
  | .background, .level0 => some "#0b0f16"
  | .background, .level1 => some "#0e0e12"
  | .background, .level2 => some "#12131a"
  | .text, .secondary => some "#9ca3af"
  | .text, .muted => some "#9ca3af"
  | .text, .disabled => some "#6b7280"
  | .border, .default => some "#1f2937"
  | _, _ => none

/-- The literal color of a token: that of the pair if there is one, else that of the role. -/
def literal (t : ColorToken) : String :=
  ((t.state.bind (pairColor? t.role))).getD t.role.defaultColor

/-- The fallback chain of a token. -/
def chain (t : ColorToken) : String := Token.chain "color" t.referenceName t.literal

end ColorToken

/-! ### Colors in their own right -/

/-- The color keywords that are left alone, in lower case. -/
def colorKeywords : List String :=
  ["black", "silver", "gray", "grey", "white", "maroon", "red", "purple", "fuchsia", "green",
   "lime", "olive", "yellow", "navy", "blue", "teal", "aqua", "orange", "aliceblue",
   "antiquewhite", "transparent", "currentcolor", "inherit", "initial", "revert", "unset"]

/-- The starts of the functional color forms, in lower case. -/
def colorFunctions : List String :=
  ["rgb(", "rgba(", "hsl(", "hsla(", "hwb(", "lab(", "lch(", "oklab(", "oklch(", "color("]

/-- Whether a text, white space around it aside, is a color in its own right: a hexadecimal color,
a reference, a functional form or a keyword. Only the last two ignore the case of ASCII letters. -/
def isColorLiteral (s : String) : Bool :=
  let cs := Text.trim s.toList
  let lower := cs.map Char.toLower
  Text.startsWith cs "#" || Token.isReference cs ||
    colorFunctions.any (fun f => Text.startsWith lower f) ||
    colorKeywords.any (fun k => k.toList = lower)

/-- **The fallback chain of a text that names a color token.** A color in its own right is left
alone, and so is every other text. -/
def resolveColor? (s : String) : Option String :=
  if isColorLiteral s then none else (ColorToken.parse? s).map ColorToken.chain

/-- The reference for a color token, white space around it aside and with dots read as dashes. The
names are not looked up. -/
def colorVar (s : String) : String :=
  Token.colorReference
    (.ofList ((Text.trim s.toList).map fun c => if c = '.' then '-' else c))

/-!
## Radius tokens

The scale of corner radii. All steps but the two layout constants `pill` and `circle` resolve into
a fallback chain.
-/

/-- A step of the radius scale. -/
inductive RadiusToken where
  | sm | md | lg | xl | xxl | pill | circle
  deriving DecidableEq, Repr

namespace RadiusToken

/-- The steps, the smallest first and the two constants last. -/
def all : List RadiusToken := [sm, md, lg, xl, xxl, pill, circle]

/-- The name of a step. -/
def name : RadiusToken → String
  | sm => "sm"
  | md => "md"
  | lg => "lg"
  | xl => "xl"
  | xxl => "2xl"
  | pill => "pill"
  | circle => "circle"

/-- The step with a name. -/
def ofName? (s : String) : Option RadiusToken := all.find? fun t => t.name = s

/-- The length of a step. -/
def literal : RadiusToken → String
  | sm => "4px"
  | md => "8px"
  | lg => "16px"
  | xl => "20px"
  | xxl => "24px"
  | pill => "9999px"
  | circle => "50%"

/-- Whether a theme may redefine a step. -/
def isThemeable : RadiusToken → Bool
  | pill | circle => false
  | _ => true

/-- The value of a step: its fallback chain, or its length if it cannot be redefined. -/
def resolve (t : RadiusToken) : String :=
  if t.isThemeable then Token.chain "radius" t.name t.literal else t.literal

end RadiusToken

/-- The value of the radius step that a text names, white space around it aside. -/
def resolveRadius? (s : String) : Option String :=
  (RadiusToken.ofName? (.ofList (Text.trim s.toList))).map RadiusToken.resolve

/-!
## Shadow tokens

The scale of box shadows. Every step resolves into a fallback chain.
-/

/-- A step of the shadow scale. -/
inductive ShadowToken where
  | xs | sm | md | lg | xl
  deriving DecidableEq, Repr

namespace ShadowToken

/-- The steps, the flattest first. -/
def all : List ShadowToken := [xs, sm, md, lg, xl]

/-- The name of a step. -/
def name : ShadowToken → String
  | xs => "xs"
  | sm => "sm"
  | md => "md"
  | lg => "lg"
  | xl => "xl"

/-- The step with a name. -/
def ofName? (s : String) : Option ShadowToken := all.find? fun t => t.name = s

/-- The shadow of a step. -/
def literal : ShadowToken → String
  | xs => "0 1px 2px rgba(0, 0, 0, .50)"
  | sm => "0 1px 3px rgba(0, 0, 0, .60)"
  | md => "0 4px 12px rgba(0, 0, 0, .70)"
  | lg => "0 8px 24px rgba(0, 0, 0, .80)"
  | xl => "0 14px 40px rgba(0, 0, 0, .90)"

/-- The value of a step: its fallback chain. -/
def resolve (t : ShadowToken) : String := Token.chain "shadow" t.name t.literal

end ShadowToken

/-- The value of the shadow step that a text names, white space around it aside. -/
def resolveShadow? (s : String) : Option String :=
  (ShadowToken.ofName? (.ofList (Text.trim s.toList))).map ShadowToken.resolve

end StyleSystem
