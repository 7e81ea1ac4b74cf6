import StyleSystem.Theme.Basic
import StyleSystem.Token

/-!
# Properties

A property is of one kind at most, and the kind decides what happens to a plain value:

* spacing — numbers go through the spacing scale of the theme;
* length — numbers are pixels;
* color — color tokens become fallback chains;
* radius — numbers are pixels, radius tokens become their values;
* shadow — shadow tokens become fallback chains.

`transform` does so. Every other value passes through unchanged, and so does every value that was
transformed before (`transform_transform`).
-/

namespace StyleSystem

/-! ## Properties -/

/-- What the values of a property mean. -/
inductive PropertyKind where
  | spacing | length | color | radius | shadow
  deriving DecidableEq, Repr

namespace PropertyKind

/-- The properties that are spacings. -/
def spacingProperties : List String :=
  ["margin", "marginTop", "marginRight", "marginBottom", "marginLeft", "padding", "paddingTop",
   "paddingRight", "paddingBottom", "paddingLeft", "gap", "rowGap", "columnGap"]

/-- The properties that are lengths. -/
def lengthProperties : List String :=
  ["width", "height", "minWidth", "maxWidth", "minHeight", "maxHeight", "top", "right", "bottom",
   "left", "inset", "flexBasis", "fontSize", "borderWidth"]

/-- The properties that are colors. -/
def colorProperties : List String :=
  ["color", "background", "backgroundColor", "borderColor", "borderTopColor", "borderRightColor",
   "borderBottomColor", "borderLeftColor", "outlineColor", "fill", "stroke", "caretColor",
   "textDecorationColor", "accentColor"]

/-- The properties that are corner radii. -/
def radiusProperties : List String :=
  ["borderRadius", "borderTopLeftRadius", "borderTopRightRadius", "borderBottomRightRadius",
   "borderBottomLeftRadius"]

/-- The properties that are shadows. -/
def shadowProperties : List String := ["boxShadow"]

/-- The kind of a property; most properties have none. -/
def ofProperty? (property : String) : Option PropertyKind :=
  if property ∈ spacingProperties then some spacing
  else if property ∈ lengthProperties then some length
  else if property ∈ colorProperties then some color
  else if property ∈ radiusProperties then some radius
  else if property ∈ shadowProperties then some shadow
  else none

end PropertyKind

/-- A number under a property of some kind. -/
def transformNumber (θ : Theme) (n : Number) : PropertyKind → Value
  | .spacing => .string (px (θ.pixels n.toBinary64))
  | .length | .radius => .string (px n.toBinary64)
  | .color | .shadow => .number n

/-- A text under a property of some kind: the value of the token that it names, if it names one. -/
def transformText (s : String) : PropertyKind → Value
  | .spacing | .length => .string s
  | .color => .string ((resolveColor? s).getD s)
  | .radius => .string ((resolveRadius? s).getD s)
  | .shadow => .string ((resolveShadow? s).getD s)

/-- **A plain value under a property.** -/
def transform (θ : Theme) (property : String) (v : Value) : Value :=
  match PropertyKind.ofProperty? property, v with
  | some kind, .number n => transformNumber θ n kind
  | some kind, .string s => transformText s kind
  | _, v => v

theorem distinct_transformNumber (θ : Theme) (n : Number) (kind : PropertyKind) :
    (transformNumber θ n kind).Distinct := by
  cases kind
  case spacing | length | radius => exact .string _
  case color | shadow => exact .number _

theorem distinct_transformText (s : String) (kind : PropertyKind) :
    (transformText s kind).Distinct := by
  cases kind <;> exact .string _

/-- A transformation makes plain values only, so no key is repeated. -/
theorem distinct_transform {θ : Theme} {property : String} {v : Value} (h : v.Distinct) :
    (transform θ property v).Distinct := by
  unfold transform
  split
  · exact distinct_transformNumber ..
  · exact distinct_transformText ..
  · exact h

/-!
## Transformed values are stable

A plain value that was transformed under a property is not transformed again: `transform` is
idempotent (`transform_transform`), for every property and every theme. Two kinds of text come out
of a transformation, and neither is a token of the kind that made it:

* a fallback chain is a reference, so color tokens leave it alone, and no radius or shadow step has
  such a name;
* a length in pixels ends in an `x`, which no radius step does.
-/

/-! ### Colors -/

/-- Every chain starts as a reference does and ends in a parenthesis. -/
theorem Token.toList_chain (family name literal : String) :
    ∃ mid, (Token.chain family name literal).toList = "var(".toList ++ mid ++ [')'] := by
  refine ⟨(ownStart ++ family ++ "-" ++ name ++ ", var(" ++ legacyStart ++ family ++ "-" ++ name ++
    ", " ++ literal).toList ++ [')'], ?_⟩
  unfold chain
  simp only [String.toList_append]
  -- reassociating would evaluate the literals, so they are taken out of sight
  generalize "var(".toList = opening
  generalize ", var(".toList = fallback
  generalize "-".toList = dash
  generalize ", ".toList = comma
  simp only [List.append_assoc]
  rfl

/-- A fallback chain is a color in its own right. -/
theorem isColorLiteral_chain (family name literal : String) :
    isColorLiteral (Token.chain family name literal) = true := by
  obtain ⟨mid, hmid⟩ := Token.toList_chain family name literal
  have htrim : Text.trim (Token.chain family name literal).toList = "var(".toList ++ mid ++ [')'] := by
    rw [hmid, Text.trim_concat _ (by decide)]
    exact congrArg (· ++ [')']) (Text.trimStart_cons _ (by decide))
  have href : Token.isReference ("var(".toList ++ mid ++ [')']) = true := by
    have hstart : Text.trimStart ("var(".toList ++ mid ++ [')']) = "var(".toList ++ (mid ++ [')']) := by
      rw [List.append_assoc]
      exact Text.trimStart_cons _ (by decide)
    rw [Token.isReference, hstart, Text.startsWith,
      List.isPrefixOf_iff_prefix.2 (List.prefix_append _ _), Bool.true_or]
  simp only [isColorLiteral, htrim, href, Bool.or_true, Bool.true_or]

/-- A resolved color token is a color literal, and that is no token. -/
theorem resolveColor?_of_resolveColor? {s c : String} (h : resolveColor? s = some c) :
    resolveColor? c = none := by
  unfold resolveColor? at h
  split at h
  · cases h
  · obtain ⟨t, -, rfl⟩ := Option.map_eq_some_iff.1 h
    rw [resolveColor?, ColorToken.chain, isColorLiteral_chain, if_pos rfl]

/-! ### Radii and shadows

The names of the steps end in other characters than chains and lengths do, and white space around a
text does not hide how it ends. -/

theorem RadiusToken.getLast?_name (t : RadiusToken) :
    t.name.toList.getLast? ≠ some 'x' ∧ t.name.toList.getLast? ≠ some ')' := by
  cases t <;> decide

theorem ShadowToken.getLast?_name (t : ShadowToken) : t.name.toList.getLast? ≠ some ')' := by
  cases t <;> decide

/-- A text without the white space around it is no name, if no name ends as the text does. -/
theorem Text.ne_ofList_trim {name s : String} {cs : List Char} {c : Char}
    (hs : s.toList = cs ++ [c]) (hc : Text.isBlank c = false)
    (hname : name.toList.getLast? ≠ some c) : name ≠ String.ofList (Text.trim s.toList) := by
  rintro rfl
  apply hname
  rw [hs, Text.trim_concat cs hc, String.toList_ofList, List.getLast?_concat]

/-- A text is no radius step if no step ends as it does. -/
theorem resolveRadius?_of_toList {s : String} {cs : List Char} {c : Char}
    (hs : s.toList = cs ++ [c]) (hc : Text.isBlank c = false)
    (hnames : ∀ t : RadiusToken, t.name.toList.getLast? ≠ some c) : resolveRadius? s = none := by
  rw [resolveRadius?, Option.map_eq_none_iff, RadiusToken.ofName?, List.find?_eq_none]
  intro t _ hname
  exact Text.ne_ofList_trim hs hc (hnames t) (of_decide_eq_true hname)

/-- A text is no shadow step if no step ends as it does. -/
theorem resolveShadow?_of_toList {s : String} {cs : List Char} {c : Char}
    (hs : s.toList = cs ++ [c]) (hc : Text.isBlank c = false)
    (hnames : ∀ t : ShadowToken, t.name.toList.getLast? ≠ some c) : resolveShadow? s = none := by
  rw [resolveShadow?, Option.map_eq_none_iff, ShadowToken.ofName?, List.find?_eq_none]
  intro t _ hname
  exact Text.ne_ofList_trim hs hc (hnames t) (of_decide_eq_true hname)

theorem resolveRadius?_of_resolveRadius? {s c : String} (h : resolveRadius? s = some c) :
    resolveRadius? c = none := by
  obtain ⟨t, -, rfl⟩ := Option.map_eq_some_iff.1 h
  unfold RadiusToken.resolve
  by_cases hchain : t.isThemeable = true
  · rw [if_pos hchain]
    obtain ⟨mid, hmid⟩ := Token.toList_chain "radius" t.name t.literal
    exact resolveRadius?_of_toList hmid (by decide) fun u => u.getLast?_name.2
  · -- the two constants
    rw [if_neg hchain]
    cases t with
    | pill | circle => decide
    | sm | md | lg | xl | xxl => exact absurd rfl hchain

theorem resolveShadow?_of_resolveShadow? {s c : String} (h : resolveShadow? s = some c) :
    resolveShadow? c = none := by
  obtain ⟨t, -, rfl⟩ := Option.map_eq_some_iff.1 h
  obtain ⟨mid, hmid⟩ := Token.toList_chain "shadow" t.name t.literal
  exact resolveShadow?_of_toList hmid (by decide) ShadowToken.getLast?_name

/-- A length in pixels names no radius step. -/
theorem resolveRadius?_px (x : Binary64) : resolveRadius? (px x) = none := by
  have hpx : (px x).toList = (pixelDigits x).toList ++ ['p'] ++ ['x'] := by
    rw [px, String.toList_append, List.append_assoc]
    rfl
  exact resolveRadius?_of_toList hpx (by decide) fun t => t.getLast?_name.1

/-! ### Every property -/

/-- Where a resolved text is no token any more, resolving twice is resolving once. -/
theorem getD_getD_of_stable {resolve? : String → Option String}
    (h : ∀ s c, resolve? s = some c → resolve? c = none) (s : String) :
    (resolve? ((resolve? s).getD s)).getD ((resolve? s).getD s) = (resolve? s).getD s := by
  cases hs : resolve? s with
  | none => rw [Option.getD_none, hs, Option.getD_none]
  | some c => rw [Option.getD_some, h s c hs, Option.getD_none]

variable (θ : Theme) (property : String)

/-- A property of no kind leaves its value alone. -/
theorem transform_of_ofProperty?_eq_none (h : PropertyKind.ofProperty? property = none)
    (v : Value) : transform θ property v = v := by
  unfold transform
  rw [h]

/-- **Transformation is idempotent.** -/
theorem transform_transform (v : Value) :
    transform θ property (transform θ property v) = transform θ property v := by
  cases hkind : PropertyKind.ofProperty? property with
  | none => simp only [transform_of_ofProperty?_eq_none θ property hkind]
  | some kind =>
    cases v with
    | number n =>
      -- a number becomes a length, or stays under a color or a shadow
      cases kind with
      | spacing | length | color | shadow =>
        simp only [transform, hkind, transformNumber, transformText]
      | radius =>
        simp only [transform, hkind, transformNumber, transformText, resolveRadius?_px,
          Option.getD_none]
    | string s =>
      cases kind with
      | spacing | length => simp only [transform, hkind, transformText]
      | color =>
        simp only [transform, hkind, transformText,
          getD_getD_of_stable (fun _ _ => resolveColor?_of_resolveColor?) s]
      | radius =>
        simp only [transform, hkind, transformText,
          getD_getD_of_stable (fun _ _ => resolveRadius?_of_resolveRadius?) s]
      | shadow =>
        simp only [transform, hkind, transformText,
          getD_getD_of_stable (fun _ _ => resolveShadow?_of_resolveShadow?) s]
    | null | bool _ | array _ | object _ => simp only [transform, hkind]

/-- Of the theme, only the spacing scale counts. -/
theorem transform_congr {θ θ' : Theme} (h : ∀ n, θ.pixels n = θ'.pixels n) (property : String)
    (v : Value) : transform θ property v = transform θ' property v := by
  have hnumber : transformNumber θ = transformNumber θ' := by
    funext n kind
    cases kind with
    | spacing => rw [transformNumber, transformNumber, h]
    | length | color | radius | shadow => rfl
  unfold transform
  rw [hnumber]

/-! ### What a transformation keeps -/

/-- Null is the one value that stays null, and no other becomes null. -/
theorem isNull_transform (v : Value) : (transform θ property v).isNull = v.isNull := by
  unfold transform
  split
  · rename_i kind n hkind
    cases kind <;> rfl
  · rename_i kind s hkind
    cases kind <;> rfl
  · rfl

theorem isObject_transform (v : Value) : (transform θ property v).isObject = v.isObject := by
  unfold transform
  split
  · rename_i kind n hkind
    cases kind <;> rfl
  · rename_i kind s hkind
    cases kind <;> rfl
  · rfl

end StyleSystem
