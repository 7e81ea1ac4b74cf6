import StyleSystem.Property

/-!
# Spellings of color tokens

A color token has at most two spellings (`ColorToken.Spells`): the name of its role, or the names of
its role and its state with a dot or a dash between them. A text is resolved if and only if it is a
spelling, white space around it aside, and it resolves to the fallback chain of the token
(`resolveColor?_iff_spells`).

Two things have to agree for that.

* Parsing finds the token of a spelling, and of no other text (`ColorToken.parse?_eq_some_iff`). The
  names are made of letters and digits, so the first dot of a spelling, or its first dash where it
  has no dot, is the one that was put between the names.
* No spelling is taken for a color in its own right (`isColorLiteral_of_spells`), although that test
  ignores case and looks at the start of a text only. What it looks for has a `#`, a parenthesis or a
  dash at the start, which no spelling has, or is a keyword, which no role is named like.
-/

namespace StyleSystem

/-! ### Names -/

theorem ColorRole.isAlphanum_of_mem_name {r : ColorRole} :
    ∀ c ∈ r.name.toList, c.isAlphanum = true := by
  have hall : r.name.toList.all Char.isAlphanum = true := by cases r <;> decide
  exact List.all_eq_true.1 hall

theorem ColorState.isAlphanum_of_mem_name {st : ColorState} :
    ∀ c ∈ st.name.toList, c.isAlphanum = true := by
  have hall : st.name.toList.all Char.isAlphanum = true := by cases st <;> decide
  exact List.all_eq_true.1 hall

/-- The name of a role starts with neither a dash nor white space. -/
theorem ColorRole.exists_name_eq_cons (r : ColorRole) :
    ∃ c rest, r.name.toList = c :: rest ∧ c ≠ '-' ∧ Text.isBlank c = false := by
  cases r <;> exact ⟨_, _, rfl, by decide, by decide⟩

/-- What is neither a letter nor a digit is not in a text of letters and digits. -/
theorem notMem_of_isAlphanum {cs : List Char} (hcs : ∀ d ∈ cs, d.isAlphanum = true) {c : Char}
    (hc : c.isAlphanum = false) : c ∉ cs := by
  intro hmem
  rw [hcs c hmem] at hc
  cases hc

theorem ColorRole.notMem_name {r : ColorRole} {c : Char} (hc : c.isAlphanum = false) :
    c ∉ r.name.toList :=
  notMem_of_isAlphanum isAlphanum_of_mem_name hc

theorem ColorState.notMem_name {st : ColorState} {c : Char} (hc : c.isAlphanum = false) :
    c ∉ st.name.toList :=
  notMem_of_isAlphanum isAlphanum_of_mem_name hc

namespace ColorToken

/-- **The spellings of a token.** -/
inductive Spells : String → ColorToken → Prop where
  /-- A role alone. -/
  | role (r : ColorRole) : Spells r.name ⟨r, none⟩
  /-- A role and a state, with a dot between them. -/
  | dotted (r : ColorRole) (st : ColorState) : Spells (r.name ++ "." ++ st.name) ⟨r, some st⟩
  /-- A role and a state, with a dash between them. -/
  | dashed (r : ColorRole) (st : ColorState) : Spells (r.name ++ "-" ++ st.name) ⟨r, some st⟩

/-! ### Parsing -/

theorem ofList_append_cons (before after : List Char) (c : Char) :
    String.ofList (before ++ c :: after) =
      String.ofList before ++ String.singleton c ++ String.ofList after := by
  rw [String.ofList_append, String.ofList_cons, String.append_assoc]

/-- Two names with a character between them are split there, if the names do not have it. -/
theorem splitAtFirst?_name {r : ColorRole} {c : Char} (hc : c.isAlphanum = false)
    (after : List Char) :
    splitAtFirst? c (r.name.toList ++ c :: after) = some (r.name.toList, after) :=
  splitAtFirst?_eq_some_iff.2 ⟨rfl, ColorRole.notMem_name hc⟩

theorem ofChars?_of_split {cs : List Char} {t : ColorToken} {role state : List Char}
    (hsplit : (splitAtFirst? '.' cs).or (splitAtFirst? '-' cs) = some (role, state)) :
    ofChars? cs = some t ↔ ∃ r st, t = ⟨r, some st⟩ ∧ r.name = String.ofList role ∧
      st.name = String.ofList state := by
  unfold ofChars?
  rw [hsplit]
  simp only [bind, pure, Option.bind_eq_some_iff, ColorRole.ofName?_eq_some_iff,
    ColorState.ofName?_eq_some_iff, Option.some_inj]
  constructor
  · rintro ⟨r, hr, st, hst, rfl⟩
    exact ⟨r, st, rfl, hr, hst⟩
  · rintro ⟨r, st, rfl, hr, hst⟩
    exact ⟨r, hr, st, hst, rfl⟩

theorem ofChars?_of_not_split {cs : List Char} {t : ColorToken}
    (hsplit : (splitAtFirst? '.' cs).or (splitAtFirst? '-' cs) = none) :
    ofChars? cs = some t ↔ ∃ r, t = ⟨r, none⟩ ∧ r.name = String.ofList cs := by
  unfold ofChars?
  rw [hsplit]
  simp only [Option.map_eq_some_iff, ColorRole.ofName?_eq_some_iff]
  constructor
  · rintro ⟨r, hr, rfl⟩
    exact ⟨r, rfl, hr⟩
  · rintro ⟨r, rfl, hr⟩
    exact ⟨r, hr, rfl⟩

/-- A text that parses is a spelling. -/
theorem spells_of_ofChars? {cs : List Char} {t : ColorToken} (h : ofChars? cs = some t) :
    Spells (String.ofList cs) t := by
  cases hsplit : (splitAtFirst? '.' cs).or (splitAtFirst? '-' cs) with
  | none =>
    obtain ⟨r, rfl, hr⟩ := (ofChars?_of_not_split hsplit).1 h
    rw [← hr]
    exact .role r
  | some parts =>
    obtain ⟨r, st, rfl, hr, hst⟩ := (ofChars?_of_split hsplit).1 h
    rcases Option.or_eq_some_iff.1 hsplit with hdot | ⟨-, hdash⟩
    · obtain ⟨rfl, -⟩ := splitAtFirst?_eq_some_iff.1 hdot
      rw [ofList_append_cons, ← hr, ← hst]
      exact .dotted r st
    · obtain ⟨rfl, -⟩ := splitAtFirst?_eq_some_iff.1 hdash
      rw [ofList_append_cons, ← hr, ← hst]
      exact .dashed r st

/-- A spelling parses into its token. -/
theorem Spells.ofChars? {s : String} {t : ColorToken} (h : Spells s t) :
    ofChars? s.toList = some t := by
  cases h with
  | role r =>
    -- neither separator is in the name
    have hdot := splitAtFirst?_eq_none_iff.2 (ColorRole.notMem_name (r := r) (c := '.') rfl)
    have hdash := splitAtFirst?_eq_none_iff.2 (ColorRole.notMem_name (r := r) (c := '-') rfl)
    refine (ofChars?_of_not_split ?_).2 ⟨r, rfl, String.ofList_toList.symm⟩
    rw [hdot, hdash]
    rfl
  | dotted r st =>
    have hs : (r.name ++ "." ++ st.name).toList = r.name.toList ++ '.' :: st.name.toList := by
      simp
    have hsplit : (splitAtFirst? '.' (r.name ++ "." ++ st.name).toList).or
        (splitAtFirst? '-' (r.name ++ "." ++ st.name).toList) =
          some (r.name.toList, st.name.toList) := by
      rw [hs, splitAtFirst?_name rfl]
      rfl
    exact (ofChars?_of_split hsplit).2
      ⟨r, st, rfl, String.ofList_toList.symm, String.ofList_toList.symm⟩
  | dashed r st =>
    have hs : (r.name ++ "-" ++ st.name).toList = r.name.toList ++ '-' :: st.name.toList := by
      simp
    -- no dot comes first
    have hdot : splitAtFirst? '.' (r.name.toList ++ '-' :: st.name.toList) = none := by
      rw [splitAtFirst?_eq_none_iff]
      simp [ColorRole.notMem_name, ColorState.notMem_name]
    have hsplit : (splitAtFirst? '.' (r.name ++ "-" ++ st.name).toList).or
        (splitAtFirst? '-' (r.name ++ "-" ++ st.name).toList) =
          some (r.name.toList, st.name.toList) := by
      rw [hs, hdot, splitAtFirst?_name rfl]
      rfl
    exact (ofChars?_of_split hsplit).2
      ⟨r, st, rfl, String.ofList_toList.symm, String.ofList_toList.symm⟩

/-- **Parsing accepts exactly the spellings.** -/
theorem parse?_eq_some_iff {s : String} {t : ColorToken} :
    parse? s = some t ↔ Spells (String.ofList (Text.trim s.toList)) t := by
  constructor
  · exact spells_of_ofChars?
  · intro h
    rw [parse?, ← h.ofChars?, String.toList_ofList]

/-! ### Colors in their own right -/

/-- A spelling starts with the name of the role, and then there is nothing, or a separator and the
name of the state. -/
theorem Spells.toList_eq {s : String} {t : ColorToken} (h : Spells s t) :
    (t.state = none ∧ s.toList = t.role.name.toList) ∨
      ∃ c st, (c = '.' ∨ c = '-') ∧ t.state = some st ∧
        s.toList = t.role.name.toList ++ c :: st.name.toList := by
  cases h with
  | role r => exact .inl ⟨rfl, rfl⟩
  | dotted r st => exact .inr ⟨'.', st, .inl rfl, rfl, by simp⟩
  | dashed r st => exact .inr ⟨'-', st, .inr rfl, rfl, by simp⟩

/-- A spelling has no other characters than letters, digits and one of the separators. -/
theorem Spells.notMem {s : String} {t : ColorToken} (h : Spells s t) {c : Char}
    (hc : c.isAlphanum = false) (hdot : c ≠ '.') (hdash : c ≠ '-') : c ∉ s.toList := by
  have hrole : c ∉ t.role.name.toList := ColorRole.notMem_name hc
  rcases h.toList_eq with ⟨-, hs⟩ | ⟨separator, st, hseparator, -, hs⟩
  · rw [hs]
    exact hrole
  · have hne : c ≠ separator := by
      rcases hseparator with rfl | rfl
      · exact hdot
      · exact hdash
    rw [hs, List.mem_append, List.mem_cons]
    simp [hrole, hne, ColorState.notMem_name hc]

/-- A text that lacks a character of another one does not start with it. -/
theorem startsWith_of_notMem {cs : List Char} {start : String} {c : Char}
    (hc : c ∈ start.toList) (hcs : c ∉ cs) : Text.startsWith cs start = false := by
  rw [Text.startsWith, Bool.eq_false_iff]
  intro hprefix
  exact hcs ((List.isPrefixOf_iff_prefix.1 hprefix).subset hc)

/-- No character but the parenthesis is one in lower case. -/
theorem eq_paren_of_toLower {c : Char} (h : c.toLower = '(') : c = '(' := by
  unfold Char.toLower at h
  split at h
  · next hupper =>
    -- what is put into lower case is a letter afterwards
    have hlow : 65 ≤ c.val.toNat := UInt32.le_iff_toNat_le.1 hupper.1
    have hhigh : c.val.toNat ≤ 90 := UInt32.le_iff_toNat_le.1 hupper.2
    have hstep : ('a'.val - 'A'.val).toNat = 32 := rfl
    have hval : (c.val + ('a'.val - 'A'.val)).toNat = 40 := congrArg (fun d => d.val.toNat) h
    rw [UInt32.toNat_add, hstep] at hval
    omega
  · exact h

/-- A spelling is no reference. -/
theorem Spells.isReference_eq_false {s : String} {t : ColorToken} (h : Spells s t) :
    Token.isReference s.toList = false := by
  obtain ⟨c, rest, hs, hdash, hblank⟩ : ∃ c rest, s.toList = c :: rest ∧ c ≠ '-' ∧
      Text.isBlank c = false := by
    obtain ⟨c, rest, hname, hc⟩ := t.role.exists_name_eq_cons
    rcases h.toList_eq with ⟨-, hs⟩ | ⟨separator, st, -, -, hs⟩
    · exact ⟨c, rest, hs.trans hname, hc⟩
    · exact ⟨c, rest ++ separator :: st.name.toList, by rw [hs, hname, List.cons_append], hc⟩
  have hstart : Text.trimStart s.toList = s.toList := by
    rw [hs]
    exact Text.trimStart_cons rest hblank
  have hvar : Text.startsWith s.toList "var(" = false := by
    have hparen : '(' ∉ s.toList := h.notMem (by decide) (by decide) (by decide)
    exact startsWith_of_notMem (by decide) hparen
  have hproperty : Text.startsWith s.toList "--" = false := by
    rw [hs, Text.startsWith, Bool.eq_false_iff]
    intro hprefix
    obtain ⟨rest', hrest'⟩ := List.isPrefixOf_iff_prefix.1 hprefix
    cases hrest'
    exact hdash rfl
  rw [Token.isReference, hstart, hvar, hproperty]
  rfl

/-- A spelling is none of the functional forms, in whatever case. -/
theorem Spells.not_colorFunction {s : String} {t : ColorToken} (h : Spells s t) :
    colorFunctions.any (fun f => Text.startsWith (s.toList.map Char.toLower) f) = false := by
  have hforms : ∀ f ∈ colorFunctions, '(' ∈ f.toList := by decide
  have hparen : '(' ∉ s.toList.map Char.toLower := by
    intro hmem
    obtain ⟨c, hc, hlower⟩ := List.mem_map.1 hmem
    rw [eq_paren_of_toLower hlower] at hc
    exact h.notMem (by decide) (by decide) (by decide) hc
  rw [List.any_eq_false]
  intro f hf
  rw [startsWith_of_notMem (hforms f hf) hparen]
  exact Bool.false_ne_true

/-- A spelling is no keyword, in whatever case. -/
theorem Spells.not_colorKeyword {s : String} {t : ColorToken} (h : Spells s t) :
    colorKeywords.any (fun k => k.toList = s.toList.map Char.toLower) = false := by
  rcases h.toList_eq with ⟨-, hs⟩ | ⟨separator, st, hseparator, -, hs⟩
  · -- no role is named like a keyword
    rw [hs]
    cases t.role <;> decide
  · -- no keyword has a separator
    have hkeywords : ∀ k ∈ colorKeywords, '.' ∉ k.toList ∧ '-' ∉ k.toList := by decide
    have hmem : separator.toLower ∈ s.toList.map Char.toLower := by
      rw [hs]
      simp
    rw [List.any_eq_false]
    intro k hk heq
    rw [← of_decide_eq_true heq] at hmem
    rcases hseparator with rfl | rfl
    · exact (hkeywords k hk).1 hmem
    · exact (hkeywords k hk).2 hmem

/-- **No spelling is a color in its own right.** -/
theorem isColorLiteral_of_spells {s : String} {t : ColorToken}
    (h : Spells (String.ofList (Text.trim s.toList)) t) : isColorLiteral s = false := by
  have hhash : Text.startsWith (Text.trim s.toList) "#" = false := by
    have hmem := h.notMem (c := '#') (by decide) (by decide) (by decide)
    rw [String.toList_ofList] at hmem
    exact startsWith_of_notMem (by decide) hmem
  have hreference := h.isReference_eq_false
  have hfunction := h.not_colorFunction
  have hkeyword := h.not_colorKeyword
  rw [String.toList_ofList] at hreference hfunction hkeyword
  unfold isColorLiteral
  simp only [hhash, hreference, hfunction, hkeyword, Bool.or_self]

/-! ### Names of custom properties -/

theorem chain_eq (t : ColorToken) :
    t.chain = "var(--ld-color-" ++ t.referenceName ++ ", var(--color-" ++ t.referenceName ++ ", " ++
      t.literal ++ "))" := by
  have hown : "var(" ++ Token.ownStart ++ "color" ++ "-" = "var(--ld-color-" := by decide
  have hlegacy : ", var(" ++ Token.legacyStart ++ "color" ++ "-" = ", var(--color-" := by decide
  unfold chain Token.chain
  rw [hown, ← hlegacy]
  -- reassociating would evaluate the literals, so they are taken out of sight
  generalize t.referenceName = name
  generalize t.literal = literal
  generalize Token.legacyStart = start
  generalize "color" = family
  generalize ", var(" = fallback
  simp only [String.append_assoc]

/-- Dots read as dashes, every spelling is the name of the custom properties of the token. -/
theorem Spells.replace_dots {s : String} {t : ColorToken} (h : Spells s t) :
    String.ofList (s.toList.map fun c => if c = '.' then '-' else c) = t.referenceName := by
  have hname : ∀ cs : List Char, '.' ∉ cs →
      (cs.map fun c => if c = '.' then '-' else c) = cs := by
    intro cs hcs
    have hid : ∀ c ∈ cs, (if c = '.' then '-' else c) = id c := by
      intro c hc
      refine if_neg ?_
      rintro rfl
      exact hcs hc
    rw [List.map_congr_left hid, List.map_id]
  unfold referenceName
  rcases h.toList_eq with ⟨hstate, hs⟩ | ⟨separator, st, hseparator, hstate, hs⟩
  · rw [hs, hstate, hname _ (ColorRole.notMem_name (by decide)), String.ofList_toList]
  · have hdash : (if separator = '.' then '-' else separator) = '-' := by
      rcases hseparator with rfl | rfl <;> rfl
    rw [hs, hstate, List.map_append, List.map_cons, hdash,
      hname _ (ColorRole.notMem_name (by decide)), hname _ (ColorState.notMem_name (by decide)),
      ofList_append_cons, String.ofList_toList, String.ofList_toList]
    rfl

theorem colorVar_of_spells {s : String} {t : ColorToken}
    (h : Spells (String.ofList (Text.trim s.toList)) t) :
    colorVar s = "var(--ld-color-" ++ t.referenceName ++ ")" := by
  have hstart : "var(" ++ Token.ownStart ++ "color-" = "var(--ld-color-" := by decide
  have hname := h.replace_dots
  rw [String.toList_ofList] at hname
  unfold colorVar Token.colorReference
  rw [hname, hstart]

end ColorToken

/-- What a text resolves to is the chain of the token that it spells. -/
theorem resolveColor?_eq_some_iff {s c : String} :
    resolveColor? s = some c ↔
      ∃ t, ColorToken.Spells (String.ofList (Text.trim s.toList)) t ∧ t.chain = c := by
  unfold resolveColor?
  constructor
  · intro h
    split at h
    · cases h
    · obtain ⟨t, ht, hc⟩ := Option.map_eq_some_iff.1 h
      exact ⟨t, ColorToken.parse?_eq_some_iff.1 ht, hc⟩
  · rintro ⟨t, ht, rfl⟩
    rw [ColorToken.isColorLiteral_of_spells ht, ColorToken.parse?_eq_some_iff.2 ht]
    rfl

/-- **Color tokens are recognized exactly.** A text resolves if and only if it spells a token, white
space around it aside. It resolves to the fallback chain with the name and the literal of the token,
whatever the spelling, its reference has the same name, and it is no color in its own right. What a
text resolves to is such a color, and is left alone. -/
theorem resolveColor?_iff_spells (s : String) :
    ((∃ c, resolveColor? s = some c) ↔
      ∃ t, ColorToken.Spells (String.ofList (Text.trim s.toList)) t) ∧
    (∀ t, ColorToken.Spells (String.ofList (Text.trim s.toList)) t →
      resolveColor? s = some ("var(--ld-color-" ++ t.referenceName ++ ", var(--color-" ++
        t.referenceName ++ ", " ++ t.literal ++ "))") ∧
      colorVar s = "var(--ld-color-" ++ t.referenceName ++ ")" ∧
      isColorLiteral s = false) ∧
    ∀ c, resolveColor? s = some c → isColorLiteral c = true ∧ resolveColor? c = none := by
  refine ⟨?_, ?_, ?_⟩
  · constructor
    · rintro ⟨c, hc⟩
      obtain ⟨t, ht, -⟩ := resolveColor?_eq_some_iff.1 hc
      exact ⟨t, ht⟩
    · rintro ⟨t, ht⟩
      exact ⟨t.chain, resolveColor?_eq_some_iff.2 ⟨t, ht, rfl⟩⟩
  · intro t ht
    have hresolve : resolveColor? s = some t.chain := resolveColor?_eq_some_iff.2 ⟨t, ht, rfl⟩
    rw [ColorToken.chain_eq] at hresolve
    exact ⟨hresolve, ColorToken.colorVar_of_spells ht, ColorToken.isColorLiteral_of_spells ht⟩
  · intro c hc
    refine ⟨?_, resolveColor?_of_resolveColor? hc⟩
    obtain ⟨t, -, rfl⟩ := resolveColor?_eq_some_iff.1 hc
    exact isColorLiteral_chain "color" t.referenceName t.literal

/-- A spelling inside white space, a no-break space among it. -/
def paddedHover : String := "\u00a0 primary.hover\n"

theorem resolveColor?_iff_spells_padded :
    ColorToken.Spells (String.ofList (Text.trim paddedHover.toList)) ⟨.primary, some .hover⟩ ∧
      resolveColor? paddedHover =
        some "var(--ld-color-primary-hover, var(--color-primary-hover, #2563eb))" ∧
      colorVar paddedHover = "var(--ld-color-primary-hover)" ∧ isColorLiteral paddedHover = false ∧
      resolveColor? "var(--ld-color-primary-hover, var(--color-primary-hover, #2563eb))" = none := by
  have hspells : ColorToken.Spells (String.ofList (Text.trim paddedHover.toList))
      ⟨.primary, some .hover⟩ := by
    have htrim : String.ofList (Text.trim paddedHover.toList) = "primary.hover" := by decide
    rw [htrim]
    exact .dotted .primary .hover
  obtain ⟨-, htoken, hagain⟩ := resolveColor?_iff_spells paddedHover
  obtain ⟨hresolve, hreference, hliteral⟩ := htoken _ hspells
  have hchain : "var(--ld-color-" ++ (ColorToken.mk .primary (some .hover)).referenceName ++
      ", var(--color-" ++ (ColorToken.mk .primary (some .hover)).referenceName ++ ", " ++
      (ColorToken.mk .primary (some .hover)).literal ++ "))" =
        "var(--ld-color-primary-hover, var(--color-primary-hover, #2563eb))" := by
    decide
  have hname : "var(--ld-color-" ++ (ColorToken.mk .primary (some .hover)).referenceName ++ ")" =
      "var(--ld-color-primary-hover)" := by
    decide
  rw [hchain] at hresolve
  rw [hname] at hreference
  exact ⟨hspells, hresolve, hreference, hliteral, (hagain _ hresolve).2⟩

end StyleSystem
