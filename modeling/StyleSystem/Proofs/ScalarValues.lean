import StyleSystem.Proofs.Numerals
import StyleSystem.Proofs.PlainWords
import StyleSystem.Theme.Document

/-!
# Numbers in documents

The number of a spacing unit and the digits of a width are words, and as plain scalars they denote
the number that was written (`Config.toBinary64?_render`, `Yaml.Scalar.toNat?_toDigits`). None of
them is taken for null or for one of the special values.
-/

namespace StyleSystem

open Yaml (IsWord isWordChar)

/-! ### Words -/

theorem isWord_toDigits (n : Nat) : IsWord (Nat.toDigits 10 n) := by
  have hdigit : ∀ c ∈ Nat.toDigits 10 n, c.isDigit = true := Decimal.isDigit_of_mem_toDigits
  refine ⟨fun c hc => Yaml.isWordChar_of_isDigit (hdigit c hc), Nat.toDigits_ne_nil, fun hdash => ?_⟩
  exact absurd (hdigit '-' (by rw [hdash]; exact List.mem_singleton_self _)) (by decide)

theorem isWordChar_of_mem_sign (negative : Bool) :
    ∀ c ∈ Layout.sign negative, isWordChar c = true := by
  have hdash : ['-'].all isWordChar = true := by decide
  cases negative with
  | true => exact List.all_eq_true.1 hdash
  | false => exact fun c hc => absurd hc List.not_mem_nil

theorem isWordChar_of_mem_toString (e : Int) : ∀ c ∈ (toString e).toList, isWordChar c = true := by
  intro c hc
  rw [Decimal.toList_toString] at hc
  rcases List.mem_append.1 hc with hc | hc
  · exact isWordChar_of_mem_sign _ c hc
  · exact (isWord_toDigits _).all c hc

theorem Numeral.isWordChar_of_mem_text (n : Numeral) : ∀ c ∈ n.text, isWordChar c = true := by
  intro c hc
  rcases List.mem_append.1 hc with hc | hc
  · exact Yaml.isWordChar_of_isDigit (n.isDigit c (List.mem_append_left _ hc))
  · rcases List.mem_append.1 hc with hc | hc
    · -- the point and the digits behind it
      unfold fractionText at hc
      cases hn : n.fraction with
      | none =>
        rw [hn] at hc
        cases hc
      | some fraction =>
        rw [hn] at hc
        rcases List.mem_cons.1 hc with rfl | hc
        · decide
        · refine Yaml.isWordChar_of_isDigit (n.isDigit c (List.mem_append_right _ ?_))
          rw [hn]
          exact hc
    · -- the letter and the integer behind it
      unfold exponentText at hc
      cases hn : n.exponent with
      | none =>
        rw [hn] at hc
        cases hc
      | some e =>
        rw [hn] at hc
        rcases List.mem_cons.1 hc with rfl | hc
        · decide
        · exact isWordChar_of_mem_toString e c hc

/-- A sign in front of what starts with a digit or a point. -/
theorem isWord_sign_append {c : Char} {rest : List Char} (negative : Bool) (hc : c ≠ '-')
    (hall : ∀ d ∈ c :: rest, isWordChar d = true) : IsWord (Layout.sign negative ++ c :: rest) := by
  have hall : ∀ d ∈ Layout.sign negative ++ c :: rest, isWordChar d = true := fun d hd =>
    (List.mem_append.1 hd).elim (isWordChar_of_mem_sign negative d) (hall d)
  have hne : Layout.sign negative ++ c :: rest ≠ [] :=
    List.append_ne_nil_of_right_ne_nil _ (List.cons_ne_nil c rest)
  refine ⟨hall, hne, fun hdash => ?_⟩
  -- a dash alone would be a sign with nothing behind it, or `c` itself
  cases negative with
  | false => exact hc (List.cons.inj hdash).1
  | true => exact List.cons_ne_nil c rest (List.cons.inj hdash).2

/-! ### Spacing units -/

namespace Config

/-- **The text of a unit:** a sign, and a body that starts with a digit, or with a point if the unit
is infinite. -/
theorem exists_render_eq {x : Binary64} (hx : x ≠ .nan) :
    ∃ negative c rest, documentNumber.render x = Layout.sign negative ++ c :: rest ∧
      (∀ d ∈ c :: rest, isWordChar d = true) ∧
      (c.isDigit = true ∧ x.isFinite = true ∨ c :: rest = ".inf".toList ∧ x = .infinite negative) := by
  cases x with
  | nan => exact absurd rfl hx
  | infinite negative =>
    have hall : ".inf".toList.all isWordChar = true := by decide
    exact ⟨negative, '.', "inf".toList, rfl, List.all_eq_true.1 hall, .inr ⟨rfl, rfl⟩⟩
  | finite s m e h =>
    obtain ⟨negative, n, hrender, -⟩ := documentNumber.exists_numeral_render (x := .finite s m e h) rfl
    obtain ⟨c, rest, hcons, hc⟩ := n.exists_text_eq_cons
    refine ⟨negative, c, rest, by rw [hrender, hcons], ?_, .inl ⟨hc, rfl⟩⟩
    rw [← hcons]
    exact n.isWordChar_of_mem_text

/-- **A unit is a word.** -/
theorem isWord_render {x : Binary64} (hx : x ≠ .nan) : IsWord (documentNumber.render x) := by
  obtain ⟨negative, c, rest, hrender, hall, hhead⟩ := exists_render_eq hx
  rw [hrender]
  refine isWord_sign_append negative ?_ hall
  rcases hhead with ⟨hc, -⟩ | ⟨hinf, -⟩
  · exact Yaml.ne_of_passes hc (by decide)
  · injection hinf with hc
    rw [hc]
    decide

/-- A text is none of some names if it starts with another character. -/
theorem contains_ofList_of_head? {names : List String} {cs : List Char}
    (h : ∀ name ∈ names, name.toList.head? ≠ cs.head?) :
    names.contains (String.ofList cs) = false := by
  refine Bool.eq_false_iff.2 fun hcontains => h _ (List.contains_iff_mem.1 hcontains) ?_
  rw [String.toList_ofList]

/-- What a number may start with: a digit, a point or a dash. -/
def startsNumber (c : Char) : Bool := c.isDigit || c = '.' || c = '-'

theorem exists_head?_render {x : Binary64} (hx : x ≠ .nan) :
    ∃ d, (documentNumber.render x).head? = some d ∧ startsNumber d = true := by
  obtain ⟨negative, c, rest, hrender, -, hhead⟩ := exists_render_eq hx
  rw [hrender]
  cases negative with
  | true => exact ⟨'-', rfl, rfl⟩
  | false =>
    refine ⟨c, rfl, ?_⟩
    rcases hhead with ⟨hc, -⟩ | ⟨hinf, -⟩
    · rw [startsNumber, hc, Bool.true_or, Bool.true_or]
    · injection hinf with hc
      rw [hc]
      rfl

/-- **A unit is not null,** since no spelling of null starts like a number. -/
theorem isNull_render {x : Binary64} (hx : x ≠ .nan) :
    (⟨.ofList (documentNumber.render x), true⟩ : Yaml.Scalar).isNull = false := by
  obtain ⟨d, hhead, hd⟩ := exists_head?_render hx
  have hnull : ∀ name ∈ ["", "~", "null", "Null", "NULL"],
      (name.toList.head?.all fun d => !startsNumber d) = true := by decide
  rw [Yaml.Scalar.isNull, Bool.true_and]
  refine contains_ofList_of_head? fun name hname heq => ?_
  have hnot := hnull name hname
  rw [heq, hhead, Option.all_some, hd] at hnot
  cases hnot

/-- **A unit is read back.** -/
theorem toBinary64?_render {x : Binary64} (hx : x ≠ .nan) :
    (⟨.ofList (documentNumber.render x), true⟩ : Yaml.Scalar).toBinary64? = some x := by
  obtain ⟨negative, c, rest, hrender, -, hhead⟩ := exists_render_eq hx
  rcases hhead with ⟨hc, hfinite⟩ | ⟨-, rfl⟩
  · -- a finite number starts with a digit behind its sign, the special names start with a point
    have hpoint : ∀ name ∈ Yaml.Scalar.nanNames ++ Yaml.Scalar.infinityNames,
        name.toList.head? = some '.' := by decide
    have hnan : Yaml.Scalar.nanNames.contains (.ofList (documentNumber.render x)) = false := by
      rw [hrender]
      refine contains_ofList_of_head? fun name hname heq => ?_
      rw [hpoint name (List.mem_append_left _ hname)] at heq
      cases negative with
      | true =>
        have hdash : '.' = '-' := Option.some_inj.1 heq
        exact absurd hdash (by decide)
      | false =>
        cases heq
        exact absurd hc (by decide)
    have hinfinity : Yaml.Scalar.infinityNames.contains (.ofList (c :: rest)) = false := by
      refine contains_ofList_of_head? fun name hname heq => ?_
      rw [hpoint name (List.mem_append_right _ hname)] at heq
      cases heq
      exact absurd hc (by decide)
    have hsign : Decimal.readSign (documentNumber.render x) = (negative, c :: rest) := by
      rw [hrender]
      exact Decimal.readSign_cons hc negative rest
    unfold Yaml.Scalar.toBinary64?
    rw [if_neg (by simp), if_neg (Bool.eq_false_iff.1 hnan), String.toList_ofList, hsign]
    dsimp only
    rw [if_neg (Bool.eq_false_iff.1 hinfinity), documentNumber.read?_render hfinite,
      Option.filter_some, if_pos hfinite]
  · -- an infinite one is the special name that is written
    cases negative <;> decide +kernel

end Config

/-! ### Widths -/

namespace Yaml

/-- Only zero starts with a zero. -/
theorem head?_toDigits_ne {n : Nat} (hn : 0 < n) : (Nat.toDigits 10 n).head? ≠ some '0' := by
  induction n using Nat.strongRecOn with
  | ind n ih =>
    rw [Nat.toDigits_eq_if (by decide)]
    split
    · intro heq
      exact hn.ne' (Nat.digitChar_eq_zero.1 (Option.some_inj.1 heq))
    · rw [List.head?_append_of_ne_nil _ Nat.toDigits_ne_nil]
      exact ih (n / 10) (by omega) (by omega)

/-- Digits in base ten are read as they stand. -/
theorem natInBase?_ten {cs : List Char} (hne : cs ≠ []) (hcs : ∀ c ∈ cs, c.isDigit = true) :
    natInBase? 10 cs = some (Decimal.natOfDigits cs) := by
  have hfold (n : Nat) : cs.foldlM (fun n c => (digit? 10 c).map fun d => 10 * n + d) n =
      some (Nat.ofDigitChars 10 cs n) := by
    clear hne
    induction cs generalizing n with
    | nil => rfl
    | cons c rest ih =>
      have hc : c.isDigit = true := hcs c List.mem_cons_self
      have hdigit : digit? 10 c = some (c.toNat - '0'.toNat) := by
        unfold digit?
        dsimp only
        rw [if_pos hc, if_pos]
        have hval : c.toNat = c.val.toNat := rfl
        have hbounds : 48 ≤ c.val.toNat ∧ c.val.toNat ≤ 57 := by
          simpa [Char.isDigit, UInt32.le_iff_toNat_le] using hc
        show c.toNat - 48 < 10
        omega
      rw [List.foldlM_cons, hdigit, Nat.ofDigitChars_cons]
      exact ih (fun d hd => hcs d (List.mem_cons_of_mem _ hd)) _
  unfold natInBase?
  rw [if_neg hne]
  exact hfold 0

/-- **A width is read back.** Its digits do not start with a zero, and so they are in base ten. -/
theorem Scalar.toNat?_toDigits (n : Nat) :
    (⟨.ofList (Nat.toDigits 10 n), true⟩ : Scalar).toNat? = some n := by
  rcases Nat.eq_zero_or_pos n with rfl | hn
  · rfl
  · have hdigit : ∀ c ∈ Nat.toDigits 10 n, c.isDigit = true := Decimal.isDigit_of_mem_toDigits
    have hread := natInBase?_ten (Nat.toDigits_ne_nil (n := n)) hdigit
    rw [Decimal.natOfDigits_toDigits] at hread
    have hzero := head?_toDigits_ne hn
    unfold Scalar.toNat?
    rw [if_neg (by simp), String.toList_ofList]
    obtain ⟨c, rest, hcons⟩ := List.exists_cons_of_ne_nil (Nat.toDigits_ne_nil (n := n) (b := 10))
    rw [hcons] at hdigit hread hzero ⊢
    have hc : c.isDigit = true := hdigit c List.mem_cons_self
    have hplus : c ≠ '+' := ne_of_passes hc (by decide)
    have hnonzero : c ≠ '0' := fun h => hzero (congrArg some h)
    -- neither a plus nor the zero of another base
    simp only [List.cons.injEq, hplus, hnonzero, false_and, imp_self, implies_true, hread]

end Yaml

end StyleSystem
