import StyleSystem.Yaml.Key
import StyleSystem.Yaml.Place
import StyleSystem.Yaml.Scalar

/-!
# Words as scalars

A word is a text of ASCII letters, digits, points and dashes (`IsWord`). It is read as a plain scalar
with its own text, and a word in single quotes as a quoted one (`Scalar.read?_word_colon`,
`Scalar.read?_word_line`, `Scalar.read?_quoted`). It ends at the colon behind a key, or at a line
break if the next line is indented less than the scalar.

At the start of a line three dashes or points would be a document mark. What stands there is a name,
which has neither, and everywhere else the column tells that there is no mark.
-/

namespace StyleSystem.Yaml

/-!
## Words

A word is a text of ASCII letters, digits, points and dashes (`IsWord`). None of these characters
ends a plain scalar or has another meaning within one, so that names and numerals may stand in a
document as they are. Words are inline: a position after them is further to the right by their
length (`Position.foldl_after`).
-/

/-- A printable ASCII character, which takes one column and one byte. -/
def isInline (c : Char) : Bool := 0x20 ≤ c.toNat && c.toNat ≤ 0x7E

/-- A character of a word. -/
def isWordChar (c : Char) : Bool := c.isAlphanum || c = '.' || c = '-'

/-- **A word,** which is no dash alone. -/
structure IsWord (cs : List Char) : Prop where
  all : ∀ c ∈ cs, isWordChar c = true
  ne_nil : cs ≠ []
  ne_dash : cs ≠ ['-']

/-! ### Characters -/

/-- What one character passes and another one does not tells them apart. -/
theorem ne_of_passes {test : Char → Bool} {c d : Char} (hc : test c = true)
    (hd : test d = false) : c ≠ d := by
  rintro rfl
  rw [hc] at hd
  cases hd

theorem isWordChar_of_isAlphanum {c : Char} (h : c.isAlphanum = true) : isWordChar c = true := by
  rw [isWordChar, h, Bool.true_or, Bool.true_or]

theorem isWordChar_of_isDigit {c : Char} (h : c.isDigit = true) : isWordChar c = true :=
  isWordChar_of_isAlphanum (by rw [Char.isAlphanum, h, Bool.or_true])

theorem toNat_bounds_of_isAlphanum {c : Char} (h : c.isAlphanum = true) :
    0x30 ≤ c.toNat ∧ c.toNat ≤ 0x7A := by
  rcases (Bool.or_eq_true_iff (x := c.isAlpha)).1 h with h | h
  · rcases (Bool.or_eq_true_iff (x := c.isUpper)).1 h with h | h
    · obtain ⟨hlow, hhigh⟩ : 65 ≤ c.toNat ∧ c.toNat ≤ 90 := of_decide_eq_true h
      omega
    · have hlow : 97 ≤ c.toNat := of_decide_eq_true (Bool.and_eq_true_iff.1 h).1
      have hhigh : c.toNat ≤ 122 := of_decide_eq_true (Bool.and_eq_true_iff.1 h).2
      omega
  · have hlow : 48 ≤ c.toNat := of_decide_eq_true (Bool.and_eq_true_iff.1 h).1
    have hhigh : c.toNat ≤ 57 := of_decide_eq_true (Bool.and_eq_true_iff.1 h).2
    omega

theorem isInline_of_isWordChar {c : Char} (h : isWordChar c = true) : isInline c = true := by
  simp only [isWordChar, Bool.or_eq_true, decide_eq_true_eq] at h
  rcases h with (h | rfl) | rfl
  · obtain ⟨hlow, hhigh⟩ := toNat_bounds_of_isAlphanum h
    simp only [isInline, Bool.and_eq_true, decide_eq_true_eq]
    omega
  · decide
  · decide

theorem isBreak_of_isInline {c : Char} (h : isInline c = true) : isBreak c = false := by
  refine Bool.eq_false_iff.2 fun hbreak => ?_
  simp only [isBreak, Bool.or_eq_true, decide_eq_true_eq] at hbreak
  rcases hbreak with (((rfl | rfl) | rfl) | rfl) | rfl <;> exact absurd h (by decide)

theorem isAllowed_of_isInline {c : Char} (h : isInline c = true) : isAllowed c = true := by
  unfold isInline at h
  unfold isAllowed
  rw [h, Bool.or_true, Bool.true_or, Bool.true_or, Bool.true_or, Bool.true_or]

theorem utf8Size_of_isInline {c : Char} (h : isInline c = true) : c.utf8Size = 1 := by
  simp only [isInline, Bool.and_eq_true, decide_eq_true_eq] at h
  rw [Char.utf8Size_eq_one_iff, UInt32.le_iff_toNat_le]
  have hval : c.toNat = c.val.toNat := rfl
  show c.val.toNat ≤ 127
  omega

theorem isWhite_of_isWordChar {c : Char} (h : isWordChar c = true) : isWhite c = false := by
  rw [isWhite, isBreak_of_isInline (isInline_of_isWordChar h), Bool.or_false]
  refine Bool.eq_false_iff.2 fun hspacing => ?_
  simp only [isSpacing, Bool.or_eq_true, decide_eq_true_eq] at hspacing
  rcases hspacing with rfl | rfl <;> exact absurd h (by decide)

theorem isIndicator_of_isWordChar {c : Char} (h : isWordChar c = true) : isIndicator c = false := by
  refine Bool.eq_false_iff.2 fun hindicator => ?_
  simp only [isIndicator, isFlowIndicator, Bool.or_eq_true, decide_eq_true_eq] at hindicator
  rcases hindicator with ((((((((((((((rfl | rfl) | rfl) | rfl) | rfl) | rfl) | rfl) | rfl) | rfl) |
    rfl) | rfl) | rfl) | rfl) | rfl) | rfl) | rfl <;> exact absurd h (by decide)

/-! ### Tokens -/

/-- Nothing at all, or a printable character that is neither passed over nor starts a comment. -/
def StartsToken (cs : List Char) : Prop :=
  ∀ c ∈ cs.head?, isInline c = true ∧ c ≠ ' ' ∧ c ≠ '#'

theorem startsToken_cons {c : Char} (h : isInline c = true ∧ c ≠ ' ' ∧ c ≠ '#')
    (rest : List Char) : StartsToken (c :: rest) := by
  rintro d hd
  cases hd
  exact h

theorem StartsToken.isWhite {c : Char} {rest : List Char} (h : StartsToken (c :: rest)) :
    isWhite c = false := by
  obtain ⟨hinline, hspace, -⟩ := h c rfl
  have htab : c ≠ '\t' := ne_of_passes hinline (by decide)
  rw [Yaml.isWhite, isBreak_of_isInline hinline, isSpacing, decide_eq_false hspace,
    decide_eq_false htab]
  rfl

theorem IsWord.startsToken {w : List Char} (h : IsWord w) (rest : List Char) :
    StartsToken (w ++ rest) := by
  obtain ⟨c, more, rfl⟩ := List.exists_cons_of_ne_nil h.ne_nil
  have hc : isWordChar c = true := h.all c List.mem_cons_self
  exact startsToken_cons ⟨isInline_of_isWordChar hc, ne_of_passes hc (by decide),
    ne_of_passes hc (by decide)⟩ _

/-- **A token is not skipped.** -/
theorem Place.skip_of_startsToken {cs : List Char} (h : StartsToken cs) (fresh : Bool)
    (p : Position) : (Place.mk fresh (.locate p cs)).skip = ⟨fresh, .locate p cs⟩ := by
  cases cs with
  | nil => rfl
  | cons c rest =>
    obtain ⟨hinline, hspace, hcomment⟩ := h c rfl
    have htab : c ≠ '\t' := ne_of_passes hinline (by decide)
    have hmark : c ≠ byteOrderMark := ne_of_passes hinline (by decide)
    have hpasses : passes false fresh ⟨c, p⟩ = false := by
      simp [passes, hspace, htab, hmark]
    rw [Place.skip, Source.locate, skipFrom, isBreak_of_isInline hinline,
      if_neg Bool.false_ne_true, hpasses, Bool.or_false, if_neg Bool.false_ne_true,
      if_neg hcomment]

/-! ### Positions -/

/-- **Inline characters move a position to the right.** -/
theorem Position.foldl_after {cs : List Char} (h : ∀ c ∈ cs, isInline c = true) (p : Position) :
    cs.foldl Position.after p = ⟨p.line, p.column + cs.length, p.offset + cs.length⟩ := by
  induction cs generalizing p with
  | nil => rfl
  | cons c rest ih =>
    have hc : isInline c = true := h c List.mem_cons_self
    have hafter : p.after c = ⟨p.line, p.column + 1, p.offset + 1⟩ := by
      rw [Position.after, isBreak_of_isInline hc, utf8Size_of_isInline hc]
      rfl
    rw [List.foldl_cons, hafter, ih fun d hd => h d (List.mem_cons_of_mem _ hd)]
    simp only [List.length_cons, Nat.add_assoc, Nat.add_comm 1]

/-! ## Words as scalars -/

variable {p : Position} {limit : Nat}

/-! ### No marks -/

theorem Source.atMark_of_column {m c : Char} {rest : Source} (h : 0 < p.column) :
    Source.atMark m (⟨c, p⟩ :: rest) = false := by
  unfold Source.atMark
  split
  · rename_i heq
    cases heq
    rw [decide_eq_false (Nat.ne_of_gt h), Bool.false_and, Bool.false_and, Bool.false_and,
      Bool.false_and]
  · rfl

theorem Source.atMark_of_ne {m c : Char} {rest : Source} (h : c ≠ m) :
    Source.atMark m (⟨c, p⟩ :: rest) = false := by
  unfold Source.atMark
  split
  · rename_i heq
    cases heq
    rw [decide_eq_false h, Bool.and_false, Bool.false_and, Bool.false_and, Bool.false_and]
  · rfl

/-- **No document mark stands** behind the first column, or where a letter or a digit does. -/
theorem Source.atAnyMark_cons {c : Char} {rest : Source}
    (h : 0 < p.column ∨ c ≠ '-' ∧ c ≠ '.') : Source.atAnyMark (⟨c, p⟩ :: rest) = false := by
  unfold Source.atAnyMark
  rcases h with h | ⟨hdash, hpoint⟩
  · rw [atMark_of_column h, atMark_of_column h, Bool.or_false]
  · rw [atMark_of_ne hdash, atMark_of_ne hpoint, Bool.or_false]

/-- A text that may stand at the position: at the start of a line only without dashes and points. -/
def FitsAt (p : Position) (cs : List Char) : Prop :=
  0 < p.column ∨ ∀ c ∈ cs, c ≠ '-' ∧ c ≠ '.'

theorem fitsAt_after {c : Char} (hc : isInline c = true) (cs : List Char) :
    FitsAt (p.after c) cs := by
  refine .inl ?_
  rw [Position.after, isBreak_of_isInline hc]
  exact Nat.succ_pos _

/-! ### Plain scalars -/

theorem inFront_nil {α : Type} (read : Option (List Char × α)) : inFront [] read = read := by
  cases read <;> rfl

theorem inFront_inFront {α : Type} (as bs : List Char) (read : Option (List Char × α)) :
    inFront as (inFront bs read) = inFront (as ++ bs) read := by
  cases read with
  | none => rfl
  | some read =>
    obtain ⟨text, left⟩ := read
    show some (as ++ (bs ++ text), left) = some (as ++ bs ++ text, left)
    rw [List.append_assoc]

/-- **The characters of a word are text.** -/
theorem plainText?_word {w : List Char} (hw : ∀ c ∈ w, isWordChar c = true) (hfits : FitsAt p w)
    (rest : List Char) :
    plainText? false limit .empty (.locate p (w ++ rest)) =
      inFront w (plainText? false limit .empty (.locate (w.foldl Position.after p) rest)) := by
  induction w generalizing p with
  | nil => rw [inFront_nil, List.nil_append, List.foldl_nil]
  | cons c w ih =>
    have hc : isWordChar c = true := hw c List.mem_cons_self
    have hne (d : Char) (hd : isWordChar d = false) : c ≠ d := ne_of_passes hc hd
    have hmark {rest : Source} : Source.atAnyMark (⟨c, p⟩ :: rest) = false :=
      Source.atAnyMark_cons (hfits.imp_right fun h => h c List.mem_cons_self)
    have hspoils {rest : Source} : spoilsPlain false limit .empty ⟨c, p⟩ rest = false := by
      simp [spoilsPlain, hne '\t' (by decide)]
    have hends {rest : Source} : endsPlain false limit .empty ⟨c, p⟩ rest = false := by
      simp [endsPlain, hmark, hne '#' (by decide), hne ':' (by decide), Gap.crosses, Gap.empty]
    -- neither white space nor an end, so that it is text and the gap stays empty
    rw [List.cons_append, Source.locate, plainText?, hspoils, if_neg Bool.false_ne_true,
      isWhite_of_isWordChar hc, if_neg Bool.false_ne_true, hends, if_neg Bool.false_ne_true,
      ih (fun d hd => hw d (List.mem_cons_of_mem _ hd))
        (fitsAt_after (isInline_of_isWordChar hc) w), List.foldl_cons, inFront_inFront]
    rfl

/-- **The colon behind a key ends it.** -/
theorem plainText?_colon {c : Char} (hc : isWhite c = true) (rest : List Char) :
    plainText? false limit .empty (.locate p (':' :: c :: rest)) =
      some ([], ⟨false, .locate p (':' :: c :: rest)⟩) := by
  have hnext : endsToken (Source.next? (.locate (p.after ':') (c :: rest))) = true := hc
  have hends : endsPlain false limit .empty ⟨':', p⟩ (.locate (p.after ':') (c :: rest)) = true := by
    simp [endsPlain, hnext]
  have hwhite : isWhite ':' = false := rfl
  rw [Source.locate, plainText?, if_neg (by simp [spoilsPlain]), hwhite, if_neg Bool.false_ne_true,
    hends, if_pos rfl]
  rfl

theorem foldl_after_spaces (n : Nat) (p : Position) :
    (spaces n).foldl Position.after p = ⟨p.line, p.column + n, p.offset + n⟩ := by
  have hspaces : ∀ c ∈ spaces n, isInline c = true := by
    intro c hc
    rw [List.eq_of_mem_replicate hc]
    decide
  rw [Position.foldl_after hspaces, spaces, List.length_replicate]

/-- Spaces at the start of a line are no text. -/
theorem plainText?_spaces (n : Nat) {first more : List Char} (rest : List Char) :
    plainText? false limit (.breaks first more) (.locate p (spaces n ++ rest)) =
      plainText? false limit (.breaks first more)
        (.locate ⟨p.line, p.column + n, p.offset + n⟩ rest) := by
  rw [← foldl_after_spaces]
  induction n generalizing p with
  | zero => rfl
  | succ n ih =>
    have hspace : plainText? false limit (.breaks first more)
        (.locate p (' ' :: (spaces n ++ rest))) =
          plainText? false limit (.breaks first more)
            (.locate (p.after ' ') (spaces n ++ rest)) := by
      have hwhite : isWhite ' ' = true := rfl
      rw [Source.locate, plainText?, if_neg (by simp [spoilsPlain]), if_pos hwhite]
      rfl
    exact hspace.trans ih

/-- **A line break ends a plain scalar** if the next line is not indented to its limit. -/
theorem plainText?_line {n : Nat} (hn : n < limit) {rest : List Char} (hrest : StartsToken rest) :
    plainText? false limit .empty (.locate p ('\n' :: (spaces n ++ rest))) =
      some ([], ⟨true, .locate ⟨p.line + 1, n, p.offset + 1 + n⟩ rest⟩) := by
  -- the break opens a gap, the spaces below it add nothing, and the token there closes the scalar
  have hbreak : plainText? false limit .empty (.locate p ('\n' :: (spaces n ++ rest))) =
      plainText? false limit (.breaks ['\n'] [])
        (.locate ⟨p.line + 1, 0, p.offset + 1⟩ (spaces n ++ rest)) := by
    have hwhite : isWhite '\n' = true := rfl
    rw [Source.locate, plainText?, if_neg (by simp [spoilsPlain]), if_pos hwhite]
    rfl
  rw [hbreak, plainText?_spaces, Nat.zero_add]
  cases rest with
  | nil => rfl
  | cons c rest =>
    have hc : isWhite c = false := hrest.isWhite
    have htabWhite : isWhite '\t' = true := rfl
    have htab : c ≠ '\t' := (ne_of_passes htabWhite hc).symm
    rw [Source.locate, plainText?, if_neg (by simp [spoilsPlain, htab]), hc,
      if_neg Bool.false_ne_true, if_pos (by simp [endsPlain, Gap.crosses, hn])]
    rfl

/-! ### Scalars -/

namespace Scalar

/-- **A word is a plain scalar,** unless something else stands right behind its dash. -/
theorem read?_word {w : List Char} (hw : IsWord w) (hfits : FitsAt p w) (rest : List Char) :
    read? false limit (.locate p (w ++ rest)) =
      ofRead true id
        (inFront w (plainText? false limit .empty (.locate (w.foldl Position.after p) rest))) := by
  obtain ⟨c, w', rfl⟩ := List.exists_cons_of_ne_nil hw.ne_nil
  have hc : isWordChar c = true := hw.all c List.mem_cons_self
  have hne (d : Char) (hd : isWordChar d = false) : c ≠ d := ne_of_passes hc hd
  -- behind a dash stands another character of the word
  have hdash : c = '-' → ∃ d w'', w' = d :: w'' ∧ isWhite d = false := by
    rintro rfl
    obtain ⟨d, w'', rfl⟩ : ∃ d w'', w' = d :: w'' :=
      List.exists_cons_of_ne_nil fun hnil => hw.ne_dash (by rw [hnil])
    exact ⟨d, w'', rfl, isWhite_of_isWordChar (hw.all d (by simp))⟩
  have hstarts : startsPlain false (.locate p (c :: (w' ++ rest))) = true := by
    rw [Source.locate, startsPlain, Source.atAnyMark_cons
      (hfits.imp_right fun h => h c List.mem_cons_self), if_neg Bool.false_ne_true]
    split
    · rename_i heq
      obtain ⟨d, w'', rfl, hd⟩ := hdash heq
      show (!endsToken (some d)) = true
      rw [endsToken, Option.all_some, hd]
      rfl
    · rw [if_neg (by simp [hne ':' (by decide), hne '?' (by decide)]),
        isWhite_of_isWordChar hc, isIndicator_of_isWordChar hc]
      rfl
  have hread : read? false limit (.locate p (c :: (w' ++ rest))) =
      ofRead true id (plainText? false limit .empty (.locate p (c :: (w' ++ rest)))) := by
    rw [Source.locate] at hstarts ⊢
    unfold read?
    -- no character of a word opens one of the other four forms
    split
    · rename_i heq
      cases heq
      exact absurd hc (by decide)
    · rename_i heq
      cases heq
      exact absurd hc (by decide)
    · rename_i heq
      cases heq
      exact absurd hc (by decide)
    · rename_i heq
      cases heq
      exact absurd hc (by decide)
    · rw [if_pos hstarts]
  rw [List.cons_append, hread, ← List.cons_append, plainText?_word hw.all hfits]

/-- A word in front of a colon. -/
theorem read?_word_colon {w : List Char} (hw : IsWord w) (hfits : FitsAt p w) {c : Char}
    (hc : isWhite c = true) (rest : List Char) :
    read? false limit (.locate p (w ++ ':' :: c :: rest)) =
      some (⟨.ofList w, true⟩, ⟨false, .locate (w.foldl Position.after p) (':' :: c :: rest)⟩) := by
  rw [read?_word hw hfits, plainText?_colon hc]
  show some ((⟨.ofList (w ++ []), true⟩ : Scalar), _) = _
  rw [List.append_nil]
  rfl

/-- A word at the end of a line. -/
theorem read?_word_line {w : List Char} (hw : IsWord w) (hfits : FitsAt p w) {n : Nat}
    (hn : n < limit) {rest : List Char} (hrest : StartsToken rest) :
    ∃ q : Position, q.column = n ∧
      read? false limit (.locate p (w ++ '\n' :: (spaces n ++ rest))) =
        some (⟨.ofList w, true⟩, ⟨true, .locate q rest⟩) := by
  let q := w.foldl Position.after p
  refine ⟨⟨q.line + 1, n, q.offset + 1 + n⟩, rfl, ?_⟩
  rw [read?_word hw hfits, plainText?_line hn hrest]
  show some ((⟨.ofList (w ++ []), true⟩ : Scalar), _) = _
  rw [List.append_nil]
  rfl

/-- **A word in single quotes** is read up to the second quote. -/
theorem singleQuoted?_word {w : List Char} (hw : ∀ c ∈ w, isWordChar c = true) (hp : 0 < p.column)
    {c : Char} (hc : c ≠ '\'') (rest : List Char) :
    singleQuoted? .empty (.locate p (w ++ '\'' :: c :: rest)) =
      some (w, .locate ((w ++ ['\'']).foldl Position.after p) (c :: rest)) := by
  induction w generalizing p with
  | nil =>
    rw [List.nil_append, Source.locate, Source.locate, singleQuoted?]
    · rfl
    · rintro q s heq
      injection heq with hhead
      exact hc (congrArg Located.char hhead)
  | cons d w ih =>
    have hd : isWordChar d = true := hw d List.mem_cons_self
    have hquote : d ≠ '\'' := ne_of_passes hd (by decide)
    have hafter : 0 < (p.after d).column := by
      rw [Position.after, isBreak_of_isInline (isInline_of_isWordChar hd)]
      exact Nat.succ_pos _
    rw [List.cons_append, Source.locate, singleQuoted?, isWhite_of_isWordChar hd,
      if_neg Bool.false_ne_true, Source.atAnyMark_cons (.inl hp), if_neg Bool.false_ne_true,
      ih (fun e he => hw e (List.mem_cons_of_mem _ he)) hafter]
    · rfl
    · exact fun _ _ _ heq _ => hquote (congrArg Located.char heq)
    · exact fun _ heq => hquote (congrArg Located.char heq)

theorem read?_quoted {w : List Char} (hw : ∀ c ∈ w, isWordChar c = true) {c : Char}
    (hc : c ≠ '\'') (rest : List Char) :
    read? false limit (.locate p ('\'' :: (w ++ '\'' :: c :: rest))) =
      some (⟨.ofList w, false⟩,
        ⟨false, .locate (('\'' :: (w ++ ['\''])).foldl Position.after p) (c :: rest)⟩) := by
  have hcolumn : 0 < (p.after '\'').column := Nat.succ_pos _
  rw [Source.locate, read?, singleQuoted?_word hw hcolumn hc]
  rfl

end Scalar

end StyleSystem.Yaml
