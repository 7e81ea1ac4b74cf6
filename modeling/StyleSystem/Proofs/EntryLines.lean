import StyleSystem.Proofs.PlainWords
import StyleSystem.Text.Bytes
import StyleSystem.Yaml.Node

/-!
# Lines of entries

An entry whose key is made of letters and digits is one line (`entryText_eq`), with the key plain or
in single quotes. Its header is read back from there (`Header.block?_keyText`): whatever the form of
the key, it has one line, few bytes and a colon behind it.
-/

namespace StyleSystem.Yaml

/-- The texts of letters and digits that are written in front of a colon in one line. -/
structure IsName (name : String) : Prop where
  isAlphanum : ∀ c ∈ name.toList, c.isAlphanum = true
  ne_nil : name.toList ≠ []
  length_le : name.toList.length ≤ 100

instance (name : String) : Decidable (IsName name) :=
  decidable_of_iff (name.toList.all Char.isAlphanum = true ∧ name.toList ≠ [] ∧
    name.toList.length ≤ 100)
    ⟨fun h => ⟨List.all_eq_true.1 h.1, h.2.1, h.2.2⟩,
      fun h => ⟨List.all_eq_true.2 h.1, h.2, h.3⟩⟩

namespace IsName

variable {name : String}

theorem isWordChar (h : IsName name) : ∀ c ∈ name.toList, isWordChar c = true :=
  fun c hc => isWordChar_of_isAlphanum (h.isAlphanum c hc)

theorem isInline (h : IsName name) : ∀ c ∈ name.toList, isInline c = true :=
  fun c hc => isInline_of_isWordChar (h.isWordChar c hc)

theorem ne (h : IsName name) {d : Char} (hd : d.isAlphanum = false) :
    ∀ c ∈ name.toList, c ≠ d :=
  fun c hc => ne_of_passes (h.isAlphanum c hc) hd

theorem isWord (h : IsName name) : IsWord name.toList := by
  refine ⟨h.isWordChar, h.ne_nil, fun hdash => ?_⟩
  exact h.ne (d := '-') (by decide) '-' (by rw [hdash]; exact List.mem_singleton_self _) rfl

theorem fitsAt (h : IsName name) (p : Position) : FitsAt p name.toList :=
  .inr fun c hc => ⟨h.ne (by decide) c hc, h.ne (by decide) c hc⟩

end IsName

/-! ### Keys -/

theorem hasPair_eq_false {first second : Char → Bool} {cs : List Char}
    (h : ∀ c ∈ cs, second c = false) : hasPair first second cs = false := by
  induction cs with
  | nil => rfl
  | cons a rest ih =>
    cases rest with
    | nil => rfl
    | cons b rest =>
      rw [hasPair, h b (by simp), Bool.and_false, Bool.false_or]
      exact ih fun c hc => h c (List.mem_cons_of_mem _ hc)

theorem indentLines_inline {cs : List Char} (h : ∀ c ∈ cs, isInline c = true) (n : Nat) :
    indentLines n false cs = cs := by
  induction cs with
  | nil => rfl
  | cons c rest ih =>
    rw [indentLines, isBreak_of_isInline (h c List.mem_cons_self), if_neg Bool.false_ne_true,
      ih fun d hd => h d (List.mem_cons_of_mem _ hd)]
    rfl

/-- **A name is written plain or in single quotes.** -/
theorem keyForm_name {name : String} (h : IsName name) :
    keyForm name = if isPlainKey name then .plain else .single := by
  have hbreak : ∀ c ∈ name.toList, isBreak c = false :=
    fun c hc => isBreak_of_isInline (h.isInline c hc)
  have hprintable : name.toList.all isPrintable = true := by
    refine List.all_eq_true.2 fun c hc => ?_
    have hne {d : Char} (hd : d.isAlphanum = false) : (c != d) = true :=
      bne_iff_ne.2 (h.ne hd c hc)
    rw [isPrintable, isShown, isAllowed_of_isInline (h.isInline c hc), hbreak c hc,
      hne (by decide), hne (by decide)]
    rfl
  have hany : name.toList.any isBreak = false :=
    List.any_eq_false.2 fun c hc => Bool.eq_false_iff.1 (hbreak c hc)
  have hline : name.toList.contains '\n' = false := by
    refine Bool.eq_false_iff.2 fun hcontains => ?_
    exact absurd (hbreak '\n' (List.contains_iff_mem.1 hcontains)) (by decide)
  -- everything is printable and in one line, which rules out the other two forms
  unfold keyForm
  dsimp only
  rw [hprintable, hasPair_eq_false hbreak, if_neg (by decide), hline, if_neg Bool.false_ne_true,
    hany, if_neg Bool.false_ne_true]

theorem keyText_name {name : String} (h : IsName name) (n : Nat) :
    keyText n name =
      if isPlainKey name then name.toList else '\'' :: (name.toList ++ ['\'']) := by
  have hquotes : name.toList.flatMap (fun c => if c = '\'' then [c, c] else [c]) = name.toList := by
    have hsingle : ∀ c ∈ name.toList, (if c = '\'' then [c, c] else [c]) = [c] :=
      fun c hc => if_neg (h.ne (by decide) c hc)
    rw [List.flatMap_def, List.map_congr_left hsingle, ← List.flatMap_def, List.flatMap_singleton']
  have hinline : ∀ c ∈ name.toList ++ ['\''], isInline c = true := by
    intro c hc
    rcases List.mem_append.1 hc with hc | hc
    · exact h.isInline c hc
    · rw [List.mem_singleton.1 hc]
      decide
  unfold keyText
  rw [keyForm_name h]
  cases isPlainKey name with
  | true => rfl
  | false =>
    show '\'' :: indentLines n false (_ ++ ['\'']) = _
    rw [hquotes, indentLines_inline hinline]
    rfl

/-- Names are short enough to stand in front of a colon. -/
theorem isSimpleKey_name {name : String} (h : IsName name) : isSimpleKey name = true := by
  have hany : name.toList.any isBreak = false :=
    List.any_eq_false.2 fun c hc => Bool.eq_false_iff.1 (isBreak_of_isInline (h.isInline c hc))
  have hbytes : ∀ c ∈ name.toList, (String.utf8EncodeChar c).length = 1 := by
    intro c hc
    rw [String.length_utf8EncodeChar, utf8Size_of_isInline (h.isInline c hc)]
  have hsize : name.utf8ByteSize = name.toList.length := by
    calc name.utf8ByteSize = (Text.bytes name).length := rfl
      _ = (name.toList.map fun c => (String.utf8EncodeChar c).length).sum := by
        rw [Text.bytes_eq_flatMap, List.length_flatMap]
      _ = name.toList.length := by
        rw [List.map_congr_left hbytes, List.map_const', List.sum_replicate_nat, Nat.mul_one]
  have hlength : name.utf8ByteSize ≤ maxSimpleKey := by
    rw [hsize]
    exact Nat.le_trans h.length_le (by decide)
  rw [isSimpleKey, hany, decide_eq_true hlength]
  rfl

/-- **An entry is one line.** -/
theorem entryText_eq {name : String} (h : IsName name) (n : Nat) (value : List Char) :
    entryText n name value =
      spaces n ++ (keyText (n + 2) name ++ ':' :: ' ' :: (value ++ ['\n'])) := by
  unfold entryText
  dsimp only
  rw [isSimpleKey_name h, if_pos rfl, List.append_assoc]

/-- A character of a written name, the quotes included. -/
def isKeyChar (c : Char) : Bool := c.isAlphanum || c = '\''

theorem isInline_of_isKeyChar {c : Char} (h : isKeyChar c = true) : isInline c = true := by
  simp only [isKeyChar, Bool.or_eq_true, decide_eq_true_eq] at h
  rcases h with h | rfl
  · exact isInline_of_isWordChar (isWordChar_of_isAlphanum h)
  · decide

theorem isKeyChar_of_mem_keyText {name : String} (h : IsName name) (n : Nat) :
    ∀ c ∈ keyText n name, isKeyChar c = true := by
  intro c hc
  have hletter (hc : c ∈ name.toList) : isKeyChar c = true := by
    rw [isKeyChar, h.isAlphanum c hc, Bool.true_or]
  rw [keyText_name h] at hc
  split at hc
  · exact hletter hc
  · rcases List.mem_cons.1 hc with rfl | hc
    · rfl
    · rcases List.mem_append.1 hc with hc | hc
      · exact hletter hc
      · rw [List.mem_singleton.1 hc]
        rfl

theorem isInline_of_mem_keyText {name : String} (h : IsName name) (n : Nat) :
    ∀ c ∈ keyText n name, isInline c = true :=
  fun c hc => isInline_of_isKeyChar (isKeyChar_of_mem_keyText h n c hc)

/-- **A written name starts** with a letter, a digit or a quote. -/
theorem exists_keyText_eq_cons {name : String} (h : IsName name) (n : Nat) :
    ∃ c more, keyText n name = c :: more ∧ isKeyChar c = true := by
  have hne : keyText n name ≠ [] := by
    rw [keyText_name h]
    split
    · exact h.ne_nil
    · exact List.cons_ne_nil _ _
  obtain ⟨c, more, hcons⟩ := List.exists_cons_of_ne_nil hne
  refine ⟨c, more, hcons, isKeyChar_of_mem_keyText h n c ?_⟩
  rw [hcons]
  exact List.mem_cons_self

theorem length_keyText_le {name : String} (h : IsName name) (n : Nat) :
    (keyText n name).length ≤ 102 := by
  have hlength := h.length_le
  rw [keyText_name h]
  split
  · omega
  · rw [List.length_cons, List.length_append, List.length_singleton]
    omega

/-- **A written name is read back,** whether or not it is in quotes. -/
theorem Scalar.read?_keyText {name : String} (h : IsName name) (n limit : Nat) (p : Position)
    {c : Char} (hc : isWhite c = true) (rest : List Char) :
    Scalar.read? false limit (.locate p (keyText n name ++ ':' :: c :: rest)) =
      some (⟨name, isPlainKey name⟩,
        ⟨false, .locate ((keyText n name).foldl Position.after p) (':' :: c :: rest)⟩) := by
  rw [keyText_name h]
  cases isPlainKey name with
  | true =>
    rw [if_pos rfl, Scalar.read?_word_colon h.isWord (h.fitsAt p) hc, String.ofList_toList]
  | false =>
    rw [if_neg Bool.false_ne_true, List.cons_append, List.append_assoc, List.singleton_append,
      Scalar.read?_quoted h.isWordChar (by decide), String.ofList_toList]

/-! ### Headers -/

/-- A key in front of a colon in the same line, not too far away from it. -/
theorem Header.simple?_of_read? {limit : Nat} {start : Located} {s rest : Source} {key : Scalar}
    {next : Place} {q : Position} (hread : Scalar.read? false limit (start :: s) = some (key, next))
    (hcolon : next.skip.rest = ⟨':', q⟩ :: rest) (hline : start.position.line = q.line)
    (hoffset : q.offset ≤ start.position.offset + maxKeyLength)
    (hends : endsToken (Source.next? rest) = true) :
    Header.simple? false limit (start :: s) = some ⟨key, true, ⟨false, rest⟩⟩ := by
  unfold Header.simple?
  rw [hread, Option.bind_eq_bind, Option.bind_some]
  dsimp only
  rw [if_neg Bool.false_ne_true, hcolon]
  exact if_pos ⟨hline, hoffset, by rw [hends, Bool.true_or]⟩

/-- **The header of an entry with a name as its key.** -/
theorem Header.block?_keyText {name : String} (h : IsName name) (n limit : Nat) (p : Position)
    {c : Char} (hc : isWhite c = true) (rest : List Char) :
    ∃ q : Position, p.column < q.column ∧
      Header.block? limit ⟨true, .locate p (keyText n name ++ ':' :: c :: rest)⟩ =
        some ⟨⟨name, isPlainKey name⟩, true, ⟨false, .locate q (c :: rest)⟩⟩ := by
  have hread := Scalar.read?_keyText h n limit p hc rest
  have hinline := isInline_of_mem_keyText h n
  have hlength := length_keyText_le h n
  rw [Position.foldl_after hinline] at hread
  obtain ⟨first, more, hcons, hkey⟩ := exists_keyText_eq_cons h n
  have hfirst : first ≠ '?' := ne_of_passes hkey (by decide)
  -- the name moves the position to the right by its length, which is far below the limit
  let colon : Position :=
    ⟨p.line, p.column + (keyText n name).length, p.offset + (keyText n name).length⟩
  refine ⟨colon.after ':', ?_, ?_⟩
  · show p.column < p.column + (keyText n name).length + 1
    omega
  · have hlocate : Source.locate p (keyText n name ++ ':' :: c :: rest) =
        ⟨first, p⟩ :: Source.locate (p.after first) (more ++ ':' :: c :: rest) := by
      rw [hcons]
      rfl
    rw [hlocate] at hread
    unfold Header.block?
    dsimp only
    rw [hlocate, if_neg (by decide), Source.atSign, decide_eq_false hfirst, Bool.false_and,
      if_neg Bool.false_ne_true]
    refine Header.simple?_of_read? (q := colon) hread rfl rfl ?_ hc
    show p.offset + (keyText n name).length ≤ p.offset + 1024
    omega

end StyleSystem.Yaml
