import Mathlib.Data.List.TakeWhile
import StyleSystem.Proofs.BlockMappings
import StyleSystem.Proofs.ScalarValues

/-!
# Documents are read back

A configuration that is written as a document is read back from it (`Config.read?_write`), if its
unit is a number and its names are made of letters and digits.

The document has two entries. The unit is a word at the end of the first line, and the widths are a
mapping of lines, or a pair of braces if there are none. A name that looks like a number, a truth
value or null is in quotes, and the name is the text between them; a width is never in quotes, and
neither is a unit, so that both are read as numbers.
-/

namespace StyleSystem

open Yaml

/-! ### Lines -/

namespace Yaml

/-- Printable characters and line feeds, which a reader leaves as they are. -/
def IsLines (cs : List Char) : Prop := ∀ c ∈ cs, isInline c = true ∨ c = '\n'

instance (cs : List Char) : Decidable (IsLines cs) :=
  decidable_of_iff (cs.all (fun c => isInline c || c = '\n') = true) (by simp [IsLines])

theorem IsLines.append {as bs : List Char} (ha : IsLines as) (hb : IsLines bs) :
    IsLines (as ++ bs) := fun c hc => (List.mem_append.1 hc).elim (ha c) (hb c)

theorem IsWord.isLines {w : List Char} (h : IsWord w) : IsLines w :=
  fun c hc => .inl (isInline_of_isWordChar (h.all c hc))

theorem IsLines.all_isAllowed {cs : List Char} (h : IsLines cs) : cs.all isAllowed = true := by
  refine List.all_eq_true.2 fun c hc => ?_
  rcases h c hc with hc | rfl
  · exact isAllowed_of_isInline hc
  · decide

theorem IsLines.unifyBreaks {cs : List Char} (h : IsLines cs) : unifyBreaks cs = cs := by
  induction cs with
  | nil => rfl
  | cons c rest ih =>
    -- the breaks that a reader rewrites are neither printable nor line feeds
    have hne {d : Char} (hd : isInline d = false) (hfeed : d ≠ '\n') : c ≠ d := by
      rcases h c List.mem_cons_self with hc | rfl
      · exact ne_of_passes hc hd
      · exact hfeed.symm
    have hreturn : c ≠ '\r' := hne (by decide) (by decide)
    have hnextLine : c ≠ '\u0085' := hne (by decide) (by decide)
    rw [Yaml.unifyBreaks, ih fun d hd => h d (List.mem_cons_of_mem _ hd)]
    · simp [hreturn, hnextLine]
    · exact fun _ hcr _ => hreturn hcr

theorem isLines_linesText {column : Nat} {es : List (String × List Char)}
    (hes : ∀ e ∈ es, IsName e.1 ∧ IsWord e.2) : IsLines (linesText column es) := by
  induction es with
  | nil => exact nofun
  | cons e es ih =>
    obtain ⟨hname, hword⟩ := hes e List.mem_cons_self
    have hspaces : IsLines (spaces column) := by
      intro c hc
      rw [List.eq_of_mem_replicate hc]
      decide
    have hkey : IsLines (keyText (column + 2) e.1) :=
      fun c hc => .inl (isInline_of_mem_keyText hname _ c hc)
    have hcolon : IsLines [':', ' '] := by decide
    have hfeed : IsLines ['\n'] := by decide
    rw [linesText_cons hname]
    exact hspaces.append (hkey.append (hcolon.append (hword.isLines.append
      (hfeed.append (ih fun e he => hes e (List.mem_cons_of_mem _ he))))))

/-- There are at least as many characters as lines. -/
theorem length_le_length_linesText (column : Nat) {es : List (String × List Char)}
    (hes : ∀ e ∈ es, IsName e.1 ∧ IsWord e.2) : es.length ≤ (linesText column es).length := by
  induction es with
  | nil => exact Nat.zero_le _
  | cons e es ih =>
    have hrest := ih fun e he => hes e (List.mem_cons_of_mem _ he)
    rw [linesText_cons (hes e List.mem_cons_self).1]
    simp only [List.length_append, List.length_cons]
    omega

/-! ### Mappings as documents -/

/-- **A document that starts with a name is one mapping,** whose entries go on to its end. -/
theorem Node.read?_of_entries {name : String} (h : IsName name) {n : Nat} {c : Char}
    {rest : List Char} (hc : isWhite c = true)
    (hlines : IsLines (keyText n name ++ ':' :: c :: rest))
    {entries : List (Scalar × Node)}
    (hentries : ∀ p : Position, 0 < p.column →
      blockEntries? 0 ((keyText n name ++ ':' :: c :: rest).length + 1)
        ⟨⟨name, isPlainKey name⟩, true, ⟨false, .locate p (c :: rest)⟩⟩ =
          some (entries, ⟨true, []⟩)) :
    read? (keyText n name ++ ':' :: c :: rest) = some (mapping entries) := by
  let text := keyText n name ++ ':' :: c :: rest
  -- the reader changes no character and is at the name at once
  have hskip : (Place.mk true (.ofText text)).skip = ⟨true, .locate .start text⟩ := by
    rw [Source.ofText, hlines.unifyBreaks]
    exact Place.skip_of_startsToken (startsToken_keyText h n _) true .start
  obtain ⟨p, hp, hheader⟩ := Header.block?_keyText h n 0 .start hc rest
  -- where it finds neither an end nor a mark
  have hdocument : documentAt? ⟨true, .locate .start text⟩ =
      some (mapping entries, ⟨true, []⟩) := by
    have hend := atEnd_keyText h n true .start (':' :: c :: rest)
    have hcolumn := column_keyText h n true .start (':' :: c :: rest)
    unfold Place.atEnd Source.atEnd Source.atAnyMark at hend
    simp only [Bool.or_eq_false_iff] at hend
    unfold documentAt? nodeAt?
    rw [hend.1, if_neg Bool.false_ne_true, hend.2.1, if_neg Bool.false_ne_true, hheader]
    dsimp only
    rw [hcolumn, Source.length_locate]
    show (blockEntries? 0 (text.length + 1) ⟨⟨name, isPlainKey name⟩, true,
      ⟨false, .locate p (c :: rest)⟩⟩).bind _ = _
    rw [hentries p hp]
    rfl
  unfold read?
  rw [hlines.all_isAllowed]
  show ((documentAt? (Place.mk true (.ofText text)).skip).bind fun read =>
    if endsDocument (read.2.rest.length + 1) read.2.rest then some read.1 else none) = _
  rw [hskip, hdocument]
  rfl

end Yaml

/-! ### Two fields -/

namespace Config

/-- A configuration that a document holds: its unit is a number, if it has one, and its names are
made of letters and digits. -/
structure IsWritable (c : Config) : Prop where
  spacing : c.spacing ≠ some .nan
  names : ∀ e ∈ c.widths.entries, IsName e.1

instance (c : Config) : Decidable c.IsWritable :=
  decidable_of_iff (c.spacing ≠ some .nan ∧ ∀ e ∈ c.widths.entries, IsName e.1)
    ⟨fun h => ⟨h.1, h.2⟩, fun h => ⟨h.1, h.2⟩⟩

/-- The names and the digits of the widths. -/
def widthLines (ws : Widths) : List (String × List Char) :=
  ws.entries.map fun e => (e.1, Nat.toDigits 10 e.2.toNat)

theorem isWord_widthLines {c : Config} (h : c.IsWritable) :
    ∀ e ∈ widthLines c.widths, IsName e.1 ∧ IsWord e.2 := by
  intro line hline
  obtain ⟨e, he, rfl⟩ := List.mem_map.1 hline
  exact ⟨h.names e he, isWord_toDigits _⟩

theorem isWord_spacingText {c : Config} (h : c.IsWritable) : IsWord (spacingText c.spacing) := by
  cases hspacing : c.spacing with
  | none =>
    have hall : "null".toList.all isWordChar = true := by decide
    exact ⟨List.all_eq_true.1 hall, List.cons_ne_nil _ _, by decide⟩
  | some unit =>
    refine isWord_render fun hnan => h.spacing ?_
    rw [hspacing, hnan]

/-- What is written behind the colon of the widths. -/
theorem widthsText_eq (ws : Widths) :
    widthsText ws = if widthLines ws = [] then [' ', '\x7b', '\x7d', '\n']
      else '\n' :: linesText 2 (widthLines ws) := by
  have hempty : widthLines ws = [] ↔ ws.entries = [] := List.map_eq_nil_iff
  have hlines : ws.entries.flatMap widthText = linesText 2 (widthLines ws) := by
    rw [linesText, widthLines, List.flatMap_map]
    rfl
  rw [widthsText, hlines]
  simp only [hempty]

theorem isName_spacing : IsName "spacing" := by decide

theorem isName_breakpoints : IsName "breakpoints" := by decide

/-- **The two fields of a document.** -/
theorem toList_write (c : Config) :
    c.write.toList = keyText 2 "spacing" ++ ':' :: ' ' :: (spacingText c.spacing ++
      '\n' :: (keyText 2 "breakpoints" ++ ':' :: widthsText c.widths)) := by
  have hspacing : keyText 2 "spacing" = "spacing".toList := by rfl
  have hbreakpoints : keyText 2 "breakpoints" = "breakpoints".toList := by rfl
  have hcolon : "spacing: ".toList = "spacing".toList ++ [':', ' '] := by rfl
  have hfeed : "\nbreakpoints:".toList = '\n' :: ("breakpoints".toList ++ [':']) := by rfl
  unfold write
  simp only [String.toList_ofList, hspacing, hbreakpoints, hcolon, hfeed, List.append_assoc,
    List.cons_append, List.nil_append]

/-! ### The node of a document -/

/-- The node that the fields of a configuration are written as. -/
def node (c : Config) : Node :=
  .mapping [(⟨"spacing", isPlainKey "spacing"⟩, .scalar ⟨.ofList (spacingText c.spacing), true⟩),
    (⟨"breakpoints", isPlainKey "breakpoints"⟩, .mapping ((widthLines c.widths).map lineEntry))]

theorem isLines_write {c : Config} (h : c.IsWritable) : IsLines c.write.toList := by
  have hkey {name : String} (hname : IsName name) : IsLines (keyText 2 name) :=
    fun d hd => .inl (isInline_of_mem_keyText hname 2 d hd)
  have hwidths : IsLines (widthsText c.widths) := by
    rw [widthsText_eq]
    split
    · decide
    · have hfeed : IsLines ['\n'] := by decide
      exact hfeed.append (isLines_linesText (isWord_widthLines h))
  have hcolon : IsLines [':', ' '] := by decide
  have hfeed : IsLines ['\n'] := by decide
  have hend : IsLines [':'] := by decide
  rw [toList_write]
  exact (hkey isName_spacing).append (hcolon.append ((isWord_spacingText h).isLines.append
    (hfeed.append ((hkey isName_breakpoints).append (hend.append hwidths)))))

/-- **The value of the widths.** -/
theorem valueAt?_widthsText {c : Config} (h : c.IsWritable) {p : Position} (hp : 0 < p.column)
    {budget : Nat} (hbudget : (widthsText c.widths).length ≤ budget) (key : Scalar) :
    Node.valueAt? 0 budget ⟨key, true, ⟨false, .locate p (widthsText c.widths)⟩⟩ =
      some (.mapping ((widthLines c.widths).map lineEntry), ⟨true, []⟩) := by
  have hlines := isWord_widthLines h
  rw [widthsText_eq] at hbudget ⊢
  cases hcons : widthLines c.widths with
  | nil => exact Node.valueAt?_braces hp budget key
  | cons e es =>
    rw [hcons] at hbudget hlines
    rw [if_neg (List.cons_ne_nil e es)] at hbudget ⊢
    have hlength := length_le_length_linesText 2 hlines
    refine Node.valueAt?_lines (by decide) hlines ?_ p key
    rw [List.length_cons] at hbudget hlength
    omega

/-- Behind the name of the widths stands a blank or a line feed. -/
theorem exists_widthsText_eq_cons (ws : Widths) :
    ∃ d more, widthsText ws = d :: more ∧ isWhite d = true := by
  rw [widthsText_eq]
  split
  · exact ⟨_, _, rfl, rfl⟩
  · exact ⟨_, _, rfl, rfl⟩

/-- **The entries of a document** from the first header on. -/
theorem blockEntries?_write {c : Config} (h : c.IsWritable) {p : Position} (hp : 0 < p.column)
    {budget : Nat} (hbudget : (widthsText c.widths).length + 1 ≤ budget) (key : Scalar) :
    Node.blockEntries? 0 (budget + 1) ⟨key, true, ⟨false, .locate p (' ' :: (spacingText c.spacing ++
        '\n' :: (keyText 2 "breakpoints" ++ ':' :: widthsText c.widths)))⟩⟩ =
      some ([(key, .scalar ⟨.ofList (spacingText c.spacing), true⟩),
        (⟨"breakpoints", isPlainKey "breakpoints"⟩,
          .mapping ((widthLines c.widths).map lineEntry))], ⟨true, []⟩) := by
  obtain ⟨d, more, hwidths, hd⟩ := exists_widthsText_eq_cons c.widths
  -- the unit ends where the second name starts, which stands in the first column again
  have hstarts := startsToken_keyText isName_breakpoints 2 (':' :: widthsText c.widths)
  obtain ⟨q, hq, hvalue⟩ :=
    Node.valueAt?_word (isWord_spacingText h) hp (Nat.le_refl 0) hstarts budget key
  obtain ⟨r, hr, hnext⟩ := Header.block?_keyText isName_breakpoints 2 1 q hd more
  rw [← hwidths] at hnext
  have hcolumn := (column_keyText isName_breakpoints 2 true q (':' :: widthsText c.widths)).trans hq
  -- behind its colon the widths go on to the end
  obtain ⟨budget, rfl⟩ : ∃ k, budget = k + 1 := ⟨budget - 1, by omega⟩
  have hlength : (widthsText c.widths).length ≤ budget := by omega
  have hlast := valueAt?_widthsText h (p := r) (by omega) hlength
    ⟨"breakpoints", isPlainKey "breakpoints"⟩
  rw [spaces, List.replicate_zero, List.nil_append] at hvalue
  rw [Node.blockEntries?_of_next hvalue (atEnd_keyText isName_breakpoints 2 _ _ _) hcolumn hnext,
    Node.blockEntries?_of_end hlast]
  rfl

/-- **A document is read as the node that it was written for.** -/
theorem read?_toList_write {c : Config} (h : c.IsWritable) :
    Node.read? c.write.toList = some c.node := by
  have hlines := isLines_write h
  rw [toList_write] at hlines ⊢
  refine Node.read?_of_entries isName_spacing rfl hlines fun p hp => ?_
  refine blockEntries?_write h hp ?_ _
  -- the budget is the length of the document, and so more than that of its second field
  simp only [List.length_append, List.length_cons]
  omega

/-! ### Configurations -/

/-- The unit of a document is the one that was written. -/
theorem spacingOf?_spacingText {c : Config} (h : c.IsWritable) :
    spacingOf? (.scalar ⟨.ofList (spacingText c.spacing), true⟩) = some c.spacing := by
  have hnan := h.spacing
  cases hspacing : c.spacing with
  | none => rfl
  | some unit =>
    have hunit : unit ≠ .nan := by
      rintro rfl
      exact hnan hspacing
    show (if Yaml.Scalar.isNull ⟨.ofList (documentNumber.render unit), true⟩ then some none
      else (Yaml.Scalar.toBinary64? ⟨.ofList (documentNumber.render unit), true⟩).map some) = _
    rw [isNull_render hunit, if_neg Bool.false_ne_true, toBinary64?_render hunit]
    rfl

theorem widthOf?_toDigits (w : UInt32) :
    widthOf? (.scalar ⟨.ofList (Nat.toDigits 10 w.toNat), true⟩) = some w := by
  unfold widthOf?
  dsimp only
  rw [Scalar.toNat?_toDigits, Option.filter_some, if_pos (by simpa using w.toNat_lt_size)]
  exact congrArg some (UInt32.ofNat_toNat)

theorem widthsOf?_widthLines (ws : Widths) :
    widthsOf? (.mapping ((widthLines ws).map lineEntry)) = some ws := by
  have hentries (es : List (String × UInt32)) :
      (es.map fun e => lineEntry (e.1, Nat.toDigits 10 e.2.toNat)).mapM
        (fun e => (widthOf? e.2).map fun w => (e.1.text, w)) = some es := by
    induction es with
    | nil => rfl
    | cons e es ih =>
      rw [List.map_cons, List.mapM_cons, ih]
      show ((widthOf? (.scalar ⟨.ofList (Nat.toDigits 10 e.2.toNat), true⟩)).map _).bind _ = _
      rw [widthOf?_toDigits]
      rfl
  unfold widthsOf?
  rw [widthLines, List.map_map]
  show Option.map Widths.ofList ((ws.entries.map fun e =>
    lineEntry (e.1, Nat.toDigits 10 e.2.toNat)).mapM _) = _
  rw [hentries, Option.map_some, Widths.ofList_entries]

/-- **The fields are those of the configuration.** -/
theorem ofNode?_node {c : Config} (h : c.IsWritable) : ofNode? c.node = some c := by
  have hspacing := spacingOf?_spacingText h
  have hwidths := widthsOf?_widthLines c.widths
  unfold node ofNode? ofFields?
  dsimp only
  rw [if_pos ⟨by simp, by simp⟩]
  show (spacingOf? (.scalar ⟨.ofList (spacingText c.spacing), true⟩)).bind (fun spacing =>
    (widthsOf? (.mapping ((widthLines c.widths).map lineEntry))).bind fun widths =>
      some (⟨spacing, widths⟩ : Config)) = _
  rw [hspacing, hwidths]
  rfl

/-- A document is no white space. -/
theorem trim_toList_write_ne_nil (c : Config) : Text.trim c.write.toList ≠ [] := by
  obtain ⟨more, hmore⟩ : ∃ more, c.write.toList = 's' :: more := by
    have hspacing : keyText 2 "spacing" = 's' :: "pacing".toList := by rfl
    rw [toList_write, hspacing]
    exact ⟨_, rfl⟩
  have hs : Text.isBlank 's' = false := by decide
  rw [hmore, Text.trim, Text.trimStart_cons more hs, Text.trimEnd]
  intro hnil
  have hall := List.dropWhile_eq_nil_iff.1 (List.reverse_eq_nil_iff.1 hnil) 's'
    (List.mem_reverse.2 List.mem_cons_self)
  rw [hs] at hall
  cases hall

/-- **A configuration is read back.** -/
theorem read?_write {c : Config} (h : c.IsWritable) : Config.read? c.write = some c := by
  rw [Config.read?, if_neg (trim_toList_write_ne_nil c), read?_toList_write h, Option.bind_some,
    ofNode?_node h]

/-- A number equals itself. -/
theorem agrees_self {c : Config} (h : c.spacing ≠ some .nan) : c.agrees c = true := by
  unfold agrees
  rw [decide_eq_true rfl, Bool.true_and]
  cases hspacing : c.spacing with
  | none => rfl
  | some unit =>
    show unit.sameNumber unit = true
    unfold Binary64.sameNumber
    split
    · exact absurd hspacing h
    · rfl
    · exact decide_eq_true rfl

/-- **A configuration survives its document.** What is read from the document is the configuration
itself, by numeric equality too, and as a theme the document is accepted or refused as the
configuration is. -/
theorem survives_document {c : Config} (h : c.IsWritable) :
    read? c.write = some c ∧ c.agrees c = true ∧ Theme.read c.write = Theme.ofConfig c := by
  have hread := read?_write h
  refine ⟨hread, agrees_self h.spacing, ?_⟩
  unfold Theme.read
  rw [hread]

/-- Names that look like a number, null and a truth value, beside one that does not, and a unit that
is written with an exponent. -/
def lookalikes : Config where
  spacing := some (-1 / 10000000)
  widths := .ofList [("true", 1024), ("1e3", 4294967295), ("null", 0), ("sm", 640)]

theorem survives_document_lookalikes :
    lookalikes.IsWritable ∧
      read? lookalikes.write = some lookalikes ∧ lookalikes.agrees lookalikes = true ∧
        Theme.read lookalikes.write = Theme.ofConfig lookalikes := by
  have hwritable : lookalikes.IsWritable := by decide +kernel
  exact ⟨hwritable, survives_document hwritable⟩

end Config

end StyleSystem
