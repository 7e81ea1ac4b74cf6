import StyleSystem.Proofs.EntryLines

/-!
# Mappings of lines

A mapping is written as the lines of its entries, one after the other in the same column, and each
line has a name and a word (`linesText`). It is read back entry by entry (`Node.blockEntries?_lines`).

Reading an entry takes three looks at what follows: its value stands further to the right, the value
ends with the line, and then there is the next entry in the same column, or nothing. A line says all
three itself, so that no look goes further than the start of the next line.
-/

namespace StyleSystem.Yaml

/-- The lines of entries in a column. -/
def linesText (column : Nat) (es : List (String × List Char)) : List Char :=
  es.flatMap fun e => entryText column e.1 e.2

/-- The entry that is read from a line. -/
def lineEntry (e : String × List Char) : Scalar × Node :=
  (⟨e.1, isPlainKey e.1⟩, .scalar ⟨.ofList e.2, true⟩)

/-- A line, taken apart at the colon. -/
theorem linesText_cons {column : Nat} {e : String × List Char} (h : IsName e.1)
    (es : List (String × List Char)) :
    linesText column (e :: es) = spaces column ++ (keyText (column + 2) e.1 ++
      ':' :: ' ' :: (e.2 ++ '\n' :: linesText column es)) := by
  show entryText column e.1 e.2 ++ linesText column es = _
  rw [entryText_eq h]
  simp only [List.append_assoc, List.cons_append, List.nil_append]

theorem startsToken_keyText {name : String} (h : IsName name) (n : Nat) (rest : List Char) :
    StartsToken (keyText n name ++ rest) := by
  obtain ⟨c, more, hcons, hc⟩ := exists_keyText_eq_cons h n
  rw [hcons]
  exact startsToken_cons ⟨isInline_of_isKeyChar hc, ne_of_passes hc (by decide),
    ne_of_passes hc (by decide)⟩ _

theorem column_keyText {name : String} (h : IsName name) (n : Nat) (fresh : Bool) (p : Position)
    (rest : List Char) :
    (Place.mk fresh (.locate p (keyText n name ++ rest))).column = p.column := by
  obtain ⟨c, more, hcons, -⟩ := exists_keyText_eq_cons h n
  rw [hcons]
  rfl

/-- Behind a name and a colon the document goes on. -/
theorem atEnd_keyText {name : String} (h : IsName name) (n : Nat) (fresh : Bool) (p : Position)
    (rest : List Char) : (Place.mk fresh (.locate p (keyText n name ++ rest))).atEnd = false := by
  obtain ⟨c, more, hcons, hc⟩ := exists_keyText_eq_cons h n
  rw [hcons]
  show (false || Source.atAnyMark (⟨c, p⟩ :: _)) = false
  rw [Source.atAnyMark_cons (.inr ⟨ne_of_passes hc (by decide), ne_of_passes hc (by decide)⟩)]
  rfl

/-- What stands to the right of a column is no end and belongs to the entry in the column. -/
theorem Header.holds_of_column {column : Nat} {fresh : Bool} {p : Position} {c : Char}
    {rest : List Char} (h : column < p.column) :
    Header.holds column ⟨fresh, .locate p (c :: rest)⟩ = true := by
  have hmark : Source.atAnyMark (.locate p (c :: rest)) = false :=
    Source.atAnyMark_cons (.inl (by omega))
  show (!(false || Source.atAnyMark (.locate p (c :: rest))) &&
    (decide (column < p.column) || _)) = true
  rw [hmark, decide_eq_true h]
  rfl

namespace Node

/-! ### One entry -/

/-- The value of the entry with a header, and the place of the next token. -/
def valueAt? (column budget : Nat) (h : Header) : Option (Node × Place) :=
  let p := h.place.skip
  if h.colon && Header.holds column p then
    match Header.block? (column + 1) p with
    | some inner =>
      (blockEntries? p.column budget inner).map fun (entries, next) => (mapping entries, next)
    | none => inline? (column + 1) p
  else some (missing, p)

/-- An entry is read as its value and then whatever follows. -/
theorem blockEntries?_succ (column budget : Nat) (h : Header) :
    blockEntries? column (budget + 1) h = (valueAt? column budget h).bind fun (value, next) =>
      if next.atEnd || next.column < column then some ([(h.key, value)], next)
      else if next.column = column then
        (Header.block? (column + 1) next).bind fun following =>
          (blockEntries? column budget following).map
            fun (entries, left) => ((h.key, value) :: entries, left)
      else none := by
  rw [blockEntries?, valueAt?]
  simp only [Option.bind_eq_bind, Option.map_eq_bind, Option.pure_def]
  split
  · cases Header.block? (column + 1) h.place.skip with
    | none => rfl
    | some inner =>
      dsimp only
      cases blockEntries? h.place.skip.column budget inner with
      | none => rfl
      | some read => rfl
  · rfl

/-- **The last entry** of a document. -/
theorem blockEntries?_of_end {column budget : Nat} {h : Header} {value : Node}
    (hvalue : valueAt? column budget h = some (value, ⟨true, []⟩)) :
    blockEntries? column (budget + 1) h = some ([(h.key, value)], ⟨true, []⟩) := by
  rw [blockEntries?_succ, hvalue]
  rfl

/-- **An entry with another one below it.** -/
theorem blockEntries?_of_next {column budget : Nat} {h following : Header} {value : Node}
    {next : Place} (hvalue : valueAt? column budget h = some (value, next))
    (hend : next.atEnd = false) (hcolumn : next.column = column)
    (hnext : Header.block? (column + 1) next = some following) :
    blockEntries? column (budget + 1) h = (blockEntries? column budget following).map
      fun (entries, left) => ((h.key, value) :: entries, left) := by
  have hleft : ¬(next.atEnd || next.column < column) = true := by
    rw [hend, hcolumn, Bool.false_or, decide_eq_true_iff]
    exact Nat.lt_irrefl column
  rw [blockEntries?_succ, hvalue, Option.bind_some]
  dsimp only
  rw [if_neg hleft, if_pos hcolumn, hnext, Option.bind_some]

/-! ### Values -/

/-- What follows the blank behind a colon stands one column further to the right. -/
theorem skip_blank {cs : List Char} (h : StartsToken cs) (p : Position) :
    (Place.mk false (.locate p (' ' :: cs))).skip = ⟨false, .locate (p.after ' ') cs⟩ :=
  Place.skip_of_startsToken h false (p.after ' ')

/-- **A word is the value of its line.** -/
theorem valueAt?_word {w : List Char} (hw : IsWord w) {column : Nat} {p : Position}
    (hp : column < p.column) {n : Nat} (hn : n ≤ column) {rest : List Char}
    (hrest : StartsToken rest) (budget : Nat) (key : Scalar) :
    ∃ q : Position, q.column = n ∧
      valueAt? column budget
          ⟨key, true, ⟨false, .locate p (' ' :: (w ++ '\n' :: (spaces n ++ rest)))⟩⟩ =
        some (.scalar ⟨.ofList w, true⟩, ⟨true, .locate q rest⟩) := by
  have hafter : column < (p.after ' ').column := Nat.lt_succ_of_lt hp
  have hfits : FitsAt (p.after ' ') w := .inl (by omega)
  have hlimit : n < column + 1 := Nat.lt_succ_of_le hn
  obtain ⟨q, hq, hread⟩ := Scalar.read?_word_line hw hfits hlimit hrest
  refine ⟨q, hq, ?_⟩
  obtain ⟨c, more, rfl⟩ := List.exists_cons_of_ne_nil hw.ne_nil
  have hbrace : c ≠ '\x7b' := ne_of_passes (hw.all c List.mem_cons_self) (by decide)
  have hinline : inline? (column + 1)
      ⟨false, .locate (p.after ' ') (c :: more ++ '\n' :: (spaces n ++ rest))⟩ =
        some (.scalar ⟨.ofList (c :: more), true⟩, ⟨true, .locate q rest⟩) := by
    unfold inline?
    dsimp only
    split
    · rename_i heq
      injection heq with hhead
      exact absurd (congrArg Located.char hhead) hbrace
    · rw [hread, Option.bind_eq_bind, Option.bind_some]
      dsimp only
      rw [Place.skip_of_startsToken hrest]
      rfl
  unfold valueAt?
  dsimp only
  -- behind a blank no key can start, which leaves the scalar
  rw [skip_blank (hw.startsToken _), List.cons_append, Header.holds_of_column hafter]
  exact hinline

/-- **A mapping without entries.** -/
theorem valueAt?_braces {column : Nat} {p : Position} (hp : column < p.column) (budget : Nat)
    (key : Scalar) :
    valueAt? column budget ⟨key, true, ⟨false, .locate p [' ', '\x7b', '\x7d', '\n']⟩⟩ =
      some (mapping [], ⟨true, []⟩) := by
  have hafter : column < (p.after ' ').column := Nat.lt_succ_of_lt hp
  unfold valueAt?
  dsimp only
  rw [skip_blank (startsToken_cons (by decide) _), Header.holds_of_column hafter]
  rfl

/-! ### Lines -/

/-- **The lines below an entry are the entries below it.** -/
theorem blockEntries?_lines {column : Nat} {es : List (String × List Char)}
    (hes : ∀ e ∈ es, IsName e.1 ∧ IsWord e.2) {budget : Nat} (hbudget : es.length < budget)
    {p : Position} (hp : column < p.column) (key : Scalar) {w : List Char} (hw : IsWord w) :
    blockEntries? column budget
        ⟨key, true, ⟨false, .locate p (' ' :: (w ++ '\n' :: linesText column es))⟩⟩ =
      some ((key, .scalar ⟨.ofList w, true⟩) :: es.map lineEntry, ⟨true, []⟩) := by
  obtain ⟨budget, rfl⟩ : ∃ k, budget = k + 1 := ⟨budget - 1, by omega⟩
  -- each step reads the value of the line above and then the key of the next one, so that the
  -- column and the value of the header change while the budget goes down with the lines
  induction es generalizing budget p key w with
  | nil =>
    have hnothing : StartsToken [] := nofun
    obtain ⟨q, -, hvalue⟩ := valueAt?_word hw hp (Nat.zero_le column) hnothing budget key
    exact blockEntries?_of_end hvalue
  | cons e es ih =>
    obtain ⟨hname, hword⟩ := hes e List.mem_cons_self
    rw [linesText_cons hname]
    -- the value ends where the next name starts, and the header is read from there
    have hstarts := startsToken_keyText hname (column + 2)
      (':' :: ' ' :: (e.2 ++ '\n' :: linesText column es))
    obtain ⟨q, hq, hvalue⟩ := valueAt?_word hw hp (Nat.le_refl column) hstarts budget key
    obtain ⟨q', hq', hnext⟩ := Header.block?_keyText hname (column + 2) (column + 1) q
      (c := ' ') rfl (e.2 ++ '\n' :: linesText column es)
    obtain ⟨budget, rfl⟩ : ∃ k, budget = k + 1 :=
      ⟨budget - 1, by rw [List.length_cons] at hbudget; omega⟩
    rw [blockEntries?_of_next hvalue (atEnd_keyText hname _ _ _ _)
        ((column_keyText hname _ _ _ _).trans hq) hnext,
      ih (fun e he => hes e (List.mem_cons_of_mem _ he)) (hq ▸ hq') _ hword budget
        (by rw [List.length_cons] at hbudget; omega)]
    rfl

theorem skip_spaces (n : Nat) (p : Position) (cs : List Char) :
    (Place.mk true (.locate p (spaces n ++ cs))).skip =
      (Place.mk true (.locate ⟨p.line, p.column + n, p.offset + n⟩ cs)).skip := by
  rw [← foldl_after_spaces]
  induction n generalizing p with
  | zero => rfl
  | succ n ih => exact ih (p.after ' ')

/-- **Lines further to the right are a mapping of their own.** -/
theorem valueAt?_lines {column inner : Nat} (hinner : column < inner)
    {e : String × List Char} {es : List (String × List Char)}
    (hes : ∀ e' ∈ e :: es, IsName e'.1 ∧ IsWord e'.2) {budget : Nat} (hbudget : es.length < budget)
    (p : Position) (key : Scalar) :
    valueAt? column budget ⟨key, true, ⟨false, .locate p ('\n' :: linesText inner (e :: es))⟩⟩ =
      some (mapping ((e :: es).map lineEntry), ⟨true, []⟩) := by
  obtain ⟨hname, hword⟩ := hes e List.mem_cons_self
  rw [linesText_cons hname]
  -- the token behind the line feed is the first name, and it stands further to the right
  let q : Position := ⟨p.line + 1, 0 + inner, p.offset + 1 + inner⟩
  have hstarts := startsToken_keyText hname (inner + 2)
    (':' :: ' ' :: (e.2 ++ '\n' :: linesText inner es))
  have hskip : (Place.mk false (.locate p ('\n' :: (spaces inner ++ (keyText (inner + 2) e.1 ++
      ':' :: ' ' :: (e.2 ++ '\n' :: linesText inner es)))))).skip =
        ⟨true, .locate q (keyText (inner + 2) e.1 ++
          ':' :: ' ' :: (e.2 ++ '\n' :: linesText inner es))⟩ :=
    (skip_spaces inner ⟨p.line + 1, 0, p.offset + 1⟩ _).trans
      (Place.skip_of_startsToken hstarts true q)
  obtain ⟨q', hq', hheader⟩ := Header.block?_keyText hname (inner + 2) (column + 1) q
    (c := ' ') rfl (e.2 ++ '\n' :: linesText inner es)
  obtain ⟨c, more, hcons, -⟩ := exists_keyText_eq_cons hname (inner + 2)
  have hq : column < q.column := by
    show column < 0 + inner
    omega
  have hholds : Header.holds column ⟨true, .locate q (keyText (inner + 2) e.1 ++
      ':' :: ' ' :: (e.2 ++ '\n' :: linesText inner es))⟩ = true := by
    rw [hcons]
    exact Header.holds_of_column hq
  unfold valueAt?
  dsimp only
  rw [hskip, hholds, Bool.and_self, if_pos rfl, hheader]
  dsimp only
  have hinnerColumn : q.column = inner := Nat.zero_add inner
  have hright : inner < q'.column := hinnerColumn ▸ hq'
  rw [column_keyText hname, hinnerColumn,
    blockEntries?_lines (fun e he => hes e (List.mem_cons_of_mem _ he)) hbudget hright _ hword]
  rfl

end Node

end StyleSystem.Yaml
