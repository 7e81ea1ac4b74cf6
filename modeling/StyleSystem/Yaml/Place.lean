/-!
# Places in YAML texts

In YAML the line and the column of a token decide what it belongs to. `Source.ofText` therefore
writes its position beside each character of a text, once and for all; what reads a text takes the
characters one by one from the front and never counts.

* `Position` and `Located` — where a character stands, and a character with its position.
* `Source` — a text, or the rest of one, with all positions.
* `Place` — where a token may start, and whether that token may be a key.
* `Place.skip` — the way to the next token, over white space and comments.

## Fresh places

A key of a block mapping starts a line or follows a question mark or the colon of another key that
has one. Such places are `fresh`. A tab in front of the first token of a fresh place is in the way,
since the column of that token counts; elsewhere a tab is a blank like any other.
-/

namespace StyleSystem.Yaml

/-!
## Characters of YAML texts

The characters that a YAML text may hold, and those that separate its tokens. Lines end in five
ways; `unifyBreaks` leaves three of them, the line feed and the two separators of Unicode.
-/

/-- A line break. -/
def isBreak (c : Char) : Bool :=
  c = '\n' || c = '\r' || c = '\u0085' || c = '\u2028' || c = '\u2029'

/-- A blank within a line. -/
def isSpacing (c : Char) : Bool := c = ' ' || c = '\t'

/-- White space: a blank or a line break. -/
def isWhite (c : Char) : Bool := isSpacing c || isBreak c

/-- Whether a token ends in front of a character, or at the end of the text if there is none. -/
def endsToken (next : Option Char) : Bool := next.all isWhite

/-- Whether a text may hold a character: no control character but the tab and the line breaks. -/
def isAllowed (c : Char) : Bool :=
  c = '\t' || c = '\n' || c = '\r' || (0x20 ≤ c.toNat && c.toNat ≤ 0x7E) || c = '\u0085' ||
    (0xA0 ≤ c.toNat && c.toNat ≤ 0xD7FF) || (0xE000 ≤ c.toNat && c.toNat ≤ 0xFFFD) ||
    0x10000 ≤ c.toNat

/-- The characters with a meaning in flow mappings and sequences. -/
def isFlowIndicator (c : Char) : Bool := c = ',' || c = '[' || c = ']' || c = '\x7b' || c = '\x7d'

/-- The characters that no plain scalar starts with. The three that may, if a token does not end
right after them, are not among them. -/
def isIndicator (c : Char) : Bool :=
  isFlowIndicator c || c = '#' || c = '&' || c = '*' || c = '!' || c = '|' || c = '>' ||
    c = '\'' || c = '"' || c = '%' || c = '@' || c = '\x60'

/-- The byte order mark, which may stand in front of a line. -/
def byteOrderMark : Char := '\ufeff'

/-- A text in which a line feed stands for a carriage return, for both together and for the next
line character. -/
def unifyBreaks : List Char → List Char
  | [] => []
  | '\r' :: '\n' :: rest => '\n' :: unifyBreaks rest
  | c :: rest => (if c = '\r' || c = '\u0085' then '\n' else c) :: unifyBreaks rest

/-! ## Places -/

/-! ### Positions -/

/-- The position of a character: its line, its column in characters, and the bytes of the text in
front of it. -/
structure Position where
  line : Nat
  column : Nat
  offset : Nat
  deriving DecidableEq, Repr

namespace Position

/-- The position of the first character of a text. -/
def start : Position := ⟨0, 0, 0⟩

/-- The position after a character. -/
def after (p : Position) (c : Char) : Position :=
  if isBreak c then ⟨p.line + 1, 0, p.offset + c.utf8Size⟩
  else ⟨p.line, p.column + 1, p.offset + c.utf8Size⟩

end Position

/-- A character with its position. -/
structure Located where
  char : Char
  position : Position
  deriving DecidableEq, Repr

/-- A text, or the rest of one, with the positions of its characters. -/
abbrev Source := List Located

namespace Source

/-- A text from a position on. -/
def locate : Position → List Char → Source
  | _, [] => []
  | p, c :: rest => ⟨c, p⟩ :: locate (p.after c) rest

@[simp] theorem map_char_locate (p : Position) (cs : List Char) :
    (locate p cs).map Located.char = cs := by
  induction cs generalizing p with
  | nil => rfl
  | cons c rest ih => simp [locate, ih]

theorem length_locate (p : Position) (cs : List Char) : (locate p cs).length = cs.length := by
  rw [← List.length_map Located.char, map_char_locate]

/-- **The source of a text.** -/
def ofText (cs : List Char) : Source := locate .start (unifyBreaks cs)

/-- The first character. -/
def next? (s : Source) : Option Char := s.head?.map Located.char

/-- The column of the first character. -/
def column (s : Source) : Nat := s.head?.elim 0 fun c => c.position.column

/-- Whether a sign stands here as a token of its own. -/
def atSign (sign : Char) : Source → Bool
  | [] => false
  | c :: rest => c.char = sign && endsToken (next? rest)

/-- Whether a document mark stands here: three equal characters that start a line. -/
def atMark (m : Char) : Source → Bool
  | ⟨a, p⟩ :: ⟨b, _⟩ :: ⟨c, _⟩ :: rest =>
    p.column = 0 && a = m && b = m && c = m && endsToken (next? rest)
  | _ => false

/-- Whether the mark that opens or the mark that closes a document stands here. -/
def atAnyMark (s : Source) : Bool := s.atMark '-' || s.atMark '.'

/-- Whether the document ends here. -/
def atEnd (s : Source) : Bool := s.isEmpty || s.atAnyMark

end Source

/-! ### Places -/

/-- A place where a token may start. -/
structure Place where
  /-- Whether the token may be a key of a block mapping. -/
  fresh : Bool
  rest : Source
  deriving DecidableEq, Repr

namespace Place

/-- The column of the next character. -/
def column (p : Place) : Nat := p.rest.column

/-- Whether the document ends here. -/
def atEnd (p : Place) : Bool := p.rest.atEnd

/-- Whether a character in front of a token is passed over. -/
def passes (flow fresh : Bool) (c : Located) : Bool :=
  c.char = ' ' || (c.char = '\t' && (flow || !fresh)) ||
    (c.char = byteOrderMark && c.position.column = 0)

/-- The place of the next token, where `comment` says that a comment has begun. In block style a
new line is a fresh place. -/
def skipFrom (flow : Bool) : Bool → Bool → Source → Place
  | _, fresh, [] => ⟨fresh, []⟩
  | comment, fresh, c :: rest =>
    if isBreak c.char then skipFrom flow false (fresh || !flow) rest
    else if comment || passes flow fresh c then skipFrom flow comment fresh rest
    else if c.char = '#' then skipFrom flow true fresh rest
    else ⟨fresh, c :: rest⟩

/-- **The place of the next token** in block style. -/
def skip (p : Place) : Place := skipFrom false false p.fresh p.rest

end Place

/-- The next token in flow style, where no place is fresh. -/
def Source.skip (s : Source) : Source := (Place.skipFrom true false false s).rest

end StyleSystem.Yaml
