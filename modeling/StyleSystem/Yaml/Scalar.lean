import StyleSystem.Number.Decimal
import StyleSystem.Yaml.Place

/-!
# YAML scalars

A scalar is a text that was written plain, in quotes or as a block of lines; only a plain one can
be a number or null (`isNull`, `toBinary64?`, `toNat?`). `Scalar.read?` reads a scalar of any form:
its first character tells which.
-/

namespace StyleSystem.Yaml

/-! ## What a scalar means -/

/-- The value of a digit in bases up to sixteen. -/
def digit? (base : Nat) (c : Char) : Option Nat :=
  let value :=
    if c.isDigit then c.toNat - '0'.toNat
    else if 'a' ≤ c && c ≤ 'f' then c.toNat - 'a'.toNat + 10
    else if 'A' ≤ c && c ≤ 'F' then c.toNat - 'A'.toNat + 10
    else base
  if value < base then some value else none

/-- The natural with the given digits in a base; there must be a digit. -/
def natInBase? (base : Nat) (cs : List Char) : Option Nat :=
  if cs = [] then none
  else cs.foldlM (fun n c => (digit? base c).map fun d => base * n + d) 0

/-- A scalar. -/
structure Scalar where
  text : String
  plain : Bool
  deriving DecidableEq, Repr

namespace Scalar

/-- The scalar that stands where nothing is written. -/
def missing : Scalar := ⟨"", true⟩

/-- Whether a scalar is null, as the missing one is. -/
def isNull (s : Scalar) : Bool := s.plain && ["", "~", "null", "Null", "NULL"].contains s.text

/-- Whether nothing was written. -/
def isMissing (s : Scalar) : Bool := s.plain && s.text.isEmpty

/-- The spellings of infinity after the sign. -/
def infinityNames : List String := [".inf", ".Inf", ".INF"]

/-- The spellings of NaN, which has no sign. -/
def nanNames : List String := [".nan", ".NaN", ".NAN"]

/-- The floating-point number that a plain scalar denotes: a decimal numeral that does not overflow,
or a special value by one of its names. -/
def toBinary64? (s : Scalar) : Option Binary64 :=
  if !s.plain then none
  else if nanNames.contains s.text then some .nan
  else
    let (negative, unsigned) := Decimal.readSign s.text.toList
    if infinityNames.contains (String.ofList unsigned) then some (.infinite negative)
    else (Binary64.read? s.text.toList).filter Binary64.isFinite

/-- The natural that a plain scalar denotes: after an optional plus, digits in base sixteen, eight
or two behind `0x`, `0o` or `0b`, or decimal digits that do not start with a zero unless it stands
alone. -/
def toNat? (s : Scalar) : Option Nat :=
  if !s.plain then none
  else
    let unsigned := match s.text.toList with
      | '+' :: rest => rest
      | cs => cs
    match unsigned with
    | '0' :: 'x' :: digits => natInBase? 16 digits
    | '0' :: 'o' :: digits => natInBase? 8 digits
    | '0' :: 'b' :: digits => natInBase? 2 digits
    | ['0'] => some 0
    | '0' :: _ => none
    | digits => natInBase? 10 digits

end Scalar

/-!
## White space inside scalars

A scalar may go on in the next line. What stands between two of its visible characters is a `Gap`:
blanks within a line, which stay, or line breaks, which are folded. The blanks around a line break
are dropped, a single line feed becomes a space, and of several line breaks the first one, if it is
a line feed, is dropped and the others stay (`foldBreaks`).
-/

/-- **The text of line breaks between two lines,** given the one that ends the first line, unless
it was escaped, and those of the empty lines. -/
def foldBreaks (first more : List Char) : List Char :=
  if first = ['\n'] then (if more = [] then [' '] else more) else first ++ more

/-- White space between two visible characters of a scalar. -/
inductive Gap where
  | blanks (text : List Char)
  | breaks (first more : List Char)
  deriving DecidableEq, Repr

namespace Gap

/-- No white space. -/
def empty : Gap := blanks []

/-- A gap followed by one more character of white space. -/
def push : Gap → Char → Gap
  | blanks text, c => if isBreak c then breaks [c] [] else blanks (text ++ [c])
  | breaks first more, c => if isBreak c then breaks first (more ++ [c]) else breaks first more

/-- The text that a gap stands for. -/
def text : Gap → List Char
  | blanks text => text
  | breaks first more => foldBreaks first more

/-- Whether another line starts in a gap. -/
def crosses : Gap → Bool
  | blanks _ => false
  | breaks _ _ => true

end Gap

/-- Characters in front of a text that was read, beside what is left after it. -/
def inFront {α : Type} (cs : List Char) (read : Option (List Char × α)) :
    Option (List Char × α) :=
  read.map fun (text, left) => (cs ++ text, left)

/-!
## Block scalars

A block scalar is a text of whole lines, written in the lines below its header. The header consists
of a bar, which keeps the line breaks, or a greater sign, which folds them, and then of an
indentation and a sign for the line breaks at the end of the text, in either order, both of which
may be missing. The text goes on for as long as its lines are indented; more indentation than that
is text.
-/

/-! ### Headers -/

/-- What becomes of the line breaks at the end of a block scalar: all of them are dropped, the
first one is kept, or all are kept. -/
inductive Chomping where
  | strip
  | clip
  | keep
  deriving DecidableEq, Repr

/-- The text at the end of a block scalar. -/
def Chomping.ending : Chomping → Gap → List Char
  | .strip, _ => []
  | .clip, .breaks first _ => first
  | .keep, .breaks first more => first ++ more
  | _, .blanks _ => []

/-- The sign for the line breaks at the end, if there is one, and what follows. -/
def takeChomping : Source → Option Chomping × Source
  | ⟨'-', _⟩ :: rest => (some .strip, rest)
  | ⟨'+', _⟩ :: rest => (some .keep, rest)
  | rest => (none, rest)

/-- The indentation in a header, if there is one, and what follows. It must not be zero. -/
def takeIndentation? : Source → Option (Option Nat × Source)
  | [] => some (none, [])
  | c :: rest =>
    if c.char = '0' then none
    else if c.char.isDigit then some (some (c.char.toNat - '0'.toNat), rest)
    else some (none, c :: rest)

/-- The signs of a header and what follows. -/
def takeSigns? (s : Source) : Option (Chomping × Option Nat × Source) := do
  let (early, s) := takeChomping s
  let (indentation, s) ← takeIndentation? s
  match early with
  | some chomping => return (chomping, indentation, s)
  | none =>
    let (late, s) := takeChomping s
    return (late.getD .clip, indentation, s)

/-- The lines below a header, in which only blanks and a comment may follow the signs. -/
def belowHeader? (s : Source) : Option Source :=
  let s := s.dropWhile fun c => isSpacing c.char
  let s := if Source.next? s = some '#' then s.dropWhile fun c => !isBreak c.char else s
  match s with
  | [] => some []
  | c :: rest => if isBreak c.char then some rest else none

/-! ### Lines -/

/-- The widest indentation of the empty lines at the start of a text and of the first other line.
Tabs do not indent. -/
def widestIndentation? (widest : Nat) : Source → Option Nat
  | [] => some widest
  | c :: rest =>
    if c.char = ' ' then widestIndentation? (max widest (c.position.column + 1)) rest
    else if isBreak c.char then widestIndentation? widest rest
    else if c.char = '\t' then none
    else some widest

/-- The text between two lines of a block scalar. Folding leaves a line alone that starts with a
blank, and the line after it; `blank` says whether one of the two does. -/
def betweenLines (folded blank : Bool) : Gap → List Char
  | .breaks first more => if folded && !blank then foldBreaks first more else first ++ more
  | .blanks text => text

/-- **The text of a block scalar** and the place after it. `gap` holds the line breaks since the
last line of text, `inside` says whether a line of text has begun and `blank` whether the last such
line starts with a blank. -/
def blockText? (folded : Bool) (chomping : Chomping) (indentation : Nat) :
    Bool → Bool → Gap → Source → Option (List Char × Place)
  | _, _, gap, [] => some (chomping.ending gap, ⟨true, []⟩)
  | true, blank, gap, c :: rest =>
    if isBreak c.char then
      blockText? folded chomping indentation false blank (.breaks [c.char] []) rest
    else inFront [c.char] (blockText? folded chomping indentation true blank gap rest)
  | false, blank, gap, c :: rest =>
    if isBreak c.char then
      blockText? folded chomping indentation false blank (gap.push c.char) rest
    else if c.position.column < indentation then
      -- in front of the text, where only spaces may stand
      if c.char = ' ' then blockText? folded chomping indentation false blank gap rest
      else if c.char = '\t' then none
      else some (chomping.ending gap, ⟨true, c :: rest⟩)
    else
      -- the first character of a line of text
      let starts := isSpacing c.char
      inFront (betweenLines folded (blank || starts) gap ++ [c.char])
        (blockText? folded chomping indentation true starts (.breaks [] []) rest)

/-- **The text of a block scalar** after the first sign of its header, and the place after it.
`limit` is the first column that may belong to it. -/
def block? (folded : Bool) (limit : Nat) (s : Source) : Option (List Char × Place) := do
  let (chomping, given, s) ← takeSigns? s
  let lines ← belowHeader? s
  let indentation ← match given with
    | some n => pure (limit - 1 + n)
    | none => (widestIndentation? 0 lines).map fun widest => max widest (max limit 1)
  blockText? folded chomping indentation false false (.breaks [] []) lines

/-!
## Plain scalars

A plain scalar has no marks of its own around it: it ends where something else begins. In block
style it goes on in the next lines as long as they are indented to its `limit`, the first column
that belongs to it; in flow style the indentation does not count.
-/

/-- Whether a plain scalar may start here. A dash must not stand alone, and neither must a colon or
a question mark, which may only start one outside of flow mappings. -/
def startsPlain (flow : Bool) : Source → Bool
  | [] => false
  | c :: rest =>
    if Source.atAnyMark (c :: rest) then false
    else if c.char = '-' then !endsToken (Source.next? rest)
    else if c.char = ':' || c.char = '?' then !flow && !endsToken (Source.next? rest)
    else !isWhite c.char && !isIndicator c.char

/-- Whether a plain scalar ends before the visible character `c`, which follows `gap`: at the end
of its indentation, at a document mark, at a comment, at the colon after a key, and in flow style
at an indicator. -/
def endsPlain (flow : Bool) (limit : Nat) (gap : Gap) (c : Located) (rest : Source) : Bool :=
  (gap.crosses && !flow && c.position.column < limit) || Source.atAnyMark (c :: rest) ||
    (c.char = '#' && gap ≠ .empty) || (c.char = ':' && endsToken (Source.next? rest)) ||
    (flow && isFlowIndicator c.char)

/-- Whether `c` makes a text malformed when it follows a plain scalar and `gap`: a tab that stands
in the indentation of a line, and in flow style a colon in front of an indicator. -/
def spoilsPlain (flow : Bool) (limit : Nat) (gap : Gap) (c : Located) (rest : Source) : Bool :=
  (c.char = '\t' && gap.crosses && c.position.column < limit) ||
    (flow && c.char = ':' && (Source.next? rest).any fun d => isFlowIndicator d || d = '?')

/-- **The text of a plain scalar** from the white space `gap` on, and the place after it. The white
space at its end is no part of it; if it crosses a line, the place is fresh. -/
def plainText? (flow : Bool) (limit : Nat) : Gap → Source → Option (List Char × Place)
  | gap, [] => some ([], ⟨gap.crosses, []⟩)
  | gap, c :: rest =>
    if spoilsPlain flow limit gap c rest then none
    else if isWhite c.char then plainText? flow limit (gap.push c.char) rest
    else if endsPlain flow limit gap c rest then some ([], ⟨gap.crosses, c :: rest⟩)
    else inFront (gap.text ++ [c.char]) (plainText? flow limit .empty rest)

/-!
## Quoted scalars

A scalar in quotes may go on in the next lines, whatever their indentation, but no document mark
may stand in it. In single quotes only the quote itself is special, and written twice; in double
quotes a backslash starts an escape (`escaped?`), and an escaped line break joins two lines.
-/

/-- **The text up to the single quote that ends a scalar,** from the white space `gap` on, and what
follows the quote. -/
def singleQuoted? : Gap → Source → Option (List Char × Source)
  | _, [] => none
  | gap, ⟨'\'', _⟩ :: ⟨'\'', _⟩ :: rest => inFront (gap.text ++ ['\'']) (singleQuoted? .empty rest)
  | gap, ⟨'\'', _⟩ :: rest => some (gap.text, rest)
  | gap, c :: rest =>
    if isWhite c.char then singleQuoted? (gap.push c.char) rest
    else if Source.atAnyMark (c :: rest) then none
    else inFront (gap.text ++ [c.char]) (singleQuoted? .empty rest)

/-- The character that a backslash and a letter stand for. -/
def escaped? : Char → Option Char
  | '0' => some '\x00'
  | 'a' => some '\x07'
  | 'b' => some '\x08'
  | 't' | '\t' => some '\t'
  | 'n' => some '\n'
  | 'v' => some '\x0b'
  | 'f' => some '\x0c'
  | 'r' => some '\r'
  | 'e' => some '\x1b'
  | ' ' => some ' '
  | '"' => some '"'
  | '/' => some '/'
  | '\\' => some '\\'
  | 'N' => some '\u0085'
  | '_' => some '\u00a0'
  | 'L' => some '\u2028'
  | 'P' => some '\u2029'
  | _ => none

/-- The character with the hexadecimal number, if there is one. -/
def charOfHex? (digits : Source) : Option Char := do
  let n ← natInBase? 16 (digits.map Located.char)
  if h : n.isValidChar then some (.ofNatAux n h) else none

/-- **The text up to the double quote that ends a scalar,** from the white space `gap` on and with
escapes replaced, and what follows the quote. -/
def doubleQuoted? : Gap → Source → Option (List Char × Source)
  | _, [] => none
  | gap, ⟨'"', _⟩ :: rest => some (gap.text, rest)
  | gap, ⟨'\\', _⟩ :: ⟨'x', _⟩ :: a :: b :: rest => do
    let e ← charOfHex? [a, b]
    inFront (gap.text ++ [e]) (doubleQuoted? .empty rest)
  | gap, ⟨'\\', _⟩ :: ⟨'u', _⟩ :: a :: b :: c :: d :: rest => do
    let e ← charOfHex? [a, b, c, d]
    inFront (gap.text ++ [e]) (doubleQuoted? .empty rest)
  | gap, ⟨'\\', _⟩ :: ⟨'U', _⟩ :: a :: b :: c :: d :: a₂ :: b₂ :: c₂ :: d₂ :: rest => do
    let e ← charOfHex? [a, b, c, d, a₂, b₂, c₂, d₂]
    inFront (gap.text ++ [e]) (doubleQuoted? .empty rest)
  | gap, ⟨'\\', _⟩ :: c :: rest =>
    if isBreak c.char then inFront gap.text (doubleQuoted? (.breaks [] []) rest)
    else do
      let e ← escaped? c.char
      inFront (gap.text ++ [e]) (doubleQuoted? .empty rest)
  | gap, c :: rest =>
    if isWhite c.char then doubleQuoted? (gap.push c.char) rest
    else if c.char = '\\' || Source.atAnyMark (c :: rest) then none
    else inFront (gap.text ++ [c.char]) (doubleQuoted? .empty rest)

/-! ## Scalars of any form -/

namespace Scalar

/-- Whether a block scalar starts here. -/
def startsBlock (s : Source) : Bool := s.next? = some '|' || s.next? = some '>'

/-- A scalar of a text, and what follows. -/
def ofRead {α β : Type} (plain : Bool) (place : α → β) (read : Option (List Char × α)) :
    Option (Scalar × β) :=
  read.map fun (text, left) => (⟨.ofList text, plain⟩, place left)

/-- **The scalar that starts here** and the place after it. `limit` is the first column that belongs
to a plain or block scalar in block style. Block scalars do not stand in flow style. -/
def read? (flow : Bool) (limit : Nat) : Source → Option (Scalar × Place)
  | ⟨'\'', _⟩ :: rest => ofRead false (Place.mk false) (singleQuoted? .empty rest)
  | ⟨'"', _⟩ :: rest => ofRead false (Place.mk false) (doubleQuoted? .empty rest)
  | ⟨'|', _⟩ :: rest => if flow then none else ofRead false id (block? false limit rest)
  | ⟨'>', _⟩ :: rest => if flow then none else ofRead false id (block? true limit rest)
  | s => if startsPlain flow s then ofRead true id (plainText? flow limit .empty s) else none

end Scalar

end StyleSystem.Yaml
