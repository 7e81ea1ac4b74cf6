import StyleSystem.Yaml.Place
import StyleSystem.Yaml.Scalar

/-!
# Writing mapping entries

`entryText` writes one entry of a block mapping. Its key is plain if it is then read as a text, and
in single quotes else; a key with line feeds is a block scalar, and one that holds characters which
are not shown is in double quotes, where each of them has an escape (`keyForm`). A long key, and
one that takes several lines, stands behind a question mark.
-/

namespace StyleSystem.Yaml

/-! ### Characters -/

/-- Whether a character is shown as it is within a line. -/
def isShown (c : Char) : Bool := isAllowed c && c != '\t' && !isBreak c && c != byteOrderMark

/-- Whether a character stands for itself in a text of several lines. -/
def isPrintable (c : Char) : Bool := isShown c || c = '\n' || c = '\u2028' || c = '\u2029'

/-- Whether some character of the first kind stands right before one of the second. -/
def hasPair (first second : Char → Bool) : List Char → Bool
  | a :: b :: rest => (first a && second b) || hasPair first second (b :: rest)
  | _ => false

/-! ### Plain keys -/

/-- The spellings of the truth values. -/
def truthNames : List String := ["true", "True", "TRUE", "false", "False", "FALSE"]

/-- Whether a text is an integer in base sixteen, eight or two that fits 128 bits. -/
def isBasedInteger (cs : List Char) : Bool :=
  let (negative, unsigned) := Decimal.readSign cs
  let value? := match unsigned with
    | '0' :: 'x' :: digits => natInBase? 16 digits
    | '0' :: 'o' :: digits => natInBase? 8 digits
    | '0' :: 'b' :: digits => natInBase? 2 digits
    | _ => none
  value?.any fun n => if negative then n ≤ power 2 127 else n < power 2 128

/-- Whether a plain scalar would be read as null, a truth value or a number. -/
def readsAsValue (text : String) : Bool :=
  let s : Scalar := ⟨text, true⟩
  s.isNull || truthNames.contains text || s.toBinary64?.isSome || isBasedInteger text.toList

/-- Whether `c`, followed by `next`, ends a plain scalar or has a meaning of its own. -/
def breaksPlain (first afterSpacing : Bool) (c : Char) (next : Option Char) : Bool :=
  if first then isIndicator c || ((c = '-' || c = '?' || c = ':') && endsToken next)
  else (c = ':' && endsToken next) || (c = '#' && afterSpacing)

/-- Whether some character of a key has a meaning of its own where it stands. -/
def hasIndicator : Bool → Bool → List Char → Bool
  | _, _, [] => false
  | first, afterSpacing, c :: rest =>
    breaksPlain first afterSpacing c rest.head? || hasIndicator false (isSpacing c) rest

/-- Whether a text starts like a document mark. -/
def startsLikeMark (cs : List Char) : Bool :=
  cs.take 3 = ['-', '-', '-'] || cs.take 3 = ['.', '.', '.']

/-- Whether a key of one line may be plain. -/
def isPlainKey (key : String) : Bool :=
  let cs := key.toList
  !(readsAsValue key || startsLikeMark cs || cs.head? = some ' ' || cs.getLast? = some ' ' ||
    hasIndicator true true cs)

/-! ### Forms -/

/-- The forms in which a key is written. -/
inductive KeyForm where
  | plain
  | single
  | double
  | literal
  deriving DecidableEq, Repr

/-- **The form of a key.** Outside of double quotes no line ends in a blank; in single quotes no
line but the first starts with one, since it would not be told from indentation. -/
def keyForm (key : String) : KeyForm :=
  let cs := key.toList
  if !cs.all isPrintable || hasPair (· = ' ') isBreak cs then .double
  else if cs.contains '\n' then if cs.getLast? = some ' ' then .double else .literal
  else if cs.any isBreak then if hasPair isBreak (· = ' ') cs then .double else .single
  else if isPlainKey key then .plain
  else .single

/-- The escape of a character in double quotes, if it needs one. -/
def escapeText (c : Char) : List Char :=
  match c with
  | '\x00' => ['\\', '0']
  | '\x07' => ['\\', 'a']
  | '\x08' => ['\\', 'b']
  | '\t' => ['\\', 't']
  | '\n' => ['\\', 'n']
  | '\x0b' => ['\\', 'v']
  | '\x0c' => ['\\', 'f']
  | '\r' => ['\\', 'r']
  | '\x1b' => ['\\', 'e']
  | '"' => ['\\', '"']
  | '\\' => ['\\', '\\']
  | '\u0085' => ['\\', 'N']
  | '\u2028' => ['\\', 'L']
  | '\u2029' => ['\\', 'P']
  | c =>
    if isShown c then [c]
    else
      let digits := (Nat.toDigits 16 c.toNat).map Char.toUpper
      let (letter, width) := if c.toNat < 0x100 then ('x', 2)
        else if c.toNat < 0x10000 then ('u', 4) else ('U', 8)
      '\\' :: letter :: (List.replicate (width - digits.length) '0' ++ digits)

/-- So many spaces. -/
def spaces (n : Nat) : List Char := List.replicate n ' '

/-- A text whose lines are indented, but for the empty ones; `starts` says whether it begins a
line. -/
def indentLines (n : Nat) : Bool → List Char → List Char
  | _, [] => []
  | starts, c :: rest =>
    if isBreak c then c :: indentLines n true rest
    else (if starts then spaces n else []) ++ c :: indentLines n false rest

/-- The sign for the line breaks at the end of a text: none for one of them, a plus for more, or
for one that is the whole text, and a minus if there are none. -/
def chompingSign (cs : List Char) : List Char :=
  match cs.reverse with
  | [] => ['-']
  | last :: before =>
    if !isBreak last then ['-'] else if before.head?.all isBreak then ['+'] else []

/-- A text as a block scalar. Its indentation is written, as two columns more than that of the
mapping, if the first line does not show it. -/
def literalText (n : Nat) (cs : List Char) : List Char :=
  let hidden := cs.head?.any fun c => c = ' ' || isBreak c
  '|' :: ((if hidden then ['2'] else []) ++ chompingSign cs ++ '\n' :: indentLines n true cs)

/-- **The text of a key** whose lines are indented by `n`. -/
def keyText (n : Nat) (key : String) : List Char :=
  let cs := key.toList
  match keyForm key with
  | .plain => cs
  | .single =>
    '\'' :: indentLines n false (cs.flatMap (fun c => if c = '\'' then [c, c] else [c]) ++ ['\''])
  | .double => '"' :: (cs.flatMap escapeText ++ ['"'])
  | .literal => literalText n cs

/-! ### Entries -/

/-- The longest key, in bytes, that is written in front of its colon in one line. -/
def maxSimpleKey : Nat := 128

/-- Whether a key is written in front of its colon in one line. -/
def isSimpleKey (key : String) : Bool :=
  !key.toList.any isBreak && key.utf8ByteSize ≤ maxSimpleKey

/-- **The lines of an entry** with a scalar as its value in a mapping that is indented by `n`. -/
def entryText (n : Nat) (key : String) (value : List Char) : List Char :=
  let text := keyText (n + 2) key
  if isSimpleKey key then spaces n ++ text ++ ':' :: ' ' :: (value ++ ['\n'])
  else
    -- a block scalar may end with a line break of its own
    let lineEnd := if text.getLast?.any isBreak then [] else ['\n']
    spaces n ++ '?' :: ' ' :: (text ++ lineEnd) ++ spaces n ++ ':' :: ' ' :: (value ++ ['\n'])

end StyleSystem.Yaml
