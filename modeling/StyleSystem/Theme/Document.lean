import StyleSystem.Text.Basic
import StyleSystem.Theme.Config
import StyleSystem.Yaml.Key
import StyleSystem.Yaml.Node

/-!
# Configuration documents

A configuration is kept in a YAML document with the fields `spacing` and `breakpoints`, both of
which may be missing:

```
spacing: 4
breakpoints:
  sm: 640
  md: 768
```

* `Config.read?` — the configuration of a document.
* `Config.write` — the document of a configuration.
* `Theme.read` and `Theme.load` — the theme of a document and of a file.
-/

namespace StyleSystem

namespace Config

/-! ### Reading -/

/-- The unit of the spacing field, which null leaves unset. -/
def spacingOf? : Yaml.Node → Option (Option Binary64)
  | .scalar s => if s.isNull then some none else s.toBinary64?.map some
  | .mapping _ => none

/-- The width of a tier in 32 bits. -/
def widthOf? : Yaml.Node → Option UInt32
  | .scalar s => (s.toNat?.filter (· < UInt32.size)).map UInt32.ofNat
  | .mapping _ => none

/-- The widths of the breakpoints field. Of a repeated name the last width counts. -/
def widthsOf? : Yaml.Node → Option Widths
  | .scalar s => if s.isMissing then some .empty else none
  | .mapping entries =>
    (entries.mapM fun e => (widthOf? e.2).map fun w => (e.1.text, w)).map Widths.ofList

/-- The configuration of the fields of a document. Other fields and repeated fields are refused. -/
def ofFields? (entries : List (Yaml.Scalar × Yaml.Node)) : Option Config :=
  let fields := entries.map fun e => (e.1.text, e.2)
  let names := fields.map Prod.fst
  if names.Nodup ∧ ∀ n ∈ names, n = "spacing" ∨ n = "breakpoints" then do
    let spacing ← (fields.lookup "spacing").elim (some none) spacingOf?
    let widths ← (fields.lookup "breakpoints").elim (some .empty) widthsOf?
    return { spacing, widths }
  else none

/-- The configuration of a document; an empty one leaves all defaults. -/
def ofNode? : Yaml.Node → Option Config
  | .scalar s => if s.isMissing then some {} else none
  | .mapping entries => ofFields? entries

/-- **The configuration of a text.** A text of white space leaves all defaults. -/
def read? (text : String) : Option Config :=
  if Text.trim text.toList = [] then some {} else (Yaml.Node.read? text.toList).bind ofNode?

/-! ### Writing -/

/-- Numbers in documents: whole numbers keep a `.0`, numbers of at least `10 ^ 16` or below
`10 ^ (-5)` have an exponent, and the special values have the names of the format. -/
def documentNumber : Layout where
  positional := fun exponent => -5 ≤ exponent && exponent < 16
  pointZero := true
  tie := .even
  nan := ".nan"
  infinity := ".inf"

/-- The text of the spacing field. -/
def spacingText : Option Binary64 → List Char
  | some unit => documentNumber.render unit
  | none => ['n', 'u', 'l', 'l']

/-- The entry of a width. -/
def widthText (e : String × UInt32) : List Char :=
  Yaml.entryText 2 e.1 (Nat.toDigits 10 e.2.toNat)

/-- The text of the breakpoints field. -/
def widthsText (ws : Widths) : List Char :=
  if ws.entries = [] then [' ', '\x7b', '\x7d', '\n']
  else '\n' :: ws.entries.flatMap widthText

/-- **The document of a configuration.** Both fields are written, the names in ascending order. -/
def write (c : Config) : String :=
  .ofList ("spacing: ".toList ++ spacingText c.spacing ++ "\nbreakpoints:".toList ++
    widthsText c.widths)

end Config

/-! ### Themes -/

/-- **The theme of a document.** -/
def Theme.read (text : String) : Except ThemeError Theme :=
  match Config.read? text with
  | some c => Theme.ofConfig c
  | none => .error .malformed

/-- **The theme of a file,** given its path and what reading it gave: its bytes or a fault. -/
def Theme.load (path : String) (contents : Except ReadFault ByteArray) : Except ThemeError Theme :=
  match contents with
  | .error fault => .error (.unreadable path fault)
  | .ok bytes =>
    match String.fromUTF8? bytes with
    | some text => Theme.read text
    | none => .error (.unreadable path .notText)

end StyleSystem
