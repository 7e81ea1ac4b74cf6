import StyleSystem.Number.Decimal
import StyleSystem.Spec.Resolution
import StyleSystem.Style.Basic
import StyleSystem.Text.Basic

/-!
# Summaries

One line that shows the entries of a style with the kinds of their values, and one that shows the
styles of a specification as they are nested. A function of the theme shows only that it is there.
-/

namespace StyleSystem

/-! ## Styles -/

/-- Numbers of style values in summaries: whole numbers keep a `.0`, and numbers of at least
`10 ^ 16` or below `10 ^ (-5)` have an exponent. -/
def valueNumber : Layout where
  positional := fun exponent => -5 ≤ exponent && exponent < 16
  pointZero := true
  tie := .even
  nan := "NaN"
  infinity := "inf"

/-- The text of a number of a style. -/
def Number.text : Number → String
  | .int z => toString z
  | .float x => .ofList (valueNumber.render x)

namespace Value

/-- The summary of an object after those of its entries. -/
def objectSummary (entries : List String) : String :=
  "\x7b" ++ ", ".intercalate entries ++ "\x7d"

mutual

/-- The summary of a value. -/
def summary : Value → String
  | null => "Null"
  | bool b => "Bool(" ++ toString b ++ ")"
  | number n => "Number(" ++ n.text ++ ")"
  | string s => "String(" ++ Text.quoted s ++ ")"
  | array items => "Array [" ++ ", ".intercalate (itemSummaries items) ++ "]"
  | object entries => "Object " ++ objectSummary (entrySummaries entries)

/-- The summaries of the items of a list. -/
def itemSummaries : List Value → List String
  | [] => []
  | v :: rest => summary v :: itemSummaries rest

/-- The summaries of the entries of an object. -/
def entrySummaries : List (String × Value) → List String
  | [] => []
  | (k, v) :: rest => (Text.quoted k ++ ": " ++ summary v) :: entrySummaries rest

end

end Value

/-- The summary of a style. -/
def Style.summary (s : Style) : String := Value.objectSummary (Value.entrySummaries s.entries)

/-! ## Specifications -/

namespace SpecOver

variable {F : Type}

mutual

/-- **The summary of a specification.** -/
def summary : SpecOver F → String
  | empty => "Empty"
  | object style => "Object(" ++ style.summary ++ ")"
  | generator _ => "Generator(<fn>)"
  | list items => "List([" ++ ", ".intercalate (itemSummaries items) ++ "])"

/-- The summaries of the items of a list. -/
def itemSummaries : List (SpecOver F) → List String
  | [] => []
  | s :: rest => summary s :: itemSummaries rest

end

end SpecOver

end StyleSystem
