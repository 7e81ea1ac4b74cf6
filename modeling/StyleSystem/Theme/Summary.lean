import StyleSystem.Theme.Basic

/-!
# Summaries of themes

One line that shows the widths, the rule and the spacing scale of a theme. A function shows only
that it is there.
-/

namespace StyleSystem

/-- Numbers in summaries of themes: whole numbers keep a `.0`, and numbers of at least `10 ^ 16` or
below `10 ^ (-4)` have an exponent. -/
def summaryNumber : Layout where
  positional := fun exponent => -4 ≤ exponent && exponent < 16
  pointZero := true
  tie := .up
  nan := "NaN"
  infinity := "inf"

/-- The summary of a spacing scale. -/
def Spacing.summary : Spacing → String
  | .unit u => "Unit(" ++ String.ofList (summaryNumber.render u) ++ ")"
  | .custom _ => "Custom(<fn>)"

/-- The summary of a table of breakpoints. -/
def Breakpoints.summary (b : Breakpoints) : String :=
  "Breakpoints \x7b values: [" ++
    ", ".intercalate (b.toList.map fun p => toString p.2.toNat) ++ "], rule: " ++
    (if b.rule.isSome then "Some(\"<custom>\")" else "None") ++ " \x7d"

/-- **The summary of a theme.** -/
def Theme.summary (θ : Theme) : String :=
  "Theme \x7b breakpoints: " ++ θ.breakpoints.summary ++ ", spacing: " ++ θ.spacing.summary ++
    " \x7d"

end StyleSystem
