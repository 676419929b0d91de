import TexCalc.Symbol.Product
import TexCalc.Report

/-!
# Expressions

The last step from symbols to an expression: control sequences that nothing has
replaced are removed, each with a warning, and the remaining products are made
explicit.
-/

namespace TexCalc

namespace Symbol

/-- The symbols that are printed in the end. -/
def finished (symbols : List Symbol) : List Symbol :=
  multiply isJuxtaposed (symbols.filter (·.leftover?.isNone))

end Symbol

/-- The expression that a list of symbols stands for, with a warning for each
control sequence removed. -/
def Report.ofSymbols (symbols : List Symbol) : Report where
  expression := Text.ofSymbols (Symbol.finished symbols)
  warnings := (symbols.filterMap Symbol.leftover?).map Warning.removed

end TexCalc
