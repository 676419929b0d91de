import TexCalc.Symbol.Basic

/-!
# Products

Two symbols side by side often mean a product.  Which pairs do is told by a test on
neighbours; gaps between neighbours do not count.
-/

namespace TexCalc

namespace Symbol

/-- The multiplication sign. -/
def times : Symbol :=
  operator '*'

/-- Put `*` between all neighbours that the test joins, `previous?` being the last
symbol, gaps apart, in front of the list. -/
def multiplyAfter (joins : Symbol → Symbol → Bool) :
    (previous? : Option Symbol) → List Symbol → List Symbol
  | _, [] => []
  | previous?, symbol :: rest =>
      let last? := if symbol.isGap then previous? else some symbol
      if previous?.any (joins · symbol) then
        times :: symbol :: multiplyAfter joins last? rest
      else
        symbol :: multiplyAfter joins last? rest

/-- Put `*` between all neighbours that the test joins. -/
def multiply (joins : Symbol → Symbol → Bool) (symbols : List Symbol) : List Symbol :=
  multiplyAfter joins none symbols

/-- A name right after the name of a value: `x y`, `\pi x`, `x \sin`. -/
def joinsNames (first second : Symbol) : Bool :=
  first.isValueName && second.isName

/-- A number before a name, a number or an opening parenthesis, a closing
parenthesis before the same, or the name of a value before an opening parenthesis.
A function before a parenthesis is a call. -/
def isJuxtaposed (first second : Symbol) : Bool :=
  let begins := second.isName || second.isNumber || second.isOpening
  if first.isNumber || first.isClosing then begins
  else first.isValueName && second.isOpening

end Symbol

end TexCalc
