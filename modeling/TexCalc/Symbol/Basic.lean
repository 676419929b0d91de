import TexCalc.Text.Basic

/-!
# Symbols of a linear formula

The symbols into which a formula on one line is classified, in the order in which
they are printed.
-/

namespace TexCalc

/-- A symbol of a linear formula. -/
inductive Symbol where
  /-- A decimal numeral. -/
  | number (digits : Text)
  /-- A variable, which is a single letter. -/
  | var (letter : Char)
  | constant (name : Text)
  | function (name : Text)
  /-- A parenthesis. -/
  | delimiter (c : Char)
  | operator (c : Char)
  | comma
  /-- A gap between symbols, which is not printed. -/
  | gap
  /-- Any other character. -/
  | literal (c : Char)
  /-- A control sequence that nothing has replaced. -/
  | leftover (name : Text)
  deriving DecidableEq, Repr

namespace Symbol

def print : Symbol → Text
  | number digits => digits
  | var letter => [letter]
  | constant name => name
  | function name => name
  | delimiter c => [c]
  | operator c => [c]
  | comma => [',']
  | gap => []
  | literal c => [c]
  | leftover name => '\\' :: name

def isGap : Symbol → Bool
  | gap => true
  | _ => false

def isOpening (symbol : Symbol) : Bool :=
  symbol == delimiter '('

def isClosing (symbol : Symbol) : Bool :=
  symbol == delimiter ')'

def isNumber : Symbol → Bool
  | number _ => true
  | _ => false

/-- Names that stand for a value and not for a function. -/
def isValueName : Symbol → Bool
  | var _ | constant _ => true
  | _ => false

def isName : Symbol → Bool
  | function _ => true
  | symbol => symbol.isValueName

/-- The last symbol that is no gap. -/
def last? (symbols : List Symbol) : Option Symbol :=
  symbols.reverse.find? (!·.isGap)

/-- The name of a control sequence that nothing has replaced. -/
def leftover? : Symbol → Option Text
  | leftover name => some name
  | _ => none

end Symbol

/-- The text that a list of symbols is printed as. -/
def Text.ofSymbols (symbols : List Symbol) : Text :=
  symbols.flatMap Symbol.print

end TexCalc
