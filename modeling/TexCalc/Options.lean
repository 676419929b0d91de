import TexCalc.Text.Basic

/-!
# Options

What a formula leaves open, the sign of `\pm` and the base of `\log`, and whether
faults end the translation are chosen here.
-/

namespace TexCalc

/-- The sign that `\pm` stands for.  `\mp` always stands for the other one. -/
inductive Sign where
  | plus
  | minus
  deriving DecidableEq, Repr

namespace Sign

def char : Sign → Char
  | plus => '+'
  | minus => '-'

def opposite : Sign → Sign
  | plus => minus
  | minus => plus

end Sign

/-- The base of a logarithm written without one. -/
inductive LogBase where
  /-- Base ten. -/
  | common
  | natural
  deriving DecidableEq, Repr

namespace LogBase

/-- The target function that computes the logarithm. -/
def function : LogBase → Text
  | common => "log10".toList
  | natural => "log".toList

end LogBase

/-- How a formula is translated. -/
structure Options where
  /-- Faults end the translation.  Otherwise they become warnings and the faulty
  part is worked around. -/
  strict : Bool := true
  plusMinus : Sign := .plus
  logBase : LogBase := .common
  deriving DecidableEq, Repr

namespace Options

/-- The defaults, under which faults end the translation. -/
def standard : Options := {}

/-- The defaults, except that faults become warnings. -/
def lenient : Options := { strict := false }

end Options

end TexCalc
