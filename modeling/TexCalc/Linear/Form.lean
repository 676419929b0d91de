import TexCalc.Linear.Call
import TexCalc.Linear.Flat
import TexCalc.Linear.Inverse
import TexCalc.Linear.LogBase
import TexCalc.Linear.Power
import TexCalc.Linear.Reciprocal
import TexCalc.Linear.Renaming
import TexCalc.Linear.Structure

/-!
# The linear form

A formula in normal text is brought onto one line in eight steps.  Each step relies on
the ones before it: structures are gone before arguments are read, inverses and bases of
logarithms are read before their commands lose their names, and powers are formed when
every function has its argument.  Blanks survive all steps as the borders of words.
-/

namespace TexCalc

namespace Text

/-- The linear form of a formula in normal text. -/
def linear (vocabulary : Vocabulary) (options : Options) (text : Text) : Text :=
  let resolved := text.resolveStructures
  let inverted := resolved.resolveInverses vocabulary
  let based := inverted.resolveLogBases vocabulary
  let renamed := based.renameCommands options
  let called := renamed.attachArguments vocabulary
  let expanded := called.expandParked
  let raised := expanded.resolveExponents vocabulary
  raised.flatten

end Text

end TexCalc
