import TexCalc.Check.Faults
import TexCalc.Check.Matching

/-!
# All issues of a formula

Faults of single lexemes, unmatched delimiters and an odd bar are collected and put in
the order of their places.  Everything that can be wrong with a formula is found on its
source, before anything is changed, so that every offset points into the source.
-/

namespace TexCalc

namespace Issue

/-- The issues of a list of lexemes, unordered. -/
def ofLexemes (lexemes : List Lexeme) : List Issue :=
  (Focus.all lexemes).filterMap Focus.issue? ++
    DelimiterEvent.unmatched (DelimiterEvent.ofLexemes lexemes) ++
    (oddBars? lexemes).toList

/-- The issues in the order of their places. -/
def ordered (issues : List Issue) : List Issue :=
  issues.mergeSort fun first second => first.offset ≤ second.offset

end Issue

/-- The issues of a formula in the order of their places. -/
def Text.issues (text : Text) : List Issue :=
  Issue.ordered (Issue.ofLexemes text.lexemes)

end TexCalc
