import TexCalc.Check.Issues
import TexCalc.Linear.Form
import TexCalc.Symbol.Classify
import TexCalc.Symbol.Expression
import TexCalc.Tex.Normal

/-!
# Translation

A formula is checked, brought into normal text and then onto one line, classified, and
printed with all products made explicit.  In strict mode the first issue ends the
translation; otherwise every issue becomes a warning and the formula is translated as
far as possible.  Offsets count from the start of the formula as it was given, blanks in
front of it included.
-/

namespace TexCalc

/-- Options and vocabulary of a translation. -/
structure Translator where
  options : Options := .standard
  vocabulary : Vocabulary := .standard
  deriving DecidableEq, Repr

namespace Translator

/-- The symbols of a formula, whatever is wrong with it. -/
def symbols (translator : Translator) (formula : Text) : List Symbol :=
  (formula.normal.linear translator.vocabulary translator.options).classify
    translator.vocabulary

/-- The issues of a formula, counted from the blanks in front of it. -/
def issues (formula : Text) : List Issue :=
  let lead : Text := formula.takeWhile isBlank
  formula.trim.issues.map (·.shift lead.byteLength)

/-- The report on a formula that is translated in spite of the given issues. -/
def reportDespite (translator : Translator) (formula : Text) (issues : List Issue) :
    Report :=
  let finished := Report.ofSymbols (translator.symbols formula.trim)
  { finished with warnings := issues.map Warning.ofIssue ++ finished.warnings }

/-- The translation of a formula, or the issue that ends it. -/
def report (translator : Translator) (formula : Text) : Except Issue Report :=
  if translator.options.strict then
    match issues formula with
    | issue :: _ => .error issue
    | [] => .ok (translator.reportDespite formula [])
  else
    .ok (translator.reportDespite formula (issues formula))

/-- The expression for a formula, without its warnings. -/
def translate (translator : Translator) (formula : String) : Except Issue String :=
  (translator.report formula.toList).map fun report => String.ofList report.expression

end Translator

/-- The expression for a formula in strict mode with the standard vocabulary. -/
def translate (formula : String) : Except Issue String :=
  Translator.translate {} formula

/-- The expression for a formula, as far as it can be made out. -/
def translateLenient (formula : String) : String :=
  match Translator.translate { options := .lenient } formula with
  | .ok expression => expression
  | .error _ => ""

/-- The expression for a formula under the given options, with its warnings. -/
def translateWith (options : Options) (formula : String) : Except Issue Report :=
  Translator.report { options } formula.toList

end TexCalc
