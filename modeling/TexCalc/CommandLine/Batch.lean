import TexCalc.CommandLine.Arguments
import TexCalc.Json.Report
import TexCalc.Translator

/-!
# Translating a batch of expressions

Each expression gives one line of output, unless it fails and no records are asked for.
A record holds the expression as it was given, its translation or its fault, and the
warnings.  Without records, warnings and failures go to the notes.  A verbose request
has the stages of every translation noted first.
-/

namespace TexCalc.CommandLine

/-- What came of a batch of expressions. -/
structure Batch where
  output : String := ""
  /-- Lines for the person who runs the program. -/
  notes : String := ""
  failed : Bool := false
  deriving DecidableEq, Repr

/-- The record of one expression. -/
def resultRecord (input : String) (result : Except Issue Report) : Json :=
  match result with
  | .ok report =>
      .record
        [("input", .ofString input),
         ("expression", .ofText report.expression),
         ("warnings", .ofList Warning.toJson report.warnings)]
  | .error issue =>
      .record
        [("input", .ofString input),
         ("warnings", .array []),
         ("error", issue.toJson)]

namespace Batch

/-- One batch after another. -/
def append (first second : Batch) : Batch :=
  ⟨first.output ++ second.output, first.notes ++ second.notes, first.failed || second.failed⟩

/-- The lines for one expression and its translation. -/
def ofResult (json : Bool) (input : String) (result : Except Issue Report) : Batch :=
  if json then
    { output := (resultRecord input result).compress ++ "\n",
      failed := !result.isOk }
  else
    match result with
    | .ok report =>
        { output := String.ofList report.expression ++ "\n",
          notes := String.join
            (report.warnings.map fun warning => "warning: " ++ warning.line ++ "\n") }
    | .error issue =>
        { notes := "✗ " ++ input ++ ": " ++ issue.message ++ "\n", failed := true }

/-- Notes on the texts that an expression becomes on its way. -/
def ofStages (options : Options) (input : String) : Batch :=
  let formula : Text := input.toList
  let normal : Text := formula.trim.normal
  let linear : Text := normal.linear .standard options
  { notes :=
      "normal text: " ++ String.ofList normal ++ "\n" ++
        "linear form: " ++ String.ofList linear ++ "\n" }

/-- The lines for one expression of a request. -/
def ofExpression (request : Request) (input : String) : Batch :=
  let result := ofResult request.json input (translateWith request.options input)
  if request.verbose then (ofStages request.options input).append result else result

/-- The lines for the expressions of a request. -/
def ofExpressions (request : Request) (expressions : List String) : Batch :=
  (expressions.map (ofExpression request)).foldl append {}

end Batch

/-- The lines of a text.  A line ends at a line feed, with the carriage return right in
front of it. -/
def linesOf : Text → List Text
  | [] => []
  | c :: rest =>
      match c, linesOf rest with
      | '\n', lines => [] :: lines
      | '\r', [] :: lines =>
          if rest.head? = some '\n' then [] :: lines else ['\r'] :: lines
      | c, [] => [[c]]
      | c, line :: lines => (c :: line) :: lines

/-- The expressions of a text, one on each line that is not blank. -/
def expressionsOf (text : String) : List String :=
  ((linesOf text.toList).filter (!Text.isAllBlank ·)).map String.ofList

end TexCalc.CommandLine
