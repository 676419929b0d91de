import TexCalc.Json.Basic
import TexCalc.Report

/-!
# Printed JSON

Values are printed without blanks.  In strings a quote, a backslash and the control
characters of ASCII are escaped; every other character stands for itself.  What is printed are the
records that stand for issues, warnings and reports.
-/

namespace TexCalc

namespace Json

/-- The hexadecimal digit of a number below sixteen. -/
def hexDigit (number : Nat) : Char :=
  "0123456789abcdef".toList.getD number '0'

/-- A character as it stands in a string. -/
def printChar (c : Char) : Text :=
  match c with
  | '\x22' => ['\\', '\x22']
  | '\\' => ['\\', '\\']
  | '\x08' => ['\\', 'b']
  | '\x0c' => ['\\', 'f']
  | '\n' => ['\\', 'n']
  | '\r' => ['\\', 'r']
  | '\t' => ['\\', 't']
  | c =>
      if c.toNat < 0x20 then
        "\\u00".toList ++ [hexDigit (c.toNat / 16), hexDigit (c.toNat % 16)]
      else
        [c]

/-- A string in quotes.  One without a text is printed as the replacement character. -/
def printString (text? : Option String) : Text :=
  let text := text?.getD "\uFFFD"
  '\x22' :: text.toList.flatMap printChar ++ ['\x22']

mutual

/-- A value on one line. -/
def print : Json → Text
  | null => "null".toList
  | bool true => "true".toList
  | bool false => "false".toList
  | number literal => literal
  | string text? => printString text?
  | array items => '[' :: printItems items ++ [']']
  | object members => '\x7b' :: printMembers members ++ ['\x7d']

def printItems : List Json → Text
  | [] => []
  | [item] => item.print
  | item :: rest => item.print ++ ',' :: printItems rest

def printMembers : List (Option String × Json) → Text
  | [] => []
  | [(name, value)] => printString name ++ ':' :: value.print
  | (name, value) :: rest =>
      printString name ++ ':' :: value.print ++ ',' :: printMembers rest

end

/-- A value on one line, as a string. -/
def compress (json : Json) : String :=
  String.ofList json.print

end Json

/-! ## Issues and reports -/

/-- An issue with its kind, place and wording. -/
def Issue.toJson (issue : Issue) : Json :=
  .record
    [("kind", .ofString issue.kind.identifier),
     ("offset", .ofNat issue.offset),
     ("message", .ofString issue.message)]

/-- A warning with its kind, wording and place. -/
def Warning.toJson (warning : Warning) : Json :=
  .record
    [("kind", .ofString warning.kind.identifier),
     ("message", .ofString warning.message),
     ("offset", .ofOption .ofNat warning.offset)]

/-- A report as the expression and the list of its warnings. -/
def Report.toJson (report : Report) : Json :=
  .record
    [("expression", .ofText report.expression),
     ("warnings", .ofList Warning.toJson report.warnings)]

end TexCalc
