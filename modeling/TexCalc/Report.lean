import TexCalc.Issue

/-!
# Warnings and reports

A report is the translated expression together with the warnings that arose on the
way.  A warning comes from an issue that did not end the translation, or from a
control sequence that was left over and removed.
-/

namespace TexCalc

/-- Something the reader of an expression should know about it. -/
structure Warning where
  kind : FaultKind
  message : String
  /-- The byte of the formula at which the cause stands, when it is known. -/
  offset : Option Nat := none
  deriving DecidableEq, Repr

namespace Warning

/-- The warning that takes the place of an issue. -/
def ofIssue (issue : Issue) : Warning :=
  ⟨issue.kind, issue.message, some issue.offset⟩

/-- The warning that a control sequence was left over and removed. -/
def removed (name : Text) : Warning :=
  ⟨.unknown, "Unknown command '\\" ++ String.ofList name ++ "' was removed", none⟩

/-- The warning as one line. -/
def line (warning : Warning) : String :=
  let kind := "[" ++ warning.kind.description ++ "] "
  match warning.offset with
  | some offset => kind ++ "byte " ++ toString offset ++ ": " ++ warning.message
  | none => kind ++ warning.message

end Warning

/-- A translated expression and its warnings. -/
structure Report where
  expression : Text
  warnings : List Warning := []
  deriving DecidableEq, Repr

namespace Report

def hasWarnings (report : Report) : Bool :=
  !report.warnings.isEmpty

end Report

end TexCalc
