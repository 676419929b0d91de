import TexCalc.Tex.Delimiter

/-!
# Issues

What can be wrong with a formula.  A fault names its cause; its wording is given in
one place, by `Issue.message`.  An issue is a fault at some byte of the formula.
-/

namespace TexCalc

/-- The four kinds of fault. -/
inductive FaultKind where
  | malformed
  | unknown
  | exponent
  | unsupported
  deriving DecidableEq, Repr

namespace FaultKind

/-- The kind in words. -/
def description : FaultKind → String
  | malformed => "malformed delimiter"
  | unknown => "unknown control sequence"
  | exponent => "ambiguous exponent target"
  | unsupported => "unsupported notation"

/-- The kind as an identifier in records. -/
def identifier : FaultKind → String
  | malformed => "malformed-delimiter"
  | unknown => "unknown-control-sequence"
  | exponent => "ambiguous-exponent-target"
  | unsupported => "unsupported-notation"

/-- The kind with the given identifier. -/
def ofIdentifier? (identifier : String) : Option FaultKind :=
  [malformed, unknown, exponent, unsupported].find? (·.identifier == identifier)

end FaultKind

/-- Delimiters and arguments that are not as they should be. -/
inductive Malformation where
  | unclosed (opened : Delimiter)
  /-- A closing delimiter, as it is written, without a partner. -/
  | unopened (closer : Text)
  /-- A `\left` or `\right` without a delimiter after it. -/
  | unsized (side : Side)
  | emptyArgument (command : Text)
  | missingArgument (command : Text)
  | missingArguments (command : Text)
  | emptyIndex
  | missingBase
  | oddBars
  /-- A fault described by someone else, near the given fragment. -/
  | described (fragment message : Text)
  deriving DecidableEq, Repr

namespace Malformation

/-- The part of the formula to which attention is drawn. -/
def fragment : Malformation → Text
  | unclosed opened => opened.opener
  | unopened closer => closer
  | unsized side => '\\' :: side.word
  | emptyArgument command => '\\' :: command
  | missingArgument command => '\\' :: command
  | missingArguments command => '\\' :: command
  | emptyIndex => "\\sqrt".toList
  | missingBase => "\\log_".toList
  | oddBars => ['|']
  | described fragment _ => fragment

/-- A text as it is quoted in a message. -/
def quoted (text : Text) : String :=
  "`" ++ String.ofList text ++ "`"

/-- What is wrong, in words. -/
def reason (malformation : Malformation) : String :=
  match malformation with
  | unclosed _ => quoted malformation.fragment ++ " is never closed"
  | unopened _ => quoted malformation.fragment ++ " closes nothing"
  | unsized _ => quoted malformation.fragment ++ " has no delimiter"
  | emptyArgument _ => quoted malformation.fragment ++ " has an empty argument"
  | missingArgument _ => quoted malformation.fragment ++ " expects an argument"
  | missingArguments _ => quoted malformation.fragment ++ " expects two arguments"
  | emptyIndex => quoted malformation.fragment ++ " has an empty index"
  | missingBase => quoted malformation.fragment ++ " expects a base"
  | oddBars => "odd number of `|` bars"
  | described _ message => String.ofList message

end Malformation

/-- What is wrong at some place of a formula. -/
inductive Fault where
  | malformed (malformation : Malformation)
  /-- A control sequence without a meaning. -/
  | unknown (name : Text)
  /-- A `^` without something to raise or without an exponent. -/
  | exponent (fragment : Text)
  /-- Something that the target language cannot express. -/
  | unsupported (fragment : Text)
  deriving DecidableEq, Repr

namespace Fault

def kind : Fault → FaultKind
  | malformed _ => .malformed
  | unknown _ => .unknown
  | exponent _ => .exponent
  | unsupported _ => .unsupported

end Fault

/-- A fault and the byte of the formula at which it stands. -/
structure Issue where
  offset : Nat
  fault : Fault
  deriving DecidableEq, Repr

namespace Issue

def kind (issue : Issue) : FaultKind :=
  issue.fault.kind

/-- The same issue in a formula that has `bytes` more bytes in front. -/
def shift (issue : Issue) (bytes : Nat) : Issue :=
  { issue with offset := issue.offset + bytes }

/-- The issue in words. -/
def message (issue : Issue) : String :=
  let place := " at byte " ++ toString issue.offset
  match issue.fault with
  | .malformed malformation =>
      issue.kind.description ++ place ++ ": " ++ malformation.reason ++
        " (near " ++ Malformation.quoted malformation.fragment ++ ")"
  | .unknown name =>
      issue.kind.description ++ " " ++ Malformation.quoted ('\\' :: name) ++ place
  | .exponent fragment =>
      issue.kind.description ++ place ++ " (near " ++ Malformation.quoted fragment ++ ")"
  | .unsupported fragment =>
      issue.kind.description ++ " " ++ Malformation.quoted fragment ++ place

@[simp] theorem kind_shift (issue : Issue) (bytes : Nat) :
    (issue.shift bytes).kind = issue.kind :=
  rfl

@[simp] theorem offset_shift (issue : Issue) (bytes : Nat) :
    (issue.shift bytes).offset = issue.offset + bytes :=
  rfl

end Issue

end TexCalc
