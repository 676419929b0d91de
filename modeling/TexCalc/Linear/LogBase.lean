import TexCalc.Linear.BareArgument
import TexCalc.Tex.Argument

/-!
# Logarithms with a base

A logarithm with a subscript is replaced, together with its argument, before commands
are renamed.  The bases ten and `e` have target functions of their own; any other base
gives a quotient of two natural logarithms.
-/

namespace TexCalc

namespace Text

/-- What follows `\log_` at the start of a text, with blanks before the subscript. -/
def afterLogMark? (text : Text) : Option Text :=
  (text.dropLead? "\\log".toList).bind fun rest => rest.trimStart.dropLead? ['_']

/-- The target function for a base, if there is one. -/
def logFunction? (base : Text) : Option Text :=
  if base = "10".toList then some "log10".toList
  else if base = "e".toList then some "log".toList
  else none

/-- The logarithm of an argument to a base. -/
def logOf (base argument : Text) : Text :=
  match logFunction? base with
  | some function => ' ' :: function ++ argument.parenthesized
  | none =>
      ' ' :: Text.parenthesized
        ("log".toList ++ argument.parenthesized ++ "/log".toList ++ base.parenthesized)

/-- The logarithm to a base, without an argument. -/
def bareLog (base : Text) : Text :=
  match logFunction? base with
  | some function => ' ' :: function ++ [' ']
  | none =>
      ' ' :: Text.parenthesized ("1/log".toList ++ base.parenthesized) ++ "* log ".toList

theorem length_lt_of_afterLogMark? {text rest : Text}
    (found : text.afterLogMark? = some rest) : rest.length < text.length := by
  obtain ⟨after, isAfter, isRest⟩ := Option.bind_eq_some_iff.1 found
  have dropped := length_eq_of_dropLead? isAfter
  have trimmed := after.length_trimStart_le
  have := length_eq_of_dropLead? isRest
  simp only [List.length_cons] at this
  omega

/-- The text with the logarithms that have a readable base written without
subscripts. -/
def resolveLogBases (vocabulary : Vocabulary) (text : Text) : Text :=
  match text with
  | [] => []
  | c :: rest =>
      match _mark : (afterLogMark? (c :: rest)).bind Argument.read? with
      | none => c :: resolveLogBases vocabulary rest
      | some base =>
          match _argument : base.rest.bareArgument? vocabulary with
          | some argument =>
              logOf base.text.trim argument.text ++
                resolveLogBases vocabulary argument.rest
          | none => bareLog base.text.trim ++ resolveLogBases vocabulary base.rest
termination_by text.length
decreasing_by
  · simp
  all_goals
    obtain ⟨after, isAfter, isBase⟩ := Option.bind_eq_some_iff.1 _mark
    have marked := length_lt_of_afterLogMark? isAfter
    have read := Argument.length_lt_of_read? isBase
  · have := length_le_of_bareArgument? _argument
    omega
  · omega

end Text

end TexCalc
