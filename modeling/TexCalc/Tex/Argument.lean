import TexCalc.Tex.Control

/-!
# Arguments of commands

An argument is a group in braces, a control sequence or a single character.
Closing brackets, scripts and alignment marks are never arguments.  An optional
argument is a group in square brackets.
-/

namespace TexCalc

/-- An argument, and the text after it. -/
structure Argument where
  text : Text
  /-- Whether the argument was written as a group. -/
  grouped : Bool
  rest : Text
  deriving DecidableEq, Repr

namespace Argument

/-- Characters that cannot be an argument. -/
def isRefused (c : Char) : Bool :=
  c == '\x7d' || c == ')' || c == ']' || c == '^' || c == '_' || c == '&'

/-- The argument that a text begins with, ASCII blanks apart. -/
def read? (text : Text) : Option Argument :=
  match text.skipBlanks with
  | [] => none
  | c :: rest =>
      if c = '\x7b' then
        (Bracket.curly.group? rest).map fun group => ⟨group.inside, true, group.rest⟩
      else if c = '\\' then
        (Control.read? rest).map fun control => ⟨control.source, false, control.rest⟩
      else if isRefused c then
        none
      else
        some ⟨[c], false, rest⟩

/-- The optional argument that a text begins with, ASCII blanks apart. -/
def readOptional? (text : Text) : Option Argument :=
  match text.skipBlanks with
  | '[' :: rest =>
      (Bracket.square.group? rest).map fun group => ⟨group.inside, true, group.rest⟩
  | _ => none

/-- Reading an argument takes at least one character. -/
theorem length_lt_of_read? {text : Text} {argument : Argument}
    (found : read? text = some argument) : argument.rest.length < text.length := by
  have skipped := text.length_skipBlanks_le
  simp only [read?] at found
  split at found
  · simp at found
  · rename_i c rest stopped
    rw [stopped, List.length_cons] at skipped
    split at found
    · obtain ⟨group, isGroup, rfl⟩ := Option.map_eq_some_iff.1 found
      have := Bracket.length_lt_of_group? isGroup
      simp only
      omega
    · split at found
      · obtain ⟨control, isControl, rfl⟩ := Option.map_eq_some_iff.1 found
        have := Control.length_lt_of_read? isControl
        simp only
        omega
      · split at found
        · simp at found
        · cases found
          simp only
          omega

end Argument

end TexCalc
