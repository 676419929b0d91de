import TexCalc.Text.Blank

/-!
# Flat text

The last braces and square brackets become parentheses, two groups in braces next to
each other become a product, and a run of blanks becomes one space.
-/

namespace TexCalc

namespace Text

/-- The text with a product sign between groups in braces, and the braces there turned
into parentheses. -/
def joinGroups (text : Text) : Text :=
  match text with
  | [] => []
  | c :: rest =>
      if c = '\x7d' then
        match _next : trimStart rest with
        | '\x7b' :: after => ")*(".toList ++ joinGroups after
        | _ => c :: joinGroups rest
      else
        c :: joinGroups rest
termination_by text.length
decreasing_by
  · have trimmed := length_trimStart_le rest
    rw [_next, List.length_cons] at trimmed
    simp only [List.length_cons]
    omega
  · simp
  · simp

/-- A brace or square bracket as a parenthesis. -/
def flatBracket (c : Char) : Char :=
  if c = '\x7b' ∨ c = '[' then '('
  else if c = '\x7d' ∨ c = ']' then ')'
  else c

/-- The text with every run of blanks as one space, `isBlankBefore` telling whether a
blank stands in front of it. -/
def collapseAfter (isBlankBefore : Bool) : Text → Text
  | [] => []
  | c :: rest =>
      if isBlank c then
        if isBlankBefore then collapseAfter true rest else ' ' :: collapseAfter true rest
      else
        c :: collapseAfter false rest

/-- The text with every run of blanks as one space. -/
def collapseBlanks (text : Text) : Text :=
  text.collapseAfter false

/-- The text without braces, square brackets and runs of blanks. -/
def flatten (text : Text) : Text :=
  (collapseBlanks (text.joinGroups.map flatBracket)).trim

end Text

end TexCalc
