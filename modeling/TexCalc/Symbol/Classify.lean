import TexCalc.Symbol.Product
import TexCalc.Text.Numeral
import TexCalc.Text.Blank
import TexCalc.Tex.Control
import TexCalc.Vocabulary.Basic

/-!
# Classification

A formula on one line is read from left to right.  Letters and digits up to the end
of their run are a function or a constant when the vocabulary has them as an entry;
otherwise the first letter is a variable of its own and reading goes on behind it.
Blanks end a run and are then dropped.
-/

namespace TexCalc

/-- Digits and decimal points. -/
def isNumeralChar (c : Char) : Bool :=
  c.isDigit || c == '.'

/-- Whether a numeral begins with the character `c`, followed by `rest`. -/
def beginsNumeral (c : Char) (rest : Text) : Bool :=
  c.isDigit || (c == '.' && rest.head?.any Char.isDigit)

namespace Symbol

/-- The symbol of a character that is none of digit, letter, blank and backslash. -/
def ofPunctuation (c : Char) : Symbol :=
  if c = '(' ∨ c = ')' then delimiter c
  else if c ∈ ['+', '-', '*', '/', '^'] then operator c
  else if c = ',' then comma
  else literal c

/-- The symbol of an entry of the vocabulary. -/
def ofEntry (entry : Entry) : Symbol :=
  match entry.kind with
  | .function => function entry.name.text
  | .constant => constant entry.name.text

end Symbol

namespace Text

/-- The symbols of a text, before products are made explicit. -/
def symbols (vocabulary : Vocabulary) : Text → List Symbol
  | [] => []
  | c :: rest =>
      if beginsNumeral c rest then
        .number (c :: rest.takeWhile isNumeralChar) ::
          symbols vocabulary (rest.dropWhile isNumeralChar)
      else if isLetter c then
        match _found : vocabulary.entryAt? (c :: rest) with
        | some (entry, after) => .ofEntry entry :: symbols vocabulary after
        | none => .var c :: symbols vocabulary rest
      else if c = '\\' then
        match _found : Control.read? rest with
        | some control => .leftover control.name :: symbols vocabulary control.rest
        | none => [.leftover []]
      else if isBlank c then
        symbols vocabulary rest
      else
        .ofPunctuation c :: symbols vocabulary rest
termination_by text => text.length
decreasing_by
  · have := length_dropWhile_le isNumeralChar rest
    simp only [List.length_cons]
    omega
  · exact Vocabulary.length_lt_of_entryAt? _found
  · simp
  · have := Control.length_lt_of_read? _found
    simp only [List.length_cons]
    omega
  · simp
  · simp

/-- The symbols of a text, with `*` between the names of values and the names after
them. -/
def classify (vocabulary : Vocabulary) (text : Text) : List Symbol :=
  Symbol.multiply Symbol.joinsNames (text.symbols vocabulary)

end Text

end TexCalc
