import TexCalc.Text.Bracket
import TexCalc.Text.Numeral
import TexCalc.Tex.Command
import TexCalc.Tex.Control
import TexCalc.Vocabulary.Basic

/-!
# Operands

How far an operand written without brackets goes.  A letter run ends before a function
name, a coefficient takes the letters or the constant after it, and an atom is a
constant or one letter with the exponent it may have.  All of these are told by the
text that follows the operand.
-/

namespace TexCalc

/-- A text that was taken from the front of another one, and what follows it there. -/
structure Cut where
  text : Text
  rest : Text
  deriving DecidableEq, Repr

namespace Cut

/-- The part of `text` in front of its ending `rest`. -/
def upTo (text rest : Text) : Cut :=
  ⟨text.before rest, rest⟩

end Cut

namespace Text

/-- What follows the letters of a run that has begun.  The run ends before a
callable. -/
def afterLetters (vocabulary : Vocabulary) : Text → Text
  | [] => []
  | c :: rest =>
      if c.isAlpha && (vocabulary.callableAt? (c :: rest)).isNone then
        afterLetters vocabulary rest
      else
        c :: rest

/-- What follows a run of letters.  Its first letter belongs to it in any case. -/
def afterLetterRun (vocabulary : Vocabulary) : Text → Text
  | [] => []
  | c :: rest => if c.isAlpha then afterLetters vocabulary rest else c :: rest

/-- What follows the letters that touch a function name: a constant, or a run. -/
def afterTouching (vocabulary : Vocabulary) (text : Text) : Text :=
  match vocabulary.constantAt? text with
  | some (_, after) => after
  | none => text.afterLetterRun vocabulary

/-- What follows a decimal numeral. -/
def afterNumeral (text : Text) : Text :=
  let rest := text.dropWhile isDecimalDigit
  match rest with
  | '.' :: digit :: _ =>
      if isDecimalDigit digit then rest.tail.dropWhile isDecimalDigit else rest
  | _ => rest

/-- What follows a numeral and the constant or the letters that it multiplies. -/
def afterCoefficient (vocabulary : Vocabulary) (text : Text) : Text :=
  let rest := text.afterNumeral
  let factor := rest.skipBlanks
  match vocabulary.constantAt? factor with
  | some (_, after) => after
  | none =>
      if factor.head?.any Char.isAlpha then factor.afterLetterRun vocabulary else rest

/-- The exponent that a text begins with, ASCII blanks apart: a group, a constant, or
one letter or digit.  A group becomes a group in parentheses. -/
def exponent? (vocabulary : Vocabulary) (text : Text) : Option Cut :=
  match text.skipBlanks with
  | [] => none
  | c :: rest =>
      match Bracket.ofArgument? c with
      | some bracket =>
          (bracket.group? rest).map fun group => ⟨group.inside.wrap, group.rest⟩
      | none =>
          match vocabulary.constantAt? (c :: rest) with
          | some (name, after) => some ⟨name.text, after⟩
          | none => if c.isAlphanum then some ⟨[c], rest⟩ else none

/-- What follows the exponent of a function, where it has one.  There is no answer when
a `^` has no exponent. -/
def afterExponent? (vocabulary : Vocabulary) (text : Text) : Option Text :=
  match text.skipBlanks with
  | '^' :: script => (exponent? vocabulary script).map Cut.rest
  | operand => some operand

/-- What follows an atom: a constant, or a letter that begins no callable, with the
exponent written after it. -/
def afterAtom? (vocabulary : Vocabulary) (text : Text) : Option Text :=
  match vocabulary.constantAt? text with
  | some (_, after) => some after
  | none =>
      match text with
      | [] => none
      | c :: rest =>
          if c.isAlpha && (vocabulary.callableAt? text).isNone then
            match Text.skipBlanks rest with
            | '^' :: script =>
                match exponent? vocabulary script with
                | some exponent => some exponent.rest
                | none => some rest
            | _ => some rest
          else
            none

/-! ## Operands shorten the text -/

theorem length_afterLetters_le (vocabulary : Vocabulary) (text : Text) :
    (text.afterLetters vocabulary).length ≤ text.length := by
  induction text with
  | nil => simp [afterLetters]
  | cons c rest ih =>
      simp only [afterLetters, List.length_cons]
      split
      · omega
      · simp

theorem length_afterLetterRun_le (vocabulary : Vocabulary) (text : Text) :
    (text.afterLetterRun vocabulary).length ≤ text.length := by
  cases text with
  | nil => simp [afterLetterRun]
  | cons c rest =>
      have := length_afterLetters_le vocabulary rest
      simp only [afterLetterRun, List.length_cons]
      split
      · omega
      · simp

theorem length_afterTouching_le (vocabulary : Vocabulary) (text : Text) :
    (text.afterTouching vocabulary).length ≤ text.length := by
  simp only [afterTouching]
  split
  · rename_i isConstant
    exact Nat.le_of_lt (Vocabulary.length_lt_of_constantAt? isConstant)
  · exact length_afterLetterRun_le vocabulary text

theorem length_afterNumeral_le (text : Text) :
    text.afterNumeral.length ≤ text.length := by
  have integral := length_dropWhile_le isDecimalDigit text
  have fractional :=
    length_dropWhile_le isDecimalDigit (text.dropWhile isDecimalDigit).tail
  rw [List.length_tail] at fractional
  simp only [afterNumeral]
  split
  · split <;> omega
  · exact integral

theorem length_afterCoefficient_le (vocabulary : Vocabulary) (text : Text) :
    (text.afterCoefficient vocabulary).length ≤ text.length := by
  have numeral := text.length_afterNumeral_le
  have skipped := text.afterNumeral.length_skipBlanks_le
  have letters := length_afterLetterRun_le vocabulary text.afterNumeral.skipBlanks
  simp only [afterCoefficient]
  split
  · rename_i found
    have := Vocabulary.length_lt_of_constantAt? found
    omega
  · split <;> omega

theorem length_lt_of_exponent? {vocabulary : Vocabulary} {text : Text} {exponent : Cut}
    (found : text.exponent? vocabulary = some exponent) :
    exponent.rest.length < text.length := by
  have skipped := text.length_skipBlanks_le
  simp only [exponent?] at found
  split at found
  · cases found
  · rename_i c rest stopped
    rw [stopped, List.length_cons] at skipped
    split at found
    · obtain ⟨group, isGroup, rfl⟩ := Option.map_eq_some_iff.1 found
      have := Bracket.length_lt_of_group? isGroup
      simp only
      omega
    · split at found
      · rename_i isConstant
        have := Vocabulary.length_lt_of_constantAt? isConstant
        cases found
        simp only [List.length_cons] at *
        omega
      · split at found
        · cases found
          simp only
          omega
        · cases found

theorem length_le_of_afterExponent? {vocabulary : Vocabulary} {text rest : Text}
    (found : text.afterExponent? vocabulary = some rest) : rest.length ≤ text.length := by
  have skipped := text.length_skipBlanks_le
  simp only [afterExponent?] at found
  split at found
  · rename_i script isScript
    rw [isScript, List.length_cons] at skipped
    obtain ⟨exponent, isExponent, rfl⟩ := Option.map_eq_some_iff.1 found
    have := length_lt_of_exponent? isExponent
    omega
  · cases found
    exact skipped

theorem length_lt_of_afterAtom? {vocabulary : Vocabulary} {text rest : Text}
    (found : text.afterAtom? vocabulary = some rest) : rest.length < text.length := by
  simp only [afterAtom?] at found
  split at found
  · rename_i isConstant
    have := Vocabulary.length_lt_of_constantAt? isConstant
    cases found
    exact this
  · split at found
    · cases found
    · rename_i c after _
      have skipped := length_skipBlanks_le after
      split at found
      · split at found
        · rename_i script isScript
          rw [isScript, List.length_cons] at skipped
          split at found
          · rename_i isExponent
            have := length_lt_of_exponent? isExponent
            cases found
            simp only [List.length_cons]
            omega
          · cases found
            simp
        · cases found
          simp
      · cases found

end Text

end TexCalc
