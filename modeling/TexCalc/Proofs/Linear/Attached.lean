import TexCalc.Proofs.Linear.Calls
import TexCalc.Proofs.Linear.Steps
import TexCalc.Proofs.Target.Grammar
import TexCalc.Proofs.Tex.Arguments
import TexCalc.Proofs.Text.Characters

/-!
# Operands that are attached

A letter that stands alone is an operand with the exponent behind it.  A numeral takes the letter
behind it, but no exponent: what follows the letter is left over.
-/

namespace TexCalc

theorem isDecimalDigit_eq_false_of_isAlpha {c : Char} (letter : c.isAlpha = true) :
    isDecimalDigit c = false := by
  have above : ∀ range ∈ digitRanges, 123 ≤ range.1 := by decide
  have code := toNat_of_isAlpha letter
  rw [isDecimalDigit, isDigit_eq_false_of_isAlpha letter, Bool.false_or, inRanges,
    List.any_eq_false]
  intro range isMember
  have := above range isMember
  simp only [Bool.and_eq_true, decide_eq_true_eq]
  omega

namespace Vocabulary

/-- No constant begins at a letter that stands alone. -/
theorem constantAt?_standard_single {c : Char} {rest : Text} (word : c.isAlphanum = true)
    (ends : rest.endsRun Char.isAlphanum = true) : standard.constantAt? (c :: rest) = none := by
  have long : ∀ name ∈ standard.namesOf .constant, 2 ≤ name.text.length := by decide +kernel
  have all : [c].all Char.isAlphanum = true := by simp [word]
  rw [constantAt?, List.findSome?_eq_none_iff]
  intro name isMember
  have length := long name isMember
  have whole := name.after?_append all ends
  rw [if_neg] at whole
  · rw [List.singleton_append] at whole
    rw [whole, Option.map_none]
  · intro same
    rw [same, List.length_singleton] at length
    omega

end Vocabulary

namespace Text

variable {digits rest : Text} {c : Char}

/-! ## Numerals -/

/-- A numeral is a run of digits, perhaps with a point and one more run of digits. -/
theorem eq_or_exists_of_isNumeral (isNumeral : digits.isNumeral = true) :
    digits.all Char.isDigit = true ∨
      ∃ whole fraction : Text, digits = whole ++ '.' :: fraction ∧ whole.all Char.isDigit = true ∧
        fraction ≠ [] ∧ fraction.all Char.isDigit = true := by
  have split : digits.takeWhile Char.isDigit ++ digits.dropWhile Char.isDigit = digits :=
    List.takeWhile_append_dropWhile
  simp only [Text.isNumeral] at isNumeral
  split at isNumeral
  · rename_i none
    left
    rw [none, List.append_nil] at split
    rw [← split]
    exact List.all_takeWhile
  · rename_i d fraction shape
    simp only [Bool.and_eq_true, beq_iff_eq, Bool.not_eq_true', List.isEmpty_eq_false_iff]
      at isNumeral
    obtain ⟨⟨_, rfl⟩, some, all⟩ := isNumeral
    exact .inr ⟨_, fraction, by rw [← shape, split], List.all_takeWhile, some, all⟩

/-- A numeral ends in front of what goes on neither with a digit nor with a point. -/
theorem afterNumeral_of_endsRun (isNumeral : digits.isNumeral = true)
    (ends : rest.endsRun isDecimalDigit = true) (noPoint : rest.head? ≠ some '.') :
    afterNumeral (digits ++ rest) = rest := by
  have decimal {run : Text} (all : run.all Char.isDigit = true) :
      run.all isDecimalDigit = true :=
    List.all_eq_true.2 fun d isMember =>
      isDecimalDigit_of_isDigit (List.all_eq_true.1 all d isMember)
  rcases eq_or_exists_of_isNumeral isNumeral with all | ⟨whole, fraction, rfl, all, some, behind⟩
  · rw [afterNumeral, dropWhile_append_of_endsRun (decimal all) ends]
    split
    · exact absurd rfl noPoint
    · rfl
  · obtain ⟨d, fraction, rfl⟩ := List.exists_cons_of_ne_nil some
    have first : isDecimalDigit d = true :=
      List.all_eq_true.1 (decimal behind) d List.mem_cons_self
    have noDigit : isDecimalDigit '.' = false := by decide
    have point : endsRun isDecimalDigit ('.' :: (d :: fraction ++ rest)) = true := by
      simp [endsRun, noDigit]
    rw [afterNumeral, List.append_assoc, List.cons_append,
      dropWhile_append_of_endsRun (decimal all) point]
    simp only [List.cons_append, first, if_true, List.tail_cons]
    exact dropWhile_append_of_endsRun (decimal behind) ends

/-- A numeral ends in front of a letter. -/
theorem afterNumeral_append (isNumeral : digits.isNumeral = true) (letter : c.isAlpha = true)
    (rest : Text) : afterNumeral (digits ++ c :: rest) = c :: rest := by
  refine afterNumeral_of_endsRun isNumeral ?_ ?_
  · simp [endsRun, isDecimalDigit_eq_false_of_isAlpha letter]
  · rintro same
    cases Option.some.inj same
    cases letter

/-! ## Letters that stand alone -/

section

variable (letter : c.isAlpha = true) (ends : rest.endsRun Char.isAlphanum = true)

include letter ends

theorem callableAt?_standard_letter : Vocabulary.standard.callableAt? (c :: rest) = none := by
  have word (d : Char) (letter : d.isAlpha = true) : d.isAlphanum = true := by
    simp [Char.isAlphanum, letter]
  exact Vocabulary.callableAt?_single (Parked.ne_mark_of_isAlpha letter) (endsRun_mono ends word)

theorem constantAt?_standard_letter : Vocabulary.standard.constantAt? (c :: rest) = none :=
  Vocabulary.constantAt?_standard_single (by simp [Char.isAlphanum, letter]) ends

/-- A numeral takes the letter behind it. -/
theorem afterCoefficient_append (isNumeral : digits.isNumeral = true) :
    afterCoefficient .standard (digits ++ c :: rest) = rest := by
  have word : c.isAlphanum = true := by simp [Char.isAlphanum, letter]
  have stops : afterLetters .standard rest = rest := by
    cases rest with
    | nil => rfl
    | cons d rest =>
        have noLetter : d.isAlpha = false := by
          simp only [endsRun, List.head?_cons, Option.all_some, Char.isAlphanum, Bool.not_eq_true',
            Bool.or_eq_false_iff] at ends
          exact ends.1
        rw [afterLetters, noLetter, Bool.false_and, if_neg Bool.false_ne_true]
  have noConstant := constantAt?_standard_letter letter ends
  simp only [afterCoefficient, afterNumeral_append isNumeral letter,
    skipBlanks_cons (isAsciiBlank_eq_false_of_isAlphanum word), noConstant, List.head?_cons,
    Option.any_some, letter, if_true, afterLetterRun, stops]

end

/-- A letter takes the exponent behind it. -/
theorem afterAtom?_power {script : Text} {exponent : Cut} (letter : c.isAlpha = true)
    (isExponent : exponent? .standard script = some exponent) :
    afterAtom? .standard (c :: '^' :: script) = some exponent.rest := by
  have ends : endsRun Char.isAlphanum ('^' :: script) = true := rfl
  have caret : skipBlanks ('^' :: script) = '^' :: script := skipBlanks_cons (by decide) script
  simp only [afterAtom?, constantAt?_standard_letter letter ends,
    callableAt?_standard_letter letter ends, letter, Option.isNone_none, Bool.and_self, if_true,
    caret, isExponent]

end Text

/-! ## Calls -/

namespace Application

/-- An operand that begins with a numeral is a coefficient and what it multiplies. -/
theorem read?_coefficient {digits : Text} (isNumeral : digits.isNumeral = true) (rest : Text) :
    read? .standard none (digits ++ rest) =
      some (ofPlain (digits ++ rest) (Text.afterCoefficient .standard (digits ++ rest))) := by
  obtain ⟨c, run, rfl, digit, _⟩ := Text.exists_of_isNumeral isNumeral
  have word : c.isAlphanum = true := by simp [Char.isAlphanum, digit]
  have noCall := Vocabulary.standard.callableAt?_eq_none (isAlpha_eq_false_of_isDigit digit)
    (ne_of_isAlphanum word (by decide)) (run ++ rest)
  have noSign : ¬ (c = '-' ∨ c = '+') := by
    rintro (rfl | rfl) <;> cases digit
  rw [List.cons_append, read?_operand_eq, noCall]
  simp only [if_neg noSign, Bracket.ofArgument?_of_isAlphanum word, digit, if_true]

/-- An operand that begins with a letter alone is an atom. -/
theorem read?_letter {c : Char} {rest : Text} (letter : c.isAlpha = true)
    (ends : rest.endsRun Char.isAlphanum = true) :
    read? .standard none (c :: rest) =
      (Text.afterAtom? .standard (c :: rest)).map (ofPlain (c :: rest)) := by
  have word : c.isAlphanum = true := by simp [Char.isAlphanum, letter]
  have noSign : ¬ (c = '-' ∨ c = '+') := by
    rintro (rfl | rfl) <;> cases letter
  rw [read?_operand_eq, Text.callableAt?_standard_letter letter ends]
  simp only [if_neg noSign, Bracket.ofArgument?_of_isAlphanum word,
    isDigit_eq_false_of_isAlpha letter, Bool.false_eq_true, if_false]

/-- Behind blanks a function reads an operand that begins with a letter or a digit. -/
theorem read?_function_of_skipBlanks {vocabulary : Vocabulary} {text rest : Text} {c : Char}
    (start : text.skipBlanks = c :: rest) (word : c.isAlphanum = true)
    (apart : text.head?.any Char.isAlpha = false) (function : Callable) :
    read? vocabulary (some function) text =
      (read? vocabulary none (c :: rest)).map (·.within (.call function none)) := by
  have noScript : c ≠ '^' := ne_of_isAlphanum word (by decide)
  rw [read?_function_eq, start]
  simp only [if_neg noScript, Bracket.ofArgument?_of_isAlphanum word, Option.isSome_none,
    Bool.false_eq_true, if_false, apart, Bool.false_and]

end Application

/-- A function and what is read as its argument. -/
theorem Text.completeCalls_application {vocabulary : Vocabulary} {text after : Text}
    {function : Callable} {application : Application}
    (found : vocabulary.callableAt? text = some (function, after))
    (isRead : Application.read? vocabulary (some function) after = some application) :
    completeCalls vocabulary false text =
      application.layers.foldr Layer.around
          (if application.grouped then (completeCalls vocabulary false application.core).trim
          else application.core) ++
        completeCalls vocabulary false application.rest := by
  cases text with
  | nil => exact absurd (Vocabulary.eq_of_callableAt? found) (by simp [function.text_ne_nil])
  | cons c text =>
      rw [completeCalls_eq, callable?, if_neg Bool.false_ne_true, found]
      simp only [isRead]

end TexCalc
