import TexCalc.Linear.Power
import TexCalc.Symbol.Classify

/-!
# Classes of characters

Letters, digits and blanks are apart from each other.
-/

namespace TexCalc

/-- The code points of the ASCII letters. -/
theorem toNat_of_isAlpha {c : Char} (letter : c.isAlpha = true) :
    (65 ≤ c.toNat ∧ c.toNat ≤ 90) ∨ (97 ≤ c.toNat ∧ c.toNat ≤ 122) := by
  delta Char.isAlpha Char.isUpper Char.isLower at letter
  simpa [UInt32.le_iff_toNat_le] using letter

/-- The code points of the digits. -/
theorem toNat_of_isDigit {c : Char} (digit : c.isDigit = true) :
    48 ≤ c.toNat ∧ c.toNat ≤ 57 := by
  simpa [Char.isDigit, UInt32.le_iff_toNat_le] using digit

/-- No ASCII letter is a digit. -/
theorem isDigit_eq_false_of_isAlpha {c : Char} (letter : c.isAlpha = true) :
    c.isDigit = false := by
  cases digit : c.isDigit with
  | false => rfl
  | true =>
      have range := toNat_of_isDigit digit
      have ranges := toNat_of_isAlpha letter
      omega

/-- No digit is an ASCII letter. -/
theorem isAlpha_eq_false_of_isDigit {c : Char} (digit : c.isDigit = true) :
    c.isAlpha = false := by
  cases letter : c.isAlpha with
  | false => rfl
  | true =>
      rw [isDigit_eq_false_of_isAlpha letter] at digit
      cases digit

/-- The code points of all blanks. -/
def blankCodes : List Nat :=
  [0x9, 0xA, 0xB, 0xC, 0xD, 0x20, 0x85, 0xA0, 0x1680, 0x2000, 0x2001, 0x2002, 0x2003, 0x2004,
    0x2005, 0x2006, 0x2007, 0x2008, 0x2009, 0x200A, 0x2028, 0x2029, 0x202F, 0x205F, 0x3000]

theorem mem_blankCodes {c : Char} (blank : isBlank c = true) : c.toNat ∈ blankCodes := by
  simp only [isBlank, Bool.or_eq_true, Bool.and_eq_true, beq_iff_eq, decide_eq_true_eq] at blank
  simp only [blankCodes, List.mem_cons, List.not_mem_nil, or_false]
  omega

/-- No ASCII letter or digit is a blank. -/
theorem isBlank_eq_false_of_isAlphanum {c : Char} (word : c.isAlphanum = true) :
    isBlank c = false := by
  cases blank : isBlank c with
  | false => rfl
  | true =>
      have isCode := mem_blankCodes blank
      simp only [blankCodes, List.mem_cons, List.not_mem_nil, or_false] at isCode
      rw [Char.isAlphanum, Bool.or_eq_true] at word
      rcases word with letter | digit
      · have ranges := toNat_of_isAlpha letter
        omega
      · have range := toNat_of_isDigit digit
        omega

theorem isAlpha_eq_false_of_isBlank {c : Char} (blank : isBlank c = true) :
    c.isAlpha = false := by
  cases letter : c.isAlpha with
  | false => rfl
  | true =>
      have visible : isBlank c = false :=
        isBlank_eq_false_of_isAlphanum (by simp [Char.isAlphanum, letter])
      rw [blank] at visible
      cases visible

theorem inRanges_eq_false_of_isBlank {ranges : List (Nat × Nat)}
    (apart : ranges.all (fun range => blankCodes.all fun code =>
      Nat.blt range.2 code || Nat.blt code range.1) = true)
    {c : Char} (blank : isBlank c = true) : inRanges ranges c.toNat = false := by
  rw [inRanges, List.any_eq_false]
  intro range isMember within
  have outside := List.all_eq_true.1 (List.all_eq_true.1 apart range isMember) _
    (mem_blankCodes blank)
  simp only [Bool.or_eq_true, Nat.blt_eq, Bool.and_eq_true, decide_eq_true_eq] at outside within
  omega

/-- No blank is a letter. -/
theorem isLetter_eq_false_of_isBlank {c : Char} (blank : isBlank c = true) :
    isLetter c = false := by
  rw [isLetter, isAlpha_eq_false_of_isBlank blank,
    inRanges_eq_false_of_isBlank (by decide +kernel) blank]
  rfl

/-- No blank is a decimal digit. -/
theorem isDecimalDigit_eq_false_of_isBlank {c : Char} (blank : isBlank c = true) :
    isDecimalDigit c = false := by
  have noDigit : c.isDigit = false := by
    cases digit : c.isDigit with
    | false => rfl
    | true =>
        have visible : isBlank c = false :=
          isBlank_eq_false_of_isAlphanum (by simp [Char.isAlphanum, digit])
        rw [blank] at visible
        cases visible
  rw [isDecimalDigit, noDigit, inRanges_eq_false_of_isBlank (by decide +kernel) blank]
  rfl

theorem isBlank_eq_false_of_isBaseChar {c : Char} (base : isBaseChar c = true) :
    isBlank c = false := by
  simp only [isBaseChar, Bool.or_eq_true, beq_iff_eq] at base
  rcases base with word | rfl
  · exact isBlank_eq_false_of_isAlphanum word
  · decide

theorem isAsciiBlank_eq_false_of_isAlphanum {c : Char} (word : c.isAlphanum = true) :
    isAsciiBlank c = false := by
  cases blank : isAsciiBlank c with
  | false => rfl
  | true =>
      have visible := isBlank_eq_false_of_isAlphanum word
      rw [isBlank_of_isAsciiBlank blank] at visible
      cases visible

theorem ne_of_isAlphanum {c other : Char} (word : c.isAlphanum = true)
    (noWord : other.isAlphanum = false) : c ≠ other := by
  rintro rfl
  rw [word] at noWord
  cases noWord

/-- Letters and digits open no group. -/
theorem Bracket.ofArgument?_of_isAlphanum {c : Char} (word : c.isAlphanum = true) :
    ofArgument? c = none := by
  rw [ofArgument?, List.find?_eq_none]
  intro bracket _ same
  rw [← eq_of_beq same] at word
  cases bracket <;> cases word

theorem isBaseChar_of_isAlphanum (c : Char) (word : c.isAlphanum = true) :
    isBaseChar c = true := by
  rw [isBaseChar, word]
  rfl

theorem Text.all_isBaseChar {text : Text} (all : text.all Char.isAlphanum = true) :
    text.all isBaseChar = true :=
  List.all_eq_true.2 fun c isMember =>
    isBaseChar_of_isAlphanum c (List.all_eq_true.1 all c isMember)

theorem isBaseChar_of_isAlpha (c : Char) (letter : c.isAlpha = true) : isBaseChar c = true := by
  simp [isBaseChar, Char.isAlphanum, letter]

/-! ## Numerals -/

theorem isBaseChar_of_isNumeralChar (c : Char) (numeral : isNumeralChar c = true) :
    isBaseChar c = true := by
  simp only [isNumeralChar, isBaseChar, Char.isAlphanum, Bool.or_eq_true] at numeral ⊢
  exact numeral.imp_left .inr

theorem Text.all_isNumeralChar_of_isDigit {digits : Text} (all : digits.all Char.isDigit = true) :
    digits.all isNumeralChar = true := by
  refine List.all_eq_true.2 fun c isMember => ?_
  rw [isNumeralChar, List.all_eq_true.1 all c isMember, Bool.true_or]

theorem isNumeralChar_of_beginsNumeral {c : Char} {rest : Text}
    (begins : beginsNumeral c rest = true) : isNumeralChar c = true := by
  simp only [beginsNumeral, isNumeralChar, Bool.or_eq_true, Bool.and_eq_true] at begins ⊢
  exact begins.imp_right And.left

theorem not_beginsNumeral_of_isAlpha {c : Char} (letter : c.isAlpha = true) (rest : Text) :
    ¬ beginsNumeral c rest = true := by
  have noPoint : c ≠ '.' := by
    rintro rfl
    cases letter
  simp [beginsNumeral, isDigit_eq_false_of_isAlpha letter, noPoint]

end TexCalc
