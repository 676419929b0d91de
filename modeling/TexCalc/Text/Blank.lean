import TexCalc.Text.Basic

/-!
# Blanks

Two classes of blank characters are in use.  Words are separated, and texts are
trimmed, at any character of the Unicode property `White_Space`; between a command
and its argument only the five ASCII blanks are skipped.
-/

namespace TexCalc

/-- Characters with the Unicode property `White_Space`. -/
def isBlank (c : Char) : Bool :=
  let n := c.toNat
  (0x9 ≤ n && n ≤ 0xD) || n == 0x20 || n == 0x85 || n == 0xA0 || n == 0x1680 ||
    (0x2000 ≤ n && n ≤ 0x200A) || n == 0x2028 || n == 0x2029 || n == 0x202F ||
    n == 0x205F || n == 0x3000

/-- Space, tab, line feed, form feed and carriage return.  The vertical tab is a
blank but not an ASCII blank. -/
def isAsciiBlank (c : Char) : Bool :=
  let n := c.toNat
  n == 0x20 || n == 0x9 || n == 0xA || n == 0xC || n == 0xD

theorem isBlank_of_isAsciiBlank {c : Char} (blank : isAsciiBlank c = true) :
    isBlank c = true := by
  simp only [isAsciiBlank, isBlank, Bool.or_eq_true, Bool.and_eq_true, beq_iff_eq,
    decide_eq_true_eq] at *
  omega

namespace Text

/-- The text after its leading ASCII blanks. -/
def skipBlanks (text : Text) : Text :=
  text.dropWhile isAsciiBlank

/-- The text without the blanks at its start. -/
def trimStart (text : Text) : Text :=
  text.dropWhile isBlank

/-- The text without the blanks at its end. -/
def trimEnd (text : Text) : Text :=
  (text.reverse.dropWhile isBlank).reverse

/-- The text without the blanks at its two ends. -/
def trim (text : Text) : Text :=
  text.trimStart.trimEnd

/-- Whether a text holds nothing but blanks. -/
def isAllBlank (text : Text) : Bool :=
  text.all isBlank

theorem length_skipBlanks_le (text : Text) :
    text.skipBlanks.length ≤ text.length :=
  length_dropWhile_le isAsciiBlank text

theorem length_trimStart_le (text : Text) :
    text.trimStart.length ≤ text.length :=
  length_dropWhile_le isBlank text

/-- Skipping blanks stops at a character that is no ASCII blank. -/
theorem not_isAsciiBlank_of_skipBlanks {text rest : Text} {c : Char}
    (stopped : text.skipBlanks = c :: rest) : isAsciiBlank c = false := by
  have holds := List.head?_dropWhile_not isAsciiBlank text
  rw [show text.dropWhile isAsciiBlank = c :: rest from stopped] at holds
  simpa using holds

/-- After one skip there is nothing more to skip. -/
@[simp] theorem skipBlanks_skipBlanks (text : Text) :
    text.skipBlanks.skipBlanks = text.skipBlanks := by
  cases after : text.skipBlanks with
  | nil => rfl
  | cons c rest =>
      simp [skipBlanks, not_isAsciiBlank_of_skipBlanks after]

end Text

end TexCalc
