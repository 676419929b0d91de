import TexCalc.Proofs.Bracketed.Accepted
import TexCalc.Proofs.Polynomial.Formula
import TexCalc.Proofs.Words.Accepted
import TexCalc.Symbol.Basic

/-!
# Functions of powers

A function stands in front of the power of a letter, and between the two there may be a
coefficient.  The power is meant to be the argument of the function in either case.  It is read so
when there is no coefficient; a coefficient takes nothing but the letter with it, so that the
exponent is left behind the call.

There is no issue in a function of a power: the function has an argument behind the blank, and the
exponent stands behind a letter.  The formula is its own normal text.
-/

namespace TexCalc

/-- An exponent: a digit, or a numeral in braces. -/
inductive Script where
  | digit (symbol : Digit)
  | braced (digits : Numeral)
  deriving DecidableEq, Repr

/-- A function of the power of a letter, perhaps with a coefficient.  Euler's number is no
variable. -/
structure PoweredCall where
  function : Bracketed.Function
  coefficient? : Option Numeral
  base : Letter
  exponent : Script
  isVariable : base.char ≠ 'e'
  deriving Repr

namespace Script

/-- The exponent as it is written. -/
def latex : Script → Text
  | digit symbol => [symbol.char]
  | braced digits => digits.text.braced

/-- The exponent as it is printed. -/
def printed : Script → Text
  | digit symbol => [symbol.char]
  | braced digits => digits.text.parenthesized

def symbols : Script → List Symbol
  | digit symbol => [.number [symbol.char]]
  | braced digits => [.delimiter '(', .number digits.text, .delimiter ')']

def meaning : Script → Expression
  | digit symbol => .number [symbol.char]
  | braced digits => .number digits.text

end Script

namespace PoweredCall

/-- The coefficient and the letter, which are one run of characters. -/
def run (call : PoweredCall) : Text :=
  call.coefficient?.elim [call.base.char] fun digits => digits.text ++ [call.base.char]

/-- What stands behind the function. -/
def operand (call : PoweredCall) : Text :=
  call.run ++ '^' :: call.exponent.latex

/-- The formula as it is written. -/
def latex (call : PoweredCall) : Text :=
  '\\' :: (call.function.name ++ ' ' :: call.operand)

/-- The letter with its exponent. -/
def power (call : PoweredCall) : Expression :=
  .binary .power (.name [call.base.char]) call.exponent.meaning

/-- What the formula means: the exponent belongs to the letter. -/
def meaning (call : PoweredCall) : Expression :=
  call.function.applied <| call.coefficient?.elim call.power fun digits =>
    .binary .times (.number digits.text) call.power

/-- What the formula is read as: behind a coefficient the exponent belongs to the call. -/
def reading (call : PoweredCall) : Expression :=
  match call.coefficient? with
  | none => call.function.applied call.power
  | some digits =>
      .binary .power
        (call.function.applied (.binary .times (.number digits.text) (.name [call.base.char])))
        call.exponent.meaning

/-- The argument that is read for the function, and what is left behind it. -/
def attached (call : PoweredCall) : Cut :=
  match call.coefficient? with
  | none => ⟨call.operand, []⟩
  | some _ => ⟨call.run, '^' :: call.exponent.latex⟩

end PoweredCall

/-! ## Lexemes of a power -/

namespace Lexeme

/-- A letter or digit behind a blank can be the argument of a function. -/
theorem lacksArgument_eq_false_of_char {gap first : Lexeme} {c : Char} (blank : gap.token = .blank)
    (isChar : first.token = .char c) (word : c.isAlphanum = true) (rest : List Lexeme) :
    lacksArgument (gap :: first :: rest) = false := by
  have visible : first.token.isPassedOver = false := by
    have noTie : (first.token == .tie) = false := by
      rw [isChar]
      rfl
    rw [Token.isPassedOver, noTie, isChar]
    rfl
  have operand : fromOperand (gap :: first :: rest) = first :: rest := by
    have passed : gap.token.isPassedOver = true := by
      rw [blank]
      rfl
    rw [fromOperand, List.dropWhile_cons_of_pos (by simp [passed]),
      List.dropWhile_cons_of_neg (by simp [visible])]
  have base : fromBase? (gap :: first :: rest) = some (first :: rest) := by
    have noScript : first.token.isScript = false := by
      rw [isChar]
      rfl
    rw [fromBase?]
    split
    · rename_i none
      rw [operand] at none
      cases none
    · rename_i same
      rw [operand] at same
      cases same
      rw [if_neg (by simp [noScript])]
  have noSign : first.token.isSign = false := by
    have plus : c ≠ '+' := ne_of_isAlphanum word (by decide)
    have minus : c ≠ '-' := ne_of_isAlphanum word (by decide)
    rw [isChar]
    simp [Token.isSign, Token.command?, plus, minus]
  have begins : beginsArgument (first :: rest) = true := by
    simp only [beginsArgument, isChar, isWordChar_of_isAlphanum word, Bool.true_or]
  simp only [lacksArgument, base, noSign, begins, Bool.false_eq_true, if_false, Bool.not_true]

end Lexeme

theorem Token.isOrdinary_of_isBaseChar {c : Char} (base : isBaseChar c = true) :
    isOrdinary c = true := by
  simp only [isBaseChar, Bool.or_eq_true, beq_iff_eq] at base
  rcases base with word | rfl
  · simp [isOrdinary, word]
  · decide

namespace Script

theorem all_isBaseChar_digit (symbol : Digit) : [symbol.char].all isBaseChar = true := by
  simp [isBaseChar, symbol.isAlphanum]

/-- An exponent can stand behind a `^`. -/
theorem beginsExponent_latex (exponent : Script) :
    Text.beginsExponent exponent.latex = true := by
  cases exponent with
  | digit symbol =>
      have word := symbol.isAlphanum
      obtain ⟨c, _⟩ := symbol
      change Text.beginsExponent [c] = true
      unfold Text.beginsExponent
      split
      · rename_i same
        cases same
      · rename_i same
        cases same
        exact word
      · rename_i same
        cases same
  | braced digits =>
      have braced := Bracketed.beginsExponent_latex (.numeral digits) []
      rwa [List.append_nil] at braced

theorem isFaultless_latex (exponent : Script) :
    Text.IsFaultless [] (some .superscript) exponent.latex := by
  cases exponent with
  | digit symbol => exact .char (by simp [Token.isOrdinary, symbol.isAlphanum]) .nil
  | braced digits =>
      have inside : Text.IsFaultless [.brace] (some .openBrace) (digits.text ++ ['\x7d']) :=
        Bracketed.isFaultless_latex (.numeral digits) rfl fun _ => .closing .curly .nil
      have whole : Text.IsFaultless [] (some .superscript) (digits.text.braced ++ []) :=
        .braced inside
      rwa [List.append_nil] at whole

theorem isTight_latex (exponent : Script) : exponent.latex.IsTight := by
  cases exponent with
  | digit symbol => exact .of_baseChars (by simp [latex]) (all_isBaseChar_digit symbol)
  | braced digits => exact .braced _

theorem normalized_latex (exponent : Script) : exponent.latex.normalized = exponent.latex := by
  cases exponent with
  | digit symbol =>
      have whole := Bracketed.normalized_baseChars (all_isBaseChar_digit symbol) []
      rwa [Text.normalized_nil, List.append_nil] at whole
  | braced digits =>
      have closer := Bracketed.normalized_mark (c := '\x7d') (by decide) []
      rw [latex, Text.braced, Bracketed.normalized_mark (by decide),
        Bracketed.normalized_baseChars digits.all_isBaseChar, closer, Text.normalized_nil]

end Script

namespace PoweredCall

variable (call : PoweredCall)

theorem run_ne_nil : call.run ≠ [] := by
  rw [run]
  cases call.coefficient? <;> simp

theorem all_isBaseChar_run : call.run.all isBaseChar = true := by
  have letter : [call.base.char].all isBaseChar = true := by simp [call.base.isBaseChar]
  rw [run]
  cases call.coefficient? with
  | none => exact letter
  | some digits =>
      rw [Option.elim_some, List.all_append, digits.all_isBaseChar, letter]
      rfl

/-- A run begins with a letter or a digit. -/
theorem exists_run_eq : ∃ c rest, call.run = c :: rest ∧ c.isAlphanum = true := by
  rw [run]
  cases call.coefficient? with
  | none => exact ⟨_, _, rfl, call.base.isAlphanum⟩
  | some digits =>
      obtain ⟨c, rest, same, digit, _⟩ := Text.exists_of_isNumeral digits.isNumeral
      refine ⟨c, rest ++ [call.base.char], ?_, by simp [Char.isAlphanum, digit]⟩
      rw [Option.elim_some, same, List.cons_append]

theorem isTight_run : call.run.IsTight :=
  .of_baseChars call.run_ne_nil call.all_isBaseChar_run

theorem isTight_operand : call.operand.IsTight :=
  call.isTight_run.append_cons call.exponent.isTight_latex

theorem isTight_latex : call.latex.IsTight := by
  have name : call.function.name.IsTight := by
    cases call.function <;> exact .of_visible (by decide) (by decide)
  exact (name.append_cons call.isTight_operand).cons (by decide)

/-! ## No issue -/

theorem isFaultless_operand (previous? : Option Token) :
    Text.IsFaultless [] previous? call.operand := by
  have script (base : Token) (isBase : base.isBase = true) :
      Text.IsFaultless [] (some base) ('^' :: call.exponent.latex) :=
    .script isBase call.exponent.beginsExponent_latex call.exponent.isFaultless_latex
  have letter : Token.isBase (.char call.base.char) = true :=
    Bool.or_eq_true_iff.2 (.inl (isWordChar_of_isAlphanum call.base.isAlphanum))
  have power (previous? : Option Token) :
      Text.IsFaultless [] previous? (call.base.char :: '^' :: call.exponent.latex) :=
    .char (by simp [Token.isOrdinary, call.base.isAlphanum]) (script _ letter)
  rw [operand, run]
  cases call.coefficient? with
  | none => exact power previous?
  | some digits =>
      have ordinary : digits.text.all Token.isOrdinary = true :=
        List.all_eq_true.2 fun c isMember =>
          Token.isOrdinary_of_isBaseChar (List.all_eq_true.1 digits.all_isBaseChar c isMember)
      rw [Option.elim_some, List.append_assoc]
      exact .chars ordinary digits.text_ne_nil fun last => power (some last)

/-- No issue is found in a function of a power. -/
theorem isAccepted_latex : Translator.IsAccepted call.latex := by
  obtain ⟨c, rest, same, word⟩ := call.exists_run_eq
  obtain ⟨command, found, takes⟩ := call.function.named?_name
  have ordinary : command ≠ .structural := by
    rintro rfl
    cases takes
  have noSide := (Command.side?_of_named? found ordinary).1
  have ends : Text.endsRun isBlank call.operand = true := by
    have begins := call.isTight_operand.endsRun_append []
    rwa [List.append_nil] at begins
  have first : call.operand = c :: (rest ++ '^' :: call.exponent.latex) := by
    rw [operand, same, List.cons_append]
  have isName : Token.read '\\' (call.function.name ++ ' ' :: call.operand) =
      ⟨.control call.function.name, call.function.name, ' ' :: call.operand⟩ :=
    Token.read_word call.function.all_isAlpha_name call.function.name_ne_nil rfl
  obtain ⟨later, isWord⟩ := Text.exists_lexemesFrom_eq isName 0
  have faultless : Text.IsFaultless [] (some (.control call.function.name)) (' ' :: call.operand) :=
    .blank ends (call.isFaultless_operand _)
  have whole : Lexeme.IsClean [] [] call.latex.lexemes := by
    rw [latex, Text.lexemes, isWord]
    refine .word rfl (Focus.fault?_word rfl found ordinary ?_) noSide
      (Token.delimiter?_word call.function.all_isAlpha_name)
      (Text.isClean_of_isFaultless faultless noSide (Lexeme.previousToken?_cons rfl []) rfl later)
    obtain ⟨behind, isGap⟩ := Text.exists_lexemesFrom_eq (Token.read_blank ends) later
    obtain ⟨last, isChar⟩ := Text.exists_lexemesFrom_eq
      (Token.read_of_isSingle (Token.isSingle_of_isAlphanum word) _) behind
    rw [isGap, first, isChar, Lexeme.lacksArgument_eq_false_of_char rfl rfl word, Bool.and_false]
  rw [Translator.IsAccepted, Translator.issues, call.isTight_latex.trim, whole.issues_eq_nil]
  rfl

/-- A function of a power is its own normal text. -/
theorem normal_latex : call.latex.normal = call.latex := by
  have blank : Text.normalized (' ' :: call.operand) = ' ' :: call.operand.normalized := by
    have ends := call.isTight_operand.endsRun_append []
    rw [List.append_nil] at ends
    exact Text.normalized_of_read (Token.read_blank ends) rfl (by simp)
  rw [Text.normal_eq_normalized call.isTight_latex.trim, latex,
    Bracketed.normalized_function call.function rfl, blank, operand,
    Bracketed.normalized_baseChars call.all_isBaseChar_run, Bracketed.normalized_mark (by decide),
    call.exponent.normalized_latex]

end PoweredCall

end TexCalc
