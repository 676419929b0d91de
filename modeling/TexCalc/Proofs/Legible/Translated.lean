import Mathlib.Data.List.Infix
import TexCalc.Proofs.Inside.Applied
import TexCalc.Proofs.Legible.LogBases
import TexCalc.Proofs.Legible.Symbols
import TexCalc.Proofs.Legible.Tokens

/-!
# Legible formulas in translation

An accepted formula that is legible follows the grammar through all steps of the linear form.  In
the end a parenthesis stands behind every function, and every variable is a letter that stands by
itself in the formula: no name of a command is taken apart.
-/

namespace TexCalc

namespace Text

variable {formula : Text}

/-- The normal text of a legible formula that is accepted follows the grammar. -/
theorem follows_normal (accepted : Translator.IsAccepted formula)
    (legible : formula.isLegible = true) (letter : Char) :
    Follows (.formula .accepted) letter ⟨.idle, {}, []⟩
      ((formula.trim.lexemes.map Lexeme.token).count (.char letter)) formula.normal := by
  have unordered := Issue.ofLexemes_eq_nil (List.map_eq_nil_iff.1 accepted)
  simp only [Issue.ofLexemes, List.append_eq_nil_iff, List.filterMap_eq_nil_iff] at unordered
  have complete := Lexeme.areComplete_of_fault? fun focus isFocus =>
    Option.map_eq_none_iff.1 (unordered.1.1 focus isFocus)
  exact follows_ofTokens (areLexed_lexemes formula.trim) complete ⟨trivial, trivial⟩ legible

/-- The symbols of a legible formula: all functions are called, and a letter is no more often a
variable than it is a token. -/
theorem areCalled_linear (accepted : Translator.IsAccepted formula)
    (legible : formula.isLegible = true) (options : Options) {letter : Char}
    (other : letter ≠ 'e') :
    Symbol.areCalled ((formula.normal.linear .standard options).classify .standard) = true ∧
      ((formula.normal.linear .standard options).classify .standard).count (.var letter) ≤
        (formula.trim.lexemes.map Lexeme.token).count (.char letter) := by
  have free : State.IsFree ⟨.idle, {}, []⟩ := ⟨rfl, rfl, List.forall_mem_nil _⟩
  have inverted := (follows_normal accepted legible letter).resolveStructures.resolveInverses
  have unbased := inverted.resolveLogBases free nofun
  obtain ⟨renamed, -, noBack⟩ := unbased.renameCommands other options free
  have called := (renamed.completeCalls ⟨.inl rfl, List.forall_mem_nil _⟩ noBack).1
  exact called.areCalled_classify (plain_completeCalls noBack)

end Text

/-- Whether no function of the vocabulary is written in letters, without a backslash. -/
def Text.hasCommandsOnly (vocabulary : Vocabulary) (text : Text) : Bool :=
  vocabulary.entries.all fun entry => entry.kind != .function ||
    !decide (entry.name.text.map Token.char <:+: text.lexemes.map Lexeme.token)

namespace Translator

variable {formula : Text}

/-- In the symbols of a legible formula an opening parenthesis follows every function. -/
theorem head?_after_function (options : Options) (accepted : IsAccepted formula)
    (legible : formula.isLegible = true) {before after : List Symbol} {name : Text}
    (split : symbols ⟨options, .standard⟩ formula = before ++ .function name :: after) :
    after.head? = some (.delimiter '(') := by
  have other : 'x' ≠ 'e' := by decide
  have called := (Text.areCalled_linear accepted legible options other).1
  exact Symbol.areCalled_iff.1 called before name after split

/-- The inner one of two functions without brackets is called as well. -/
theorem head?_after_function_of_cos :
    IsAccepted "\\sin\\cos^2 x".toList ∧ Text.isLegible "\\sin\\cos^2 x".toList = true ∧
      symbols ⟨.standard, .standard⟩ "\\sin\\cos^2 x".toList =
        [.function "sin".toList, .delimiter '(', .delimiter '('] ++ .function "cos".toList ::
          [.delimiter '(', .var 'x', .delimiter ')', .operator '^', .number "2".toList,
            .delimiter ')', .delimiter ')'] ∧
      List.head? [Symbol.delimiter '(', .var 'x', .delimiter ')', .operator '^',
        .number "2".toList, .delimiter ')', .delimiter ')'] = some (.delimiter '(') := by
  have accepted : IsAccepted "\\sin\\cos^2 x".toList := by decide +kernel
  have legible : Text.isLegible "\\sin\\cos^2 x".toList = true := by decide +kernel
  have split : symbols ⟨.standard, .standard⟩ "\\sin\\cos^2 x".toList =
      [.function "sin".toList, .delimiter '(', .delimiter '('] ++ .function "cos".toList ::
        [.delimiter '(', .var 'x', .delimiter ')', .operator '^', .number "2".toList,
          .delimiter ')', .delimiter ')'] := by decide +kernel
  exact ⟨accepted, legible, split, head?_after_function .standard accepted legible split⟩

/-- Behind a coefficient a function is not called: the coefficient takes its name, and the argument
is left outside. -/
theorem not_areCalled_of_coefficient :
    IsAccepted "\\sin 2\\cos x".toList ∧
      Text.hasCommandsOnly .standard "\\sin 2\\cos x".toList = true ∧
        Symbol.areCalled (symbols {} "\\sin 2\\cos x".toList) = false :=
  ⟨by decide +kernel, by decide +kernel, by decide +kernel⟩

/-- In the symbols of a legible formula a letter is no more often a variable than it is a token of
the formula: no variable comes from the letters of a command. -/
theorem count_var_symbols_le (options : Options) {letter : Char} (other : letter ≠ 'e')
    (accepted : IsAccepted formula) (legible : formula.isLegible = true) :
    (symbols ⟨options, .standard⟩ formula).count (.var letter) ≤
      (formula.trim.lexemes.map Lexeme.token).count (.char letter) :=
  (Text.areCalled_linear accepted legible options other).2

/-- A letter is a variable next to the name of a function that begins with it. -/
theorem count_var_symbols_le_of_sin :
    's' ≠ 'e' ∧ IsAccepted "\\sin^2 s".toList ∧ Text.isLegible "\\sin^2 s".toList = true ∧
      (symbols ⟨.standard, .standard⟩ "\\sin^2 s".toList).count (.var 's') ≤
        ((Text.trim "\\sin^2 s".toList).lexemes.map Lexeme.token).count (.char 's') := by
  have other : 's' ≠ 'e' := by decide
  have accepted : IsAccepted "\\sin^2 s".toList := by decide +kernel
  have legible : Text.isLegible "\\sin^2 s".toList = true := by decide +kernel
  exact ⟨other, accepted, legible, count_var_symbols_le .standard other accepted legible⟩

/-- An exponent without braces takes the first letter of a name, whose other letters are read as
variables. -/
theorem count_var_gt_of_exponent :
    IsAccepted "x^\\sin y".toList ∧
      ¬ (symbols {} "x^\\sin y".toList).count (.var 's') ≤
        ((Text.trim "x^\\sin y".toList).lexemes.map Lexeme.token).count (.char 's') :=
  ⟨by decide +kernel, by decide +kernel⟩

end Translator

end TexCalc
