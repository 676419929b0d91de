import TexCalc.Proofs.Bracketed.Meaning
import TexCalc.Proofs.Powered.Attached
import TexCalc.Proofs.Symbol.Neighbours

/-!
# The meaning of a function of a power

What the formula is translated to stands for its reading.  That is what it means exactly when it has
no coefficient: a coefficient puts the exponent outside the call.
-/

namespace TexCalc

open Expression

namespace Bracketed.Function

/-- The symbols of a call. -/
def callSymbols (function : Function) (argument : List Symbol) : List Symbol :=
  match function.reciprocal? with
  | some _ =>
      Symbol.parenthesized ([.number "1".toList] ++
        .operator '/' :: .function function.target :: Symbol.parenthesized argument)
  | none => .function function.target :: Symbol.parenthesized argument

theorem spells_call (function : Function) {argument : Text} {symbols : List Symbol}
    (spells : Text.SpellsWithin .standard argument symbols) :
    Text.SpellsWithin .standard (function.call argument) (function.callSymbols symbols) := by
  have call := Bracketed.spells_call function.all_isBaseChar_target function.symbols_target spells
  rw [Function.call, callSymbols]
  cases function.reciprocal? with
  | none => exact call
  | some ratio => exact (spells_quotient call).parenthesized

/-- What a call is printed as, when its argument and what follows it are printed. -/
theorem prints_call (function : Function) {previous? : Option Symbol} {argument others : List Symbol}
    {printed text : Text} (front : ∀ symbol, previous?.any (Symbol.isJoined · symbol) = false)
    (inside : ∀ {others : List Symbol} {text : Text},
      Symbol.Prints (some (.delimiter ')')) others text →
        Symbol.Prints (some (.delimiter '(')) (argument ++ .delimiter ')' :: others)
          (printed ++ ')' :: text))
    (later : Symbol.Prints (some (.delimiter ')')) others text) :
    Symbol.Prints previous? (function.callSymbols argument ++ others)
      (function.call printed ++ text) := by
  have call {previous? : Option Symbol} {others : List Symbol} {text : Text}
      (front : ∀ symbol, previous?.any (Symbol.isJoined · symbol) = false)
      (later : Symbol.Prints (some (.delimiter ')')) others text) :
      Symbol.Prints previous? (.function function.target :: (.delimiter '(' ::
          (argument ++ .delimiter ')' :: others)))
        (function.target ++ '(' :: (printed ++ ')' :: text)) :=
    .cons rfl (front _) (.cons rfl (Symbol.joinsFactors_isJoined.leads rfl) (inside later))
  rw [callSymbols, Function.call]
  cases function.reciprocal? with
  | none =>
      simp only [Symbol.parenthesized, Text.parenthesized, List.cons_append, List.append_assoc,
        List.nil_append]
      exact call front later
  | some ratio =>
      have leads {first : Symbol} (leads : first.leads = true) (symbol : Symbol) :
          (some first).any (Symbol.isJoined · symbol) = false :=
        Symbol.joinsFactors_isJoined.leads leads
      simp only [Symbol.parenthesized, Text.parenthesized, List.cons_append, List.append_assoc,
        List.nil_append]
      refine .cons rfl (front _) (.cons rfl (leads rfl _) (.separator rfl ?_))
      exact call (leads rfl) (.separator rfl later)

/-- A call stands for the function of what its argument stands for. -/
theorem derives_applied (function : Function) {argument : Text} {inside : Expression}
    (derives : Derives .standard .sum argument inside) :
    Derives .standard .atom (function.call argument) (function.applied inside) := by
  have call := function.derives_call derives
  rw [Function.call, applied]
  cases function.reciprocal? with
  | none => exact call
  | some ratio => exact .group (.term (.product (.factor (.operand derives_one)) rfl (.operand call)))

/-- The reciprocal of a function is a quotient, and other functions are calls. -/
theorem applied_ne_power (function : Function) (argument left right : Expression) :
    function.applied argument ≠ .binary .power left right := by
  rw [applied]
  cases function.reciprocal? <;> simp

end Bracketed.Function

namespace Script

variable (exponent : Script)

theorem spells_digit (symbol : Digit) :
    Text.SpellsWithin .standard [symbol.char] [.number [symbol.char]] := by
  have isNumeral : Text.isNumeral [symbol.char] = true := by
    simp [Text.isNumeral, symbol.isDigit]
  exact Bracketed.spells_name (all_isBaseChar_digit symbol)
    (Bracketed.symbols_numeral ⟨[symbol.char], isNumeral⟩)

theorem spells_latex : Text.SpellsWithin .standard exponent.latex exponent.symbols := by
  cases exponent with
  | digit symbol => exact spells_digit symbol
  | braced digits =>
      exact (Bracketed.spells_name digits.all_isBaseChar (Bracketed.symbols_numeral digits)).braced

theorem spells_printed : Text.SpellsWithin .standard exponent.printed exponent.symbols := by
  cases exponent with
  | digit symbol => exact spells_digit symbol
  | braced digits =>
      have numeral := Bracketed.spells_name digits.all_isBaseChar (Bracketed.symbols_numeral digits)
      exact numeral.parenthesized

/-- An exponent is printed as it is behind its sign. -/
theorem prints_symbols {previous? : Option Symbol} {others : List Symbol} {text : Text}
    (later : ∀ previous?, Symbol.Prints previous? others text) :
    Symbol.Prints previous? (.operator '^' :: (exponent.symbols ++ others))
      ('^' :: (exponent.printed ++ text)) := by
  have behindSign (symbol : Symbol) : Symbol.isJoined (.operator '^') symbol = false :=
    Symbol.joinsFactors_isJoined.leads rfl
  refine .separator rfl ?_
  cases exponent with
  | digit symbol => exact .cons rfl (behindSign _) (later _)
  | braced digits =>
      have closing : Symbol.Prints (some (.number digits.text)) (.delimiter ')' :: others)
          (')' :: text) :=
        .separator rfl (later _)
      have inside : Symbol.Prints (some (.delimiter '('))
          (.number digits.text :: .delimiter ')' :: others) (digits.text ++ ')' :: text) :=
        .cons rfl (Symbol.joinsFactors_isJoined.leads rfl) closing
      have whole : Symbol.Prints (some (.operator '^'))
          (.delimiter '(' :: .number digits.text :: .delimiter ')' :: others)
          ('(' :: (digits.text ++ ')' :: text)) :=
        .cons rfl (behindSign _) inside
      rw [← Text.parenthesized_append] at whole
      exact whole

theorem derives_printed : Derives .standard .signed exponent.printed exponent.meaning := by
  cases exponent with
  | digit symbol =>
      have isNumeral : Text.isNumeral [symbol.char] = true := by
        simp [Text.isNumeral, symbol.isDigit]
      exact .operand (.number isNumeral)
  | braced digits =>
      exact .operand (.group (.term (.factor (.operand (.number digits.isNumeral)))))

end Script

namespace PoweredCall

variable (call : PoweredCall)

/-! ## Symbols -/

/-- The symbols of the argument. -/
def argumentSymbols : List Symbol :=
  match call.coefficient? with
  | none => Symbol.parenthesized ([.var call.base.char] ++ .operator '^' :: call.exponent.symbols)
  | some digits => [.number digits.text, .var call.base.char]

/-- The symbols of what is left behind the call. -/
def restSymbols : List Symbol :=
  match call.coefficient? with
  | none => []
  | some _ => .operator '^' :: call.exponent.symbols

/-- The symbols of the formula. -/
def symbols : List Symbol :=
  call.function.callSymbols call.argumentSymbols ++ call.restSymbols

theorem spells_base : Text.SpellsWithin .standard [call.base.char] [.var call.base.char] :=
  Bracketed.spells_name (by simp [call.base.isBaseChar]) (Bracketed.symbols_letter call.base)

/-- The symbols of a numeral and the letter behind it. -/
theorem symbols_run (digits : Numeral) :
    Text.symbols .standard (digits.text ++ [call.base.char]) =
      [.number digits.text, .var call.base.char] := by
  obtain ⟨c, run, same, digit, all⟩ := Text.exists_of_isNumeral digits.isNumeral
  have noPoint : call.base.char ≠ '.' := ne_of_isAlphanum call.base.isAlphanum (by decide)
  have ends : Text.endsRun isNumeralChar [call.base.char] = true := by
    simp [Text.endsRun, isNumeralChar, isDigit_eq_false_of_isAlpha call.base.isAlpha, noPoint]
  rw [same, List.cons_append, Text.symbols_numeral (by simp [beginsNumeral, digit]),
    Text.takeWhile_append_of_endsRun all ends, Text.dropWhile_append_of_endsRun all ends,
    Bracketed.symbols_letter]

theorem spells_raised :
    Text.Spells .standard (' ' :: (call.function.call call.raised.text ++ call.raised.rest))
      call.symbols := by
  refine Text.Spells.blank ?_
  rw [symbols, raised, argumentSymbols, restSymbols]
  cases isCoefficient : call.coefficient? with
  | none =>
      have power : Text.SpellsWithin .standard ([call.base.char] ++ '^' :: call.exponent.printed)
          ([.var call.base.char] ++ .operator '^' :: call.exponent.symbols) :=
        .binary (by decide) call.spells_base call.exponent.spells_printed
      exact (call.function.spells_call power.parenthesized).before rfl (by simp [Text.trimStart]) .nil
  | some digits =>
      have run : Text.SpellsWithin .standard call.run
          [.number digits.text, .var call.base.char] := by
        have isRun : call.run = digits.text ++ [call.base.char] := by
          rw [PoweredCall.run, isCoefficient, Option.elim_some]
        rw [← call.symbols_run digits, ← isRun]
        exact .word call.all_isBaseChar_run
      have script : Text.SpellsWithin .standard ('^' :: call.exponent.latex)
          (.operator '^' :: call.exponent.symbols) :=
        .sign_append (by decide) call.exponent.spells_latex
      have visible : isBlank '^' = false := by decide
      have noGroup : (Text.trimStart ('^' :: call.exponent.latex)).head? ≠ some '\x7b' := by
        rw [Text.trimStart_eq_of_head visible]
        simp
      exact (call.function.spells_call run).before rfl noGroup script.whole

/-! ## Printing -/

/-- What the argument is printed as, and what is printed behind the call. -/
def printedCut : Cut :=
  match call.coefficient? with
  | none => ⟨Text.parenthesized (call.base.char :: '^' :: call.exponent.printed), []⟩
  | some digits => ⟨digits.text ++ '*' :: [call.base.char], '^' :: call.exponent.printed⟩

/-- The expression that the formula is translated to. -/
def printed : Text :=
  call.function.call call.printedCut.text ++ call.printedCut.rest

theorem prints_argument {others : List Symbol} {text : Text}
    (later : Symbol.Prints (some (.delimiter ')')) others text) :
    Symbol.Prints (some (.delimiter '(')) (call.argumentSymbols ++ .delimiter ')' :: others)
      (call.printedCut.text ++ ')' :: text) := by
  have inGroup (symbol : Symbol) : Symbol.isJoined (.delimiter '(') symbol = false :=
    Symbol.joinsFactors_isJoined.leads rfl
  rw [argumentSymbols, printedCut]
  cases call.coefficient? with
  | none =>
      have power : Symbol.Prints (some (.var call.base.char))
          (.operator '^' :: (call.exponent.symbols ++
            .delimiter ')' :: .delimiter ')' :: others))
          ('^' :: (call.exponent.printed ++ ')' :: ')' :: text)) :=
        call.exponent.prints_symbols fun _ => .separator rfl (.separator rfl later)
      simp only [Symbol.parenthesized, Text.parenthesized, List.cons_append, List.append_assoc,
        List.nil_append]
      exact .cons rfl (inGroup _) (.cons rfl (inGroup _) power)
  | some digits =>
      simp only [List.cons_append, List.append_assoc, List.nil_append]
      exact .cons rfl (inGroup _) (.product rfl rfl (.separator rfl later))

theorem prints_rest :
    Symbol.Prints (some (.delimiter ')')) call.restSymbols call.printedCut.rest := by
  rw [restSymbols, printedCut]
  cases call.coefficient? with
  | none => exact .nil
  | some digits =>
      have script : Symbol.Prints (some (.delimiter ')'))
          (.operator '^' :: (call.exponent.symbols ++ [])) ('^' :: (call.exponent.printed ++ [])) :=
        call.exponent.prints_symbols fun _ => .nil
      rwa [List.append_nil, List.append_nil] at script

/-- In strict mode the formula is translated without warnings. -/
theorem report_latex_eq_printed :
    Translator.report {} call.latex = .ok ⟨call.printed, []⟩ :=
  Translator.report_of_prints call.isAccepted_latex call.linear_normal call.spells_raised
    (call.function.prints_call (fun _ => rfl) call.prints_argument call.prints_rest)

/-! ## Reading and meaning -/

/-- What the formula is translated to stands for its reading. -/
theorem parse?_printed : parse? .standard call.printed = some call.reading := by
  apply parse?_of_derives
  have base := Bracketed.derives_letter call.base
  have exponent := call.exponent.derives_printed
  rw [printed, printedCut, reading]
  cases call.coefficient? with
  | none =>
      have power : Derives .standard .signed
          ([call.base.char] ++ '^' :: call.exponent.printed) call.power :=
        .power base exponent
      have argument : Derives .standard .sum
          (Text.parenthesized ([call.base.char] ++ '^' :: call.exponent.printed)) call.power :=
        Derives.sum_of_signed (.operand (.group power.sum_of_signed))
      rw [List.append_nil]
      exact Derives.sum_of_signed (.operand (call.function.derives_applied argument))
  | some digits =>
      have argument : Derives .standard .sum (digits.text ++ '*' :: [call.base.char])
          (.binary .times (.number digits.text) (.name [call.base.char])) :=
        .term (.product (.factor (.operand (.number digits.isNumeral))) rfl (.operand base))
      exact Derives.sum_of_signed (.power (call.function.derives_applied argument) exponent)

/-- The formula is read as it is meant exactly when it has no coefficient. -/
theorem reading_eq_meaning_iff : call.reading = call.meaning ↔ call.coefficient? = none := by
  rw [reading, meaning]
  cases call.coefficient? with
  | none => exact iff_of_true rfl rfl
  | some digits =>
      exact iff_of_false (fun same => call.function.applied_ne_power _ _ _ same.symm) (by simp)

/-- In strict mode a function of a power is translated without warnings to an expression that says
what the formula is read as.  Without a coefficient that is the function of the power, as it is
meant; with one it is the power of a call whose argument is the coefficient times the letter. -/
theorem report_latex_says_reading : ∃ expression,
    Translator.report {} call.latex = .ok ⟨expression, []⟩ ∧
      parse? .standard expression = some call.reading ∧
        (call.reading = call.meaning ↔ call.coefficient? = none) :=
  ⟨call.printed, call.report_latex_eq_printed, call.parse?_printed, call.reading_eq_meaning_iff⟩

theorem isAlpha_x : 'x'.isAlpha = true := rfl

theorem isDigit_three : '3'.isDigit = true := rfl

theorem x_ne_e : 'x' ≠ 'e' := by decide

/-- The sine of twice the cube of `x`. -/
def sineOfTwiceCube : PoweredCall where
  function := .sin
  coefficient? := some ⟨"2".toList, rfl⟩
  base := ⟨'x', isAlpha_x⟩
  exponent := .digit ⟨'3', isDigit_three⟩
  isVariable := x_ne_e

/-- The cube is taken of the sine and not of the letter. -/
theorem report_of_sineOfTwiceCube :
    sineOfTwiceCube.latex = "\\sin 2x^3".toList ∧
      Translator.report {} sineOfTwiceCube.latex = .ok ⟨"sin(2*x)^3".toList, []⟩ ∧
        parse? .standard "sin(2*x)^3".toList ≠ some sineOfTwiceCube.meaning := by
  have whole : sineOfTwiceCube.printed = "sin(2*x)^3".toList := by decide
  rw [← whole]
  refine ⟨by decide, sineOfTwiceCube.report_latex_eq_printed, ?_⟩
  rw [parse?_printed]
  decide

end PoweredCall

end TexCalc
