import TexCalc.Proofs.Chain.Formula
import TexCalc.Proofs.Polynomial.Meaning

/-!
# The meaning of a chain of powers

What a chain is translated to stands for its reading.  That is what the chain means exactly when
no exponent in it is a power of `e`.
-/

namespace TexCalc

open Expression

namespace PowerChain

namespace Script

variable (script : Script)

/-! ## Exponents -/

/-- The symbols of an exponent. -/
def symbols : Script → List Symbol
  | letter symbol => [.var symbol.char]
  | power base exponent _ =>
      Symbol.parenthesized (.var base.char :: .operator '^' :: exponent.symbols)

/-- The symbols of an exponent without parentheses of its own. -/
def insideSymbols : Script → List Symbol
  | letter symbol => [.var symbol.char]
  | power base exponent _ => .var base.char :: .operator '^' :: exponent.symbols

theorem spells_letter (symbol : Letter) :
    Text.SpellsWithin .standard [symbol.char] [.var symbol.char] :=
  Bracketed.spells_name (by simp [symbol.isBaseChar]) (Bracketed.symbols_letter symbol)

theorem spells_text : Text.SpellsWithin .standard script.text script.symbols := by
  induction script with
  | letter symbol => exact spells_letter symbol
  | power base exponent isVariable ih =>
      exact ((spells_letter base).binary (by decide) ih).parenthesized

theorem spells_inside : Text.SpellsWithin .standard script.inside script.insideSymbols := by
  cases script with
  | letter symbol => exact spells_letter symbol
  | power base exponent isVariable => exact (spells_letter base).binary (by decide) exponent.spells_text

section

variable {previous? : Option Symbol} {others : List Symbol} {text : Text}
  (front : ∀ symbol, previous?.any (Symbol.isJoined · symbol) = false)
  (later : ∀ previous?, Symbol.Prints previous? others text)

include front later

/-- An exponent is printed as it is. -/
theorem prints_text :
    Symbol.Prints previous? (script.symbols ++ others) (script.text ++ text) := by
  have leads {first : Symbol} (leads : first.leads = true) (symbol : Symbol) :
      (some first).any (Symbol.isJoined · symbol) = false :=
    Symbol.joinsFactors_isJoined.leads leads
  induction script generalizing previous? others text with
  | letter symbol => exact .cons rfl (front _) (later _)
  | power base exponent isVariable ih =>
      have closed (previous? : Option Symbol) :
          Symbol.Prints previous? (.delimiter ')' :: others) (')' :: text) :=
        .separator rfl (later _)
      have inside : Symbol.Prints (some (.delimiter '('))
          (.var base.char :: .operator '^' :: (exponent.symbols ++ .delimiter ')' :: others))
          (base.char :: '^' :: (exponent.text ++ ')' :: text)) :=
        .cons rfl (leads rfl _) (.separator rfl (ih (leads rfl) closed))
      rw [symbols, Script.text, Symbol.parenthesized, List.cons_append, List.append_assoc,
        Text.parenthesized_append]
      exact .cons rfl (front _) inside

theorem prints_inside :
    Symbol.Prints previous? (script.insideSymbols ++ others) (script.inside ++ text) := by
  cases script with
  | letter symbol => exact .cons rfl (front _) (later _)
  | power base exponent isVariable =>
      refine .cons rfl (front _) (.separator rfl ?_)
      exact exponent.prints_text (fun _ => Symbol.joinsFactors_isJoined.leads rfl) later

end

/-- An argument is printed in parentheses. -/
theorem prints_argument {previous? : Option Symbol} {others : List Symbol} {text : Text}
    (front : previous?.any (Symbol.isJoined · (.delimiter '(')) = false)
    (later : Symbol.Prints (some (.delimiter ')')) others text) :
    Symbol.Prints previous? (Symbol.parenthesized script.insideSymbols ++ others)
      (script.inside.parenthesized ++ text) := by
  rw [Symbol.parenthesized, List.cons_append, List.append_assoc, Text.parenthesized_append]
  exact .cons rfl front (script.prints_inside (fun _ => Symbol.joinsFactors_isJoined.leads rfl)
    fun _ => .separator rfl later)

theorem derives_text : Derives .standard .atom script.text script.reading := by
  induction script with
  | letter symbol => exact Bracketed.derives_letter symbol
  | power base exponent isVariable ih =>
      exact .group (.term (.factor (.power (Bracketed.derives_letter base) (.operand ih))))

theorem derives_inside : Derives .standard .sum script.inside script.reading := by
  cases script with
  | letter symbol => exact .term (.factor (.operand (Bracketed.derives_letter symbol)))
  | power base exponent isVariable =>
      exact .term (.factor (.power (Bracketed.derives_letter base)
        (.operand exponent.derives_text)))

end Script

variable (chain : PowerChain)

/-! ## The first power -/

/-- The first power on one line. -/
def front : Text :=
  Text.power [chain.base.char] chain.exponent.text

/-- The symbols of the first power. -/
def frontSymbols : List Symbol :=
  if euler : chain.base.char = 'e' then
    .function "exp".toList :: Symbol.parenthesized chain.exponent.insideSymbols
  else (Script.power chain.base chain.exponent euler).symbols

theorem spells_front {rest : Text} {others : List Symbol}
    (spells : Text.Spells .standard rest others) :
    Text.Spells .standard (chain.front ++ rest) (chain.frontSymbols ++ others) := by
  rw [front, frontSymbols]
  by_cases euler : chain.base.char = 'e'
  · have isFunction : Text.symbols .standard "exp".toList = [.function "exp".toList] := by
      decide +kernel
    have isName : "exp".toList.all isBaseChar = true := by decide
    have call := Text.Spells.word isName (by rfl)
      (chain.exponent.spells_inside.parenthesized_append spells)
    rw [power_of_euler euler, dif_pos euler, List.append_assoc]
    rwa [isFunction] at call
  · rw [power_of_variable euler, dif_neg euler]
    exact (Script.power chain.base chain.exponent euler).spells_inside.parenthesized_append spells

theorem prints_front {others : List Symbol} {text : Text}
    (later : Symbol.Prints (some (.delimiter ')')) others text) :
    Symbol.Prints none (chain.frontSymbols ++ others) (chain.front ++ text) := by
  rw [front, frontSymbols]
  by_cases euler : chain.base.char = 'e'
  · rw [power_of_euler euler, dif_pos euler, List.append_assoc]
    exact .cons rfl rfl (chain.exponent.prints_argument (Symbol.joinsFactors_isJoined.leads rfl) later)
  · rw [power_of_variable euler, dif_neg euler]
    exact (Script.power chain.base chain.exponent euler).prints_argument rfl later

theorem derives_front :
    Derives .standard .atom chain.front (chain.base.raisedTo chain.exponent.reading) := by
  rw [front, Letter.raisedTo]
  by_cases euler : chain.base.char = 'e'
  · rw [power_of_euler euler, if_pos euler]
    exact Bracketed.derives_call (by decide) chain.exponent.derives_inside
  · rw [power_of_variable euler, if_neg euler]
    exact (Script.power chain.base chain.exponent euler).derives_text

/-! ## What is left of exponentials -/

/-- The symbols of what is left of an exponential. -/
def remnantSymbols (argument : Script) : List Symbol :=
  .var 'x' :: .var 'p' :: Symbol.parenthesized argument.insideSymbols

/-- The factors that an exponential leaves behind. -/
def remnantTexts (argument : Script) : List Text :=
  [['x'], ['p'], argument.inside.parenthesized]

theorem spells_remnants (torn : List Script) :
    Text.Spells .standard (torn.flatMap remnant) (torn.flatMap remnantSymbols) := by
  have letters : Text.symbols .standard "xp".toList = [.var 'x', .var 'p'] :=
    Text.symbols_of_isNameless (by decide) (by decide +kernel)
  have isRun : "xp".toList.all isBaseChar = true := by decide
  induction torn with
  | nil => exact .nil
  | cons argument torn ih =>
      have left := Text.Spells.word isRun (by rfl)
        (argument.spells_inside.parenthesized_append ih)
      rw [letters] at left
      rw [List.flatMap_cons, List.flatMap_cons, remnant, List.append_assoc]
      exact left

theorem prints_remnants (torn : List Script) :
    Symbol.Prints (some (.delimiter ')')) (torn.flatMap remnantSymbols)
      ((torn.flatMap remnantTexts).flatMap ('*' :: ·)) := by
  induction torn with
  | nil => exact .nil
  | cons argument torn ih =>
      have opener : Symbol.Prints (some (.var 'p'))
          (Symbol.parenthesized argument.insideSymbols ++ torn.flatMap remnantSymbols)
          ('*' :: (argument.inside.parenthesized ++
            (torn.flatMap remnantTexts).flatMap ('*' :: ·))) := by
        rw [Symbol.parenthesized, List.cons_append, List.append_assoc, Text.parenthesized_append]
        exact .product rfl rfl (argument.prints_inside
          (fun _ => Symbol.joinsFactors_isJoined.leads rfl) fun _ => .separator rfl ih)
      exact .product rfl rfl (.product rfl rfl opener)

theorem derives_remnants (torn : List Script) :
    List.Forall₂ (Derives .standard .signed) (torn.flatMap remnantTexts)
      (torn.flatMap fun argument => [.name ['x'], .name ['p'], argument.reading]) := by
  have letter (symbol : Letter) : Derives .standard .signed [symbol.char] (.name [symbol.char]) :=
    .operand (Bracketed.derives_letter symbol)
  induction torn with
  | nil => exact .nil
  | cons argument torn ih =>
      exact .cons (letter ⟨'x', rfl⟩) (.cons (letter ⟨'p', rfl⟩)
        (.cons (.operand (.group argument.derives_inside)) ih))

/-! ## Translation -/

/-- The expression that the chain is translated to. -/
def printed : Text :=
  Text.product (chain.front :: chain.torn.flatMap remnantTexts)

/-- In strict mode the chain is translated without warnings. -/
theorem report_latex_eq_printed :
    Translator.report {} chain.latex = .ok ⟨chain.printed, []⟩ :=
  Translator.report_of_prints chain.isAccepted_latex chain.linear_normal
    (chain.spells_front (spells_remnants chain.torn))
    (chain.prints_front (prints_remnants chain.torn))

/-- What the chain is translated to stands for its reading. -/
theorem parse?_printed : parse? .standard chain.printed = some chain.reading := by
  have product := derives_product (List.cons_ne_nil _ _)
    (.cons (.operand chain.derives_front) (derives_remnants chain.torn))
  exact parse?_of_derives (.term product)

/-- In strict mode a chain of powers is translated without warnings to an expression that says
what the chain is read as.  That is what it means exactly when no exponent in the chain is a power
of `e`: of the call that such a power has become only the first letter is read as the exponent. -/
theorem report_says_chain_reading : ∃ expression,
    Translator.report {} chain.latex = .ok ⟨expression, []⟩ ∧
      parse? .standard expression = some chain.reading ∧
        (chain.reading = chain.meaning ↔ ∀ letter ∈ chain.inner, letter.char ≠ 'e') :=
  ⟨chain.printed, chain.report_latex_eq_printed, chain.parse?_printed,
    chain.reading_eq_meaning_iff⟩

theorem isAlpha_base : 'x'.isAlpha = true := rfl

theorem isAlpha_euler : 'e'.isAlpha = true := rfl

theorem isAlpha_exponent : 'y'.isAlpha = true := rfl

/-- `x` raised to the exponential of `y`. -/
def powerOfExponential : PowerChain :=
  .raised ⟨'x', isAlpha_base⟩ (.pair ⟨'e', isAlpha_euler⟩ ⟨'y', isAlpha_exponent⟩)

/-- The exponential is torn: its first letter is the exponent, and the others are factors. -/
theorem report_of_powerOfExponential :
    powerOfExponential.latex = "x^e^y".toList ∧
      Translator.report {} powerOfExponential.latex = .ok ⟨"(x^e)*x*p*(y)".toList, []⟩ ∧
        parse? .standard "(x^e)*x*p*(y)".toList ≠ some powerOfExponential.meaning := by
  have whole : powerOfExponential.printed = "(x^e)*x*p*(y)".toList := by decide
  rw [← whole]
  refine ⟨by decide, powerOfExponential.report_latex_eq_printed, ?_⟩
  rw [parse?_printed]
  decide

end PowerChain

end TexCalc
