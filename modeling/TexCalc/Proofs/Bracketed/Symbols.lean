import TexCalc.Proofs.Bracketed.Raised
import TexCalc.Proofs.Symbol.Products

/-!
# Symbols of a bracketed formula

All groups of a bracketed formula are in parentheses in the end.  The only neighbours that lack a
product sign are two of these groups.
-/

namespace TexCalc

namespace Symbol

def grouped (isGroup : Bool) (symbols : List Symbol) : List Symbol :=
  if isGroup then symbols else parenthesized symbols

end Symbol

namespace Bracketed

namespace Joint

/-- The symbols of two operands put together, `sign` standing between groups side by side. -/
def symbols (sign left right : List Symbol) : Joint → List Symbol
  | sum => Symbol.parenthesized (left ++ .operator '+' :: right)
  | difference => Symbol.parenthesized (left ++ .operator '-' :: right)
  | product => Symbol.parenthesized (left ++ .operator '*' :: right)
  | juxtaposition =>
      Symbol.parenthesized (Symbol.parenthesized left ++ (sign ++ Symbol.parenthesized right))

end Joint

/-- The symbols of the formula, `sign` standing between groups side by side. -/
def symbols (sign : List Symbol) : Bracketed → List Symbol
  | numeral digits => [.number digits.text]
  | letter symbol => [.var symbol.char]
  | pi => [.constant "pi".toList]
  | joined joint left right => joint.symbols sign (left.symbols sign) (right.symbols sign)
  | fraction numerator denominator =>
      Symbol.parenthesized
        (Symbol.grouped numerator.isGroup (numerator.symbols sign) ++
          .operator '/' :: Symbol.grouped denominator.isGroup (denominator.symbols sign))
  | root radicand =>
      Symbol.parenthesized
        (.function "sqrt".toList :: Symbol.parenthesized (radicand.symbols sign))
  | indexedRoot index radicand =>
      Symbol.parenthesized
        (Symbol.grouped radicand.isGroup (radicand.symbols sign) ++
          .operator '^' :: Symbol.parenthesized ([.number "1".toList] ++
            .operator '/' :: Symbol.grouped index.isGroup (index.symbols sign)))
  | absolute inside => .function "abs".toList :: Symbol.parenthesized (inside.symbols sign)
  | application function argument =>
      let call := .function function.target :: Symbol.parenthesized (argument.symbols sign)
      match function.reciprocal? with
      | some _ => Symbol.parenthesized ([.number "1".toList] ++ .operator '/' :: call)
      | none => call
  | letterPower base exponent =>
      let raised := Symbol.grouped exponent.isRaisedGroup (exponent.symbols sign)
      if base.char = 'e' then .function "exp".toList :: raised
      else Symbol.parenthesized ([.var base.char] ++ .operator '^' :: raised)
  | groupPower base exponent =>
      Symbol.parenthesized (base.symbols sign) ++
        .operator '^' :: Symbol.parenthesized (exponent.symbols sign)

/-! ## Reading -/

/-- A formula in its final form spells its symbols. -/
def SpellsItself (formula : Bracketed) : Prop :=
  Text.SpellsWithin .standard (formula.bare .raised) (formula.symbols [])

theorem SpellsItself.line {formula : Bracketed} (spells : formula.SpellsItself) :
    Text.SpellsWithin .standard (formula.line .raised) (formula.symbols []) := by
  cases formula with
  | pi => exact .blank_append spells.append_blank
  | application function argument => exact .blank_append spells
  | _ => exact spells

section

variable {text : Text} {symbols : List Symbol}

theorem spells_grouped (isGroup : Bool) (spells : Text.SpellsWithin .standard text symbols) :
    Text.SpellsWithin .standard (grouped isGroup text) (Symbol.grouped isGroup symbols) := by
  cases isGroup with
  | true => exact spells
  | false => exact spells.parenthesized

theorem spells_name {name : Text} {symbol : Symbol} (all : name.all isBaseChar = true)
    (isSymbol : Text.symbols .standard name = [symbol]) :
    Text.SpellsWithin .standard name [symbol] := by
  rw [← isSymbol]
  exact .word all

theorem spells_call {name : Text} {symbol : Symbol} (all : name.all isBaseChar = true)
    (isSymbol : Text.symbols .standard name = [symbol])
    (spells : Text.SpellsWithin .standard text symbols) :
    Text.SpellsWithin .standard (name ++ text.parenthesized)
      (symbol :: Symbol.parenthesized symbols) :=
  .append rfl rfl (by decide) (spells_name all isSymbol) spells.parenthesized

/-- A function and a blank in front of its argument. -/
theorem spells_spaced_call {name : Text} {symbol : Symbol} (all : name.all isBaseChar = true)
    (isSymbol : Text.symbols .standard name = [symbol])
    (spells : Text.SpellsWithin .standard text symbols) :
    Text.SpellsWithin .standard (name ++ ' ' :: text.parenthesized)
      (symbol :: Symbol.parenthesized symbols) := by
  have spaced := (spells_name all isSymbol).append_blank
  have whole := spaced.append (c := '(') rfl rfl (by decide) spells.parenthesized
  rwa [List.append_assoc] at whole

theorem spells_quotient (spells : Text.SpellsWithin .standard text symbols) :
    Text.SpellsWithin .standard ("1/".toList ++ text)
      ([.number "1".toList] ++ .operator '/' :: symbols) := by
  have one : Text.SpellsWithin .standard ['1'] [.number "1".toList] :=
    spells_name (by decide) (by decide +kernel)
  exact one.binary (c := '/') (by decide) spells

end

theorem symbols_numeral (digits : Numeral) :
    Text.symbols .standard digits.text = [.number digits.text] := by
  obtain ⟨c, run, same, digit, all⟩ := Text.exists_of_isNumeral digits.isNumeral
  have begins : beginsNumeral c run = true := by simp [beginsNumeral, digit]
  rw [same, Text.symbols_numeral begins, Text.takeWhile_of_all all, Text.dropWhile_of_all all,
    Text.symbols]

theorem symbols_letter (symbol : Letter) :
    Text.symbols .standard [symbol.char] = [.var symbol.char] := by
  have word : symbol.char.isAlphanum = true := by simp [Char.isAlphanum, symbol.isAlpha]
  have noNumeral := not_beginsNumeral_of_isAlpha symbol.isAlpha []
  rw [Text.symbols_variable noNumeral (isLetter_of_isAlpha symbol.isAlpha)
    (Vocabulary.entryAt?_standard_single word rfl), Text.symbols]

theorem Function.symbols_target (function : Function) :
    Text.symbols .standard function.target = [.function function.target] := by
  cases function <;> decide +kernel

theorem Function.all_isBaseChar_target (function : Function) :
    function.target.all isBaseChar = true := by
  cases function <;> decide

theorem Joint.spells_between (joint : Joint) {left right : Text} {left' right' : List Symbol}
    (first : Text.SpellsWithin .standard left left')
    (second : Text.SpellsWithin .standard right right') :
    Text.SpellsWithin .standard (joint.between "* ".toList left right)
      (joint.symbols [] left' right') := by
  cases joint with
  | sum | difference => exact (Text.SpellsWithin.binary (by decide) first second).parenthesized
  | product => exact (Text.SpellsWithin.binary (by decide) first second.blank_append).parenthesized
  | juxtaposition =>
      exact (first.parenthesized.append rfl rfl (by decide) second.parenthesized).parenthesized

/-- The final form of a formula spells its symbols. -/
theorem spellsItself (formula : Bracketed) : formula.SpellsItself := by
  induction formula with
  | numeral digits => exact spells_name digits.all_isBaseChar (symbols_numeral digits)
  | letter symbol =>
      have all : [symbol.char].all isBaseChar = true := by simp [symbol.isBaseChar]
      exact spells_name all (symbols_letter symbol)
  | pi => exact spells_name (by decide) (by decide +kernel)
  | joined joint left right ihLeft ihRight => exact joint.spells_between ihLeft.line ihRight.line
  | fraction numerator denominator ihNumerator ihDenominator =>
      exact (Text.SpellsWithin.binary (by decide) (spells_grouped _ ihNumerator.line)
        (spells_grouped _ ihDenominator.line)).parenthesized
  | root radicand ih =>
      exact (spells_call (by decide) (by decide +kernel) ih.line).parenthesized
  | indexedRoot index radicand ihIndex ihRadicand =>
      exact (Text.SpellsWithin.binary (by decide) (spells_grouped _ ihRadicand.line)
        (spells_quotient (spells_grouped _ ihIndex.line)).parenthesized).parenthesized
  | absolute inside ih => exact spells_call (by decide) (by decide +kernel) ih.line
  | application function argument ih =>
      have all := function.all_isBaseChar_target
      have isSymbol := function.symbols_target
      cases isReciprocal : function.reciprocal? with
      | some ratio =>
          simp only [SpellsItself, bare, Function.around, symbols, isReciprocal]
          exact (spells_quotient (spells_call all isSymbol ih.line)).parenthesized
      | none =>
          simp only [SpellsItself, bare, Function.around, symbols, isReciprocal]
          exact spells_spaced_call all isSymbol ih.line
  | letterPower base exponent ih =>
      have raised := spells_grouped exponent.isRaisedGroup ih
      have all : [base.char].all isBaseChar = true := by simp [base.isBaseChar]
      have letter := spells_name all (symbols_letter base)
      simp only [SpellsItself, bare, symbols, if_true]
      split
      · obtain ⟨inside, _, same⟩ := exists_grouped_eq exponent
        have name : Text.SpellsWithin .standard "exp".toList [.function "exp".toList] :=
          spells_name (by decide) (by decide +kernel)
        rw [same] at raised ⊢
        exact name.append rfl rfl (by decide) raised
      · exact (Text.SpellsWithin.binary (by decide) letter raised).parenthesized
  | groupPower base exponent ihBase ihExponent =>
      exact .binary (by decide) ihBase.line.parenthesized ihExponent.line.braced

/-! ## Products -/

section

variable {joins : Symbol → Symbol → Bool} {sign : List Symbol}

theorem multiplies_grouped (factors : Symbol.JoinsFactors joins) (isGroup : Bool)
    {symbols result : List Symbol} (multiplies : Symbol.MultipliesWithin joins symbols result) :
    Symbol.MultipliesWithin joins (Symbol.grouped isGroup symbols)
      (Symbol.grouped isGroup result) := by
  cases isGroup with
  | true => exact multiplies
  | false => exact multiplies.parenthesized factors

theorem Joint.multiplies_symbols (factors : Symbol.JoinsFactors joins)
    (isSign : sign = if joins (.delimiter ')') (.delimiter '(') then [.times] else [])
    (joint : Joint) {left right left' right' : List Symbol}
    (first : Symbol.MultipliesWithin joins left left')
    (second : Symbol.MultipliesWithin joins right right') :
    Symbol.MultipliesWithin joins (joint.symbols [] left right)
      (joint.symbols sign left' right') := by
  cases joint with
  | sum | difference | product => exact (first.binary factors _ second).parenthesized factors
  | juxtaposition => exact (first.groups factors isSign second).parenthesized factors

/-- A test that joins nothing but factors asks for signs only between groups side by side. -/
theorem multiplies_symbols (factors : Symbol.JoinsFactors joins)
    (isSign : sign = if joins (.delimiter ')') (.delimiter '(') then [.times] else [])
    (formula : Bracketed) :
    Symbol.MultipliesWithin joins (formula.symbols []) (formula.symbols sign) := by
  have one : Symbol.MultipliesWithin joins [.number "1".toList] [.number "1".toList] := .single rfl
  induction formula with
  | numeral digits => exact .single rfl
  | letter symbol => exact .single rfl
  | pi => exact .single rfl
  | joined joint left right ihLeft ihRight =>
      exact joint.multiplies_symbols factors isSign ihLeft ihRight
  | fraction numerator denominator ihNumerator ihDenominator =>
      exact ((multiplies_grouped factors _ ihNumerator).binary factors '/'
        (multiplies_grouped factors _ ihDenominator)).parenthesized factors
  | root radicand ih => exact ((ih.parenthesized factors).call factors _).parenthesized factors
  | indexedRoot index radicand ihIndex ihRadicand =>
      exact ((multiplies_grouped factors _ ihRadicand).binary factors '^'
        ((one.binary factors '/' (multiplies_grouped factors _ ihIndex)).parenthesized
          factors)).parenthesized factors
  | absolute inside ih => exact (ih.parenthesized factors).call factors _
  | application function argument ih =>
      have call := (ih.parenthesized factors).call factors function.target
      cases isReciprocal : function.reciprocal? with
      | some ratio =>
          simp only [symbols, isReciprocal]
          exact (one.binary factors '/' call).parenthesized factors
      | none =>
          simp only [symbols, isReciprocal]
          exact call
  | letterPower base exponent ih =>
      have raised := multiplies_grouped factors exponent.isRaisedGroup ih
      simp only [symbols]
      split
      · exact raised.call factors _
      · have letter : Symbol.MultipliesWithin joins [.var base.char] [.var base.char] := .single rfl
        exact (letter.binary factors '^' raised).parenthesized factors
  | groupPower base exponent ihBase ihExponent =>
      exact (ihBase.parenthesized factors).binary factors '^' (ihExponent.parenthesized factors)

end

end Bracketed

end TexCalc
