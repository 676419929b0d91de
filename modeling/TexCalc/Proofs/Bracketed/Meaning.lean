import TexCalc.Proofs.Bracketed.Accepted
import TexCalc.Proofs.Bracketed.Renamed
import TexCalc.Proofs.Bracketed.Resolved
import TexCalc.Proofs.Bracketed.Symbols

/-!
# The meaning of a bracketed formula

The translation of a bracketed formula is an expression of the target language with the meaning of
the formula, and it comes without a warning.
-/

namespace TexCalc

namespace Text

theorem ofSymbols_append (left right : List Symbol) :
    ofSymbols (left ++ right) = ofSymbols left ++ ofSymbols right :=
  List.flatMap_append

theorem ofSymbols_cons (symbol : Symbol) (symbols : List Symbol) :
    ofSymbols (symbol :: symbols) = symbol.print ++ ofSymbols symbols :=
  List.flatMap_cons

theorem ofSymbols_parenthesized (symbols : List Symbol) :
    ofSymbols (Symbol.parenthesized symbols) = (ofSymbols symbols).parenthesized := by
  rw [Symbol.parenthesized, ofSymbols_cons, ofSymbols_append]
  rfl

/-- Two operands with a sign between them. -/
theorem ofSymbols_binary (left right : List Symbol) (c : Char) :
    ofSymbols (left ++ .operator c :: right) = ofSymbols left ++ c :: ofSymbols right := by
  rw [ofSymbols_append, ofSymbols_cons]
  rfl

theorem ofSymbols_call (name : Text) (symbols : List Symbol) :
    ofSymbols (.function name :: symbols) = name ++ ofSymbols symbols :=
  ofSymbols_cons _ symbols

end Text

namespace Expression.Derives

variable {vocabulary : Vocabulary} {text : Text} {expression : Expression}

theorem sum_of_signed (derives : Derives vocabulary .signed text expression) :
    Derives vocabulary .sum text expression :=
  .term (.factor derives)

end Expression.Derives

namespace Bracketed

open Expression

/-- The expression that a formula is translated to. -/
def printed (formula : Bracketed) : Text :=
  Text.ofSymbols (formula.symbols [.times])

/-- The printed text says what the formula means, and is a group where the formula is one. -/
structure IsPrintedRight (formula : Bracketed) : Prop where
  signed : Derives .standard .signed formula.printed formula.meaning
  group (isGroup : formula.isRaisedGroup = true) : ∃ inside : Text,
    formula.printed = inside.parenthesized ∧ Derives .standard .sum inside formula.meaning

namespace IsPrintedRight

variable {formula : Bracketed} {inside : Text}

/-- A group in parentheses. -/
theorem of_group (whole : formula.printed = inside.parenthesized)
    (derives : Derives .standard .sum inside formula.meaning) : formula.IsPrintedRight where
  signed := by
    rw [whole]
    exact .operand (.group derives)
  group _ := ⟨inside, whole, derives⟩

/-- A formula that is no group. -/
theorem of_signed (noGroup : formula.isRaisedGroup = false)
    (derives : Derives .standard .signed formula.printed formula.meaning) :
    formula.IsPrintedRight where
  signed := derives
  group isGroup := by
    rw [noGroup] at isGroup
    cases isGroup

theorem sum (right : formula.IsPrintedRight) :
    Derives .standard .sum formula.printed formula.meaning :=
  .term (.factor right.signed)

theorem parenthesized (right : formula.IsPrintedRight) :
    Derives .standard .atom formula.printed.parenthesized formula.meaning :=
  .group right.sum

/-- A group in any case. -/
theorem exists_grouped (right : formula.IsPrintedRight) {isGroup : Bool}
    (known : isGroup = true → formula.isRaisedGroup = true) :
    ∃ inside : Text, Text.ofSymbols (Symbol.grouped isGroup (formula.symbols [.times])) =
      inside.parenthesized ∧ Derives .standard .sum inside formula.meaning := by
  cases isGroup with
  | true => exact right.group (known rfl)
  | false => exact ⟨formula.printed, Text.ofSymbols_parenthesized _, right.sum⟩

theorem grouped (right : formula.IsPrintedRight) {isGroup : Bool}
    (known : isGroup = true → formula.isRaisedGroup = true) :
    Derives .standard .atom
      (Text.ofSymbols (Symbol.grouped isGroup (formula.symbols [.times]))) formula.meaning := by
  obtain ⟨inside, whole, derives⟩ := right.exists_grouped known
  rw [whole]
  exact .group derives

end IsPrintedRight

theorem isRaisedGroup_of_isGroup {formula : Bracketed} (isGroup : formula.isGroup = true) :
    formula.isRaisedGroup = true := by
  cases formula with
  | joined _ _ _ | fraction _ _ | root _ | indexedRoot _ _ => rfl
  | _ => cases isGroup

theorem derives_letter (symbol : Letter) :
    Derives .standard .atom [symbol.char] (.name [symbol.char]) := by
  have isValue : Vocabulary.standard.isValue [symbol.char] = true := by
    rw [Vocabulary.isValue, Vocabulary.kindOf?_standard_single]
    rfl
  exact .name (by simp [Text.isName, symbol.isAlpha]) isValue

theorem derives_one : Derives .standard .atom "1".toList (.number "1".toList) :=
  .number (by decide)

theorem Function.derives_call (function : Function) {argument : Text} {inside : Expression}
    (derives : Derives .standard .sum argument inside) :
    Derives .standard .atom (function.target ++ argument.parenthesized)
      (.call function.target inside) := by
  refine .call ?_ ?_ derives
  · cases function <;> decide
  · cases function <;> decide +kernel

theorem derives_call {name argument : Text} {inside : Expression}
    (isName : name ∈ ["sqrt".toList, "abs".toList, "exp".toList])
    (derives : Derives .standard .sum argument inside) :
    Derives .standard .atom (name ++ argument.parenthesized) (.call name inside) := by
  have facts : ∀ name ∈ ["sqrt".toList, "abs".toList, "exp".toList],
      Text.isName name = true ∧ Vocabulary.standard.kindOf? name = some .function := by
    decide +kernel
  obtain ⟨spelled, isFunction⟩ := facts name isName
  exact .call spelled isFunction derives

/-- Two operands put together by their joint. -/
theorem isPrintedRight_joined (joint : Joint) {left right : Bracketed}
    (first : left.IsPrintedRight) (second : right.IsPrintedRight) :
    (joined joint left right).IsPrintedRight := by
  have sign : Text.ofSymbols [.times] = ['*'] := rfl
  cases joint with
  | sum =>
      refine .of_group (Text.ofSymbols_parenthesized _) ?_
      rw [Text.ofSymbols_binary]
      exact .sum first.sum rfl (.factor second.signed)
  | difference =>
      refine .of_group (Text.ofSymbols_parenthesized _) ?_
      rw [Text.ofSymbols_binary]
      exact .sum first.sum rfl (.factor second.signed)
  | product =>
      refine .of_group (Text.ofSymbols_parenthesized _) ?_
      rw [Text.ofSymbols_binary]
      exact .term (.product (.factor first.signed) rfl second.signed)
  | juxtaposition =>
      refine .of_group (Text.ofSymbols_parenthesized _) ?_
      rw [Text.ofSymbols_append, Text.ofSymbols_append, Text.ofSymbols_parenthesized,
        Text.ofSymbols_parenthesized, sign]
      exact .term (.product (.factor (.operand first.parenthesized)) rfl
        (.operand second.parenthesized))

/-- The translation of a formula means what the formula means. -/
theorem isPrintedRight (formula : Bracketed) : formula.IsPrintedRight := by
  induction formula with
  | numeral digits =>
      have same : (numeral digits).printed = digits.text := List.append_nil _
      refine .of_signed rfl ?_
      rw [same]
      exact .operand (.number digits.isNumeral)
  | letter symbol => exact .of_signed rfl (.operand (derives_letter symbol))
  | pi =>
      have isValue : Vocabulary.standard.isValue "pi".toList = true := by decide +kernel
      exact .of_signed rfl (.operand (.name (by decide) isValue))
  | joined joint left right ihLeft ihRight => exact isPrintedRight_joined joint ihLeft ihRight
  | fraction numerator denominator ihNumerator ihDenominator =>
      refine .of_group (Text.ofSymbols_parenthesized _) ?_
      rw [Text.ofSymbols_binary]
      exact .term (.product (.factor (.operand (ihNumerator.grouped isRaisedGroup_of_isGroup))) rfl
        (.operand (ihDenominator.grouped isRaisedGroup_of_isGroup)))
  | root radicand ih =>
      refine .of_group (Text.ofSymbols_parenthesized _) ?_
      rw [Text.ofSymbols_call, Text.ofSymbols_parenthesized]
      exact (Derives.operand (derives_call (by decide) ih.sum)).sum_of_signed
  | indexedRoot index radicand ihIndex ihRadicand =>
      refine .of_group (Text.ofSymbols_parenthesized _) ?_
      rw [Text.ofSymbols_binary, Text.ofSymbols_parenthesized, Text.ofSymbols_binary]
      refine Derives.sum_of_signed (.power (ihRadicand.grouped isRaisedGroup_of_isGroup) ?_)
      exact .operand (.group (.term (.product (.factor (.operand derives_one)) rfl
        (.operand (ihIndex.grouped isRaisedGroup_of_isGroup)))))
  | absolute inside ih =>
      refine .of_signed rfl ?_
      rw [printed, symbols, Text.ofSymbols_call, Text.ofSymbols_parenthesized]
      exact .operand (derives_call (by decide) ih.sum)
  | application function argument ih =>
      have call := function.derives_call ih.sum
      have printedCall : Text.ofSymbols (.function function.target ::
          Symbol.parenthesized (argument.symbols [.times])) =
            function.target ++ argument.printed.parenthesized := by
        rw [Text.ofSymbols_call, Text.ofSymbols_parenthesized]
        rfl
      cases isReciprocal : function.reciprocal? with
      | some ratio =>
          have whole : (application function argument).printed = Text.parenthesized
              ("1".toList ++ '/' :: (function.target ++ argument.printed.parenthesized)) := by
            simp only [printed, symbols, isReciprocal]
            rw [Text.ofSymbols_parenthesized, Text.ofSymbols_binary, printedCall]
            rfl
          refine .of_group whole ?_
          simp only [meaning, Function.applied, isReciprocal]
          exact .term (.product (.factor (.operand derives_one)) rfl (.operand call))
      | none =>
          refine .of_signed (by simp [isRaisedGroup, isReciprocal]) ?_
          simp only [printed, symbols, meaning, Function.applied, isReciprocal, printedCall]
          exact .operand call
  | letterPower base exponent ih =>
      by_cases euler : base.char = 'e'
      · obtain ⟨inside, whole, derives⟩ := ih.exists_grouped id
        refine .of_signed (by simp [isRaisedGroup, euler]) ?_
        simp only [printed, symbols, meaning, if_pos euler]
        rw [Text.ofSymbols_call, whole]
        exact .operand (derives_call (by decide) derives)
      · have whole : (letterPower base exponent).printed =
            Text.parenthesized ([base.char] ++ '^' ::
              Text.ofSymbols (Symbol.grouped exponent.isRaisedGroup (exponent.symbols [.times]))) := by
          simp only [printed, symbols, if_neg euler]
          rw [Text.ofSymbols_parenthesized, Text.ofSymbols_binary]
          rfl
        refine .of_group whole ?_
        simp only [meaning, if_neg euler]
        exact Derives.sum_of_signed (.power (derives_letter base) (.operand (ih.grouped id)))
  | groupPower base exponent ihBase ihExponent =>
      refine .of_signed rfl ?_
      rw [printed, symbols, Text.ofSymbols_binary, Text.ofSymbols_parenthesized,
        Text.ofSymbols_parenthesized]
      exact .power ihBase.parenthesized (.operand ihExponent.parenthesized)

theorem parse?_printed (formula : Bracketed) :
    parse? .standard formula.printed = some formula.meaning :=
  parse?_of_derives (isPrintedRight formula).sum

/-! ## The translation -/

/-- No issue is found in a bracketed formula. -/
theorem isAccepted_latex (formula : Bracketed) : Translator.IsAccepted formula.latex := by
  have faultless : Text.IsFaultless [] none (formula.latex ++ []) :=
    isFaultless_latex formula rfl fun _ => .nil
  rw [List.append_nil] at faultless
  rw [Translator.IsAccepted, Translator.issues, (isTight_latex formula).trim,
    Text.issues_eq_nil_of_isFaultless faultless]
  rfl

theorem linear_normal (formula : Bracketed) :
    formula.latex.normal.linear .standard .standard = (formula.line .raised).flatten := by
  rw [Text.linear, normal_latex, resolveStructures_normal, attachArguments_line,
    expandParked_line, resolveExponents_line]

/-- In strict mode a bracketed formula is translated without warnings to an expression with the
meaning of the formula. -/
theorem exists_report_latex (formula : Bracketed) : ∃ expression,
    Translator.report {} formula.latex = .ok ⟨expression, []⟩ ∧
      parse? .standard expression = some formula.meaning := by
  have names := (multiplies_symbols Symbol.joinsFactors_joinsNames rfl formula).whole
  have products := (multiplies_symbols Symbol.joinsFactors_isJuxtaposed rfl formula).whole
  refine ⟨formula.printed, ?_, parse?_printed formula⟩
  exact Translator.report_of_spells (isAccepted_latex formula) (linear_normal formula)
    (spellsItself formula).line.whole names products

end Bracketed

end TexCalc
