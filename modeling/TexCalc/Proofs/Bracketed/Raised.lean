import TexCalc.Proofs.Bracketed.Shape
import TexCalc.Proofs.Linear.Calls
import TexCalc.Proofs.Linear.Powers

/-!
# Powers of a bracketed formula

The only parked names of a bracketed formula are those of its reciprocal functions, and each has
its argument behind it.  Only a letter has an exponent that is read: behind a group the `^` is left
alone.  The exponent of a letter is a group in braces, so that it ends where it was written to end.
-/

namespace TexCalc

/-! ## Reciprocal functions -/

namespace Bracketed

/-- Neither letters nor digits nor the points of numerals are the mark. -/
theorem mark_notMem_of_baseChars {text : Text} (all : text.all isBaseChar = true) :
    Parked.mark ∉ text := by
  intro isMember
  cases List.all_eq_true.1 all _ isMember

theorem Function.target_eq_base {function : Function} {ratio : Reciprocal}
    (isReciprocal : function.reciprocal? = some ratio) : function.target = ratio.base := by
  cases function <;> cases isReciprocal <;> rfl

theorem Function.all_isAlphanum_target (function : Function) :
    function.target.all Char.isAlphanum = true := by
  cases function <;> decide

variable {rest after text written : Text}

theorem expands_parenthesized
    (expands : Parked.Expands (text ++ ')' :: rest) (written ++ ')' :: after)) :
    Parked.Expands (text.parenthesized ++ rest) (written.parenthesized ++ after) := by
  rw [Text.parenthesized_append, Text.parenthesized_append]
  exact expands.cons (by decide)

theorem expands_braced
    (expands : Parked.Expands (text ++ '\x7d' :: rest) (written ++ '\x7d' :: after)) :
    Parked.Expands (text.braced ++ rest) (written.braced ++ after) := by
  rw [Text.braced_append, Text.braced_append]
  exact expands.cons (by decide)

theorem expands_grouped (isGroup : Bool)
    (inside : ∀ {rest after : Text}, Parked.Expands rest after →
      Parked.Expands (text ++ rest) (written ++ after)) (expands : Parked.Expands rest after) :
    Parked.Expands (grouped isGroup text ++ rest) (grouped isGroup written ++ after) := by
  cases isGroup with
  | true => exact inside expands
  | false => exact expands_parenthesized (inside (expands.cons (by decide)))

/-- The reciprocal functions of a formula in front of another text. -/
theorem expands_line (formula : Bracketed) (expands : Parked.Expands rest after) :
    Parked.Expands (formula.line .renamed ++ rest) (formula.line .expanded ++ after) := by
  induction formula generalizing rest after with
  | numeral digits => exact expands.append (mark_notMem_of_baseChars digits.all_isBaseChar)
  | letter symbol =>
      have all : [symbol.char].all isBaseChar = true := by simp [symbol.isBaseChar]
      exact expands.append (mark_notMem_of_baseChars all)
  | pi => exact .append (by decide) expands
  | joined joint left right ihLeft ihRight =>
      have closed := expands.cons (c := ')') (by decide)
      rw [line_joined, line_joined]
      cases joint with
      | sum | difference =>
          refine expands_parenthesized ?_
          rw [List.append_assoc, List.append_assoc]
          exact ihLeft (.cons (by decide) (ihRight closed))
      | product =>
          refine expands_parenthesized ?_
          simp only [List.append_assoc]
          exact ihLeft (.append (by decide) (ihRight closed))
      | juxtaposition =>
          refine expands_parenthesized ?_
          rw [List.append_assoc, List.append_assoc]
          refine expands_parenthesized (ihLeft (.cons (by decide) ?_))
          exact expands_parenthesized (ihRight (closed.cons (by decide)))
  | fraction numerator denominator ihNumerator ihDenominator =>
      rw [line_fraction, line_fraction]
      refine expands_parenthesized ?_
      rw [List.append_assoc, List.append_assoc]
      refine expands_grouped _ ihNumerator (.cons (by decide) ?_)
      exact expands_grouped _ ihDenominator (expands.cons (by decide))
  | root radicand ih =>
      rw [line_root, line_root]
      refine expands_parenthesized ?_
      rw [List.append_assoc, List.append_assoc]
      refine .append (by decide) (expands_parenthesized (ih (.cons (by decide) ?_)))
      exact expands.cons (by decide)
  | indexedRoot index radicand ihIndex ihRadicand =>
      rw [line_indexedRoot, line_indexedRoot]
      refine expands_parenthesized ?_
      rw [List.append_assoc, List.append_assoc]
      refine expands_grouped _ ihRadicand (.cons (by decide) (expands_parenthesized ?_))
      rw [List.append_assoc, List.append_assoc]
      refine .append (by decide) (expands_grouped _ ihIndex (.cons (by decide) ?_))
      exact expands.cons (by decide)
  | absolute inside ih =>
      rw [line_absolute, line_absolute, List.append_assoc, List.append_assoc]
      exact .append (by decide) (expands_parenthesized (ih (expands.cons (by decide))))
  | application function argument ih =>
      have inside := expands_parenthesized (ih (expands.cons (by decide)))
      rw [line_application_renamed, line_application_expanded]
      simp only [List.cons_append, List.append_assoc]
      refine .cons (by decide) ?_
      cases isReciprocal : function.reciprocal? with
      | none =>
          have name :=
            mark_notMem_of_baseChars (Text.all_isBaseChar function.all_isAlphanum_target)
          simp only [Function.renamed, Function.around, isReciprocal, List.append_assoc]
          exact .append name (.cons (by decide) inside)
      | some ratio =>
          simp only [Function.renamed, Function.around, isReciprocal,
            Function.target_eq_base isReciprocal]
          have spaced : Parked.Expands (' ' :: ((argument.line .renamed).parenthesized ++ rest))
              ([' '] ++ ((argument.line .expanded).parenthesized ++ after)) :=
            .cons (by decide) inside
          exact .reciprocal ratio (isNeutral_line .expanded argument) rfl spaced
  | letterPower base exponent ih =>
      rw [line_letterPower (by decide), line_letterPower (by decide)]
      simp only [List.cons_append]
      have all : [base.char].all isBaseChar = true := by simp [base.isBaseChar]
      refine .append (mark_notMem_of_baseChars all) ?_
      exact .cons (by decide) (expands_braced (ih (expands.cons (by decide))))
  | groupPower base exponent ihBase ihExponent =>
      rw [line_groupPower, line_groupPower, List.append_assoc, List.append_assoc]
      refine expands_parenthesized (ihBase (.cons (by decide) (.cons (by decide) ?_)))
      exact expands_braced (ihExponent (expands.cons (by decide)))

/-- A formula with its reciprocal functions written out. -/
theorem expandParked_line (formula : Bracketed) :
    (formula.line .renamed).expandParked = formula.line .expanded := by
  have whole : Parked.Expands (formula.line .renamed ++ []) (formula.line .expanded ++ []) :=
    expands_line formula .nil
  rw [List.append_nil, List.append_nil] at whole
  exact whole.expandParked_eq

end Bracketed

/-! ## Powers -/

namespace Text

variable {vocabulary : Vocabulary} {text : Text}

/-- A group in braces is an exponent as a whole. -/
theorem exponent?_braced (neutral : text.IsNeutral) (rest : Text) :
    exponent? vocabulary (text.braced ++ rest) = some ⟨text.wrap, rest⟩ := by
  have curly : Bracket.ofArgument? '\x7b' = some .curly := by decide
  have group : Bracket.curly.group? (text ++ '\x7d' :: rest) = some ⟨text, rest⟩ :=
    neutral.group? .curly rest
  rw [braced_append]
  simp only [exponent?, skipBlanks_cons (c := '\x7b') (by decide), curly, group, Option.map_some]

end Text

namespace Bracketed

theorem isEnclosed_grouped (formula : Bracketed) :
    (grouped formula.isRaisedGroup (formula.bare .raised)).isEnclosed = true := by
  obtain ⟨inside, neutral, same⟩ := exists_grouped_eq formula
  rw [same]
  exact Text.isEnclosed_parenthesized neutral

/-- The power of a letter, `e` standing for the base of the exponential. -/
theorem power_letter (base : Letter) (exponent : Bracketed) :
    Text.power [base.char] (exponent.line .raised).wrap =
      (letterPower base exponent).line .raised := by
  have enclosed := isEnclosed_grouped exponent
  rw [wrap_line_raised]
  change _ = if base.char = 'e' then _ else _
  by_cases euler : base.char = 'e'
  · rw [if_pos euler, euler]
    change Text.exponential _ = _
    rw [Text.exponential, if_pos enclosed]
  · have noEuler : Text.beforeEuler? [base.char] = none := by
      simp only [Text.beforeEuler?, List.getLast?_singleton]
      split
      · rename_i same
        exact absurd (Option.some.inj same) euler
      · rfl
    rw [if_neg euler, Text.power, noEuler]
    rfl

variable {rest result text raised : Text}

theorem raises_parenthesized
    (raises : Text.Raises .standard (text ++ ')' :: rest) (raised ++ ')' :: result)) :
    Text.Raises .standard (text.parenthesized ++ rest) (raised.parenthesized ++ result) := by
  rw [Text.parenthesized_append, Text.parenthesized_append]
  exact raises.cons rfl

theorem raises_braced
    (raises : Text.Raises .standard (text ++ '\x7d' :: rest) (raised ++ '\x7d' :: result)) :
    Text.Raises .standard (text.braced ++ rest) (raised.braced ++ result) := by
  rw [Text.braced_append, Text.braced_append]
  exact raises.cons rfl

theorem raises_grouped (formula : Bracketed)
    (inside : ∀ {rest result : Text}, rest.endsRun isBaseChar = true →
      (formula.isGroup = true ∨ rest.beginsScript = false) → Text.Raises .standard rest result →
        Text.Raises .standard (text ++ rest) (raised ++ result))
    (ends : rest.endsRun isBaseChar = true) (raises : Text.Raises .standard rest result) :
    Text.Raises .standard (grouped formula.isGroup text ++ rest)
      (grouped formula.isGroup raised ++ result) := by
  cases isGroup : formula.isGroup with
  | true => exact inside ends (.inl isGroup) raises
  | false => exact raises_parenthesized (inside rfl (.inr rfl) (raises.cons rfl))

theorem raises_quotient (raises : Text.Raises .standard text raised) :
    Text.Raises .standard ("1/".toList ++ text) ("1/".toList ++ raised) := by
  have one : ['1'].all isBaseChar = true := by decide
  change Text.Raises .standard (['1'] ++ '/' :: text) (['1'] ++ '/' :: raised)
  exact .append one rfl rfl (raises.cons rfl)

theorem raises_pi (noScript : rest.beginsScript = false)
    (raises : Text.Raises .standard rest result) :
    Text.Raises .standard (pi.line .expanded ++ rest) (pi.line .raised ++ result) := by
  have letters : ("pi".toList).all isBaseChar = true := by decide
  have name : Text.Raises .standard ("pi".toList ++ ' ' :: rest) ("pi".toList ++ ' ' :: result) :=
    .append letters rfl noScript (raises.cons rfl)
  exact name.cons (c := ' ') rfl

/-- The powers of a formula in front of another text, which is no exponent unless the formula is
a group. -/
theorem raises_line (formula : Bracketed) (ends : rest.endsRun isBaseChar = true)
    (noPower : formula.isGroup = true ∨ rest.beginsScript = false)
    (raises : Text.Raises .standard rest result) :
    Text.Raises .standard (formula.line .expanded ++ rest) (formula.line .raised ++ result) := by
  induction formula generalizing rest result with
  | numeral digits =>
      have noScript := noPower.resolve_left Bool.false_ne_true
      exact raises.append digits.all_isBaseChar ends noScript
  | letter symbol =>
      have all : [symbol.char].all isBaseChar = true := by simp [symbol.isBaseChar]
      have noScript := noPower.resolve_left Bool.false_ne_true
      exact raises.append all ends noScript
  | pi => exact raises_pi (noPower.resolve_left Bool.false_ne_true) raises
  | joined joint left right ihLeft ihRight =>
      have closed := raises.cons (c := ')') rfl
      rw [line_joined, line_joined]
      cases joint with
      | sum | difference =>
          refine raises_parenthesized ?_
          rw [List.append_assoc, List.append_assoc]
          exact ihLeft rfl (.inr rfl) (.cons rfl (ihRight rfl (.inr rfl) closed))
      | product =>
          refine raises_parenthesized ?_
          rw [List.append_assoc, List.append_assoc, List.append_assoc, List.append_assoc]
          exact ihLeft rfl (.inr rfl) (.cons rfl (.cons rfl (ihRight rfl (.inr rfl) closed)))
      | juxtaposition =>
          refine raises_parenthesized ?_
          rw [List.append_assoc, List.append_assoc]
          refine raises_parenthesized (ihLeft rfl (.inr rfl) (.cons rfl ?_))
          exact raises_parenthesized (ihRight rfl (.inr rfl) (closed.cons rfl))
  | fraction numerator denominator ihNumerator ihDenominator =>
      rw [line_fraction, line_fraction]
      refine raises_parenthesized ?_
      rw [List.append_assoc, List.append_assoc]
      refine raises_grouped numerator ihNumerator rfl (.cons rfl ?_)
      exact raises_grouped denominator ihDenominator rfl (raises.cons rfl)
  | root radicand ih =>
      rw [line_root, line_root]
      refine raises_parenthesized ?_
      rw [List.append_assoc, List.append_assoc]
      refine .append (by decide) rfl rfl (raises_parenthesized (ih rfl (.inr rfl) (.cons rfl ?_)))
      exact raises.cons rfl
  | indexedRoot index radicand ihIndex ihRadicand =>
      rw [line_indexedRoot, line_indexedRoot]
      refine raises_parenthesized ?_
      rw [List.append_assoc, List.append_assoc]
      refine raises_grouped radicand ihRadicand rfl (.cons rfl (raises_parenthesized ?_))
      rw [List.append_assoc, List.append_assoc]
      refine raises_quotient (raises_grouped index ihIndex rfl (.cons rfl ?_))
      exact raises.cons rfl
  | absolute inside ih =>
      rw [line_absolute, line_absolute, List.append_assoc, List.append_assoc]
      refine .append (by decide) rfl rfl (raises_parenthesized ?_)
      exact ih rfl (.inr rfl) (raises.cons rfl)
  | application function argument ih =>
      have name : function.target.all isBaseChar = true :=
        Text.all_isBaseChar function.all_isAlphanum_target
      have inside {rest result : Text} (raises : Text.Raises .standard rest result) :=
        raises_parenthesized (ih rfl (.inr rfl) (raises.cons (c := ')') rfl))
      rw [line_application_expanded, line_application_raised, List.cons_append, List.cons_append]
      refine .cons rfl ?_
      cases isReciprocal : function.reciprocal? with
      | none =>
          simp only [Function.around, isReciprocal, List.append_assoc, List.cons_append]
          exact .append name rfl rfl (.cons rfl (inside raises))
      | some ratio =>
          simp only [Function.around, isReciprocal]
          refine raises_parenthesized ?_
          rw [List.append_assoc, List.append_assoc, List.append_assoc, List.append_assoc]
          exact raises_quotient (.append name rfl rfl (inside (raises.cons rfl)))
  | letterPower base exponent ih =>
      have all : [base.char].all isBaseChar = true := by simp [base.isBaseChar]
      have script := raises_braced (ih rfl (.inr rfl) (raises.cons (c := '\x7d') rfl))
      have power := script.power all (List.cons_ne_nil _ _)
        (Text.exponent?_braced (isNeutral_line .raised exponent) result)
      rw [line_letterPower (by decide), ← power_letter]
      exact power
  | groupPower base exponent ihBase ihExponent =>
      rw [line_groupPower, line_groupPower, List.append_assoc, List.append_assoc]
      refine raises_parenthesized (ihBase rfl (.inr rfl) (.cons rfl (.cons rfl ?_)))
      exact raises_braced (ihExponent rfl (.inr rfl) (raises.cons rfl))

/-- A formula with its powers in their final form. -/
theorem resolveExponents_line (formula : Bracketed) :
    (formula.line .expanded).resolveExponents .standard = formula.line .raised := by
  have whole : Text.Raises .standard (formula.line .expanded ++ []) (formula.line .raised ++ []) :=
    raises_line formula rfl (.inr rfl) .nil
  rw [List.append_nil, List.append_nil] at whole
  exact whole

end Bracketed

end TexCalc
