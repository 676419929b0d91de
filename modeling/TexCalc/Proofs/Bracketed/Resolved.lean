import TexCalc.Proofs.Bracketed.Shape
import TexCalc.Proofs.Linear.Structures
import TexCalc.Proofs.Tex.Arguments

/-!
# Fractions and roots of a bracketed formula

Without its fractions and roots a bracketed formula is on one line: each of them is in
parentheses, and the parts of a quotient and the base of a power are in parentheses of their own
unless they are groups already.
-/

namespace TexCalc

namespace Bracketed

variable {rest result : Text}

theorem resolves_baseChars {text : Text} (all : text.all isBaseChar = true)
    (resolves : Structure.Resolves rest result) :
    Structure.Resolves (text ++ rest) (text ++ result) := by
  induction text with
  | nil => exact resolves
  | cons c text ih =>
      rw [List.all_cons, Bool.and_eq_true] at all
      have plain : c ≠ '\\' := by
        rintro rfl
        cases all.1
      exact (ih all.2).cons plain

theorem resolves_parenthesized {text replaced : Text}
    (resolves : Structure.Resolves (text ++ ')' :: rest) (replaced ++ ')' :: result)) :
    Structure.Resolves (text.parenthesized ++ rest) (replaced.parenthesized ++ result) := by
  rw [Text.parenthesized_append, Text.parenthesized_append]
  exact resolves.cons (by decide)

theorem resolves_braced {text replaced : Text}
    (resolves : Structure.Resolves (text ++ '\x7d' :: rest) (replaced ++ '\x7d' :: result)) :
    Structure.Resolves (text.braced ++ rest) (replaced.braced ++ result) := by
  rw [Text.braced_append, Text.braced_append]
  exact resolves.cons (by decide)

/-! ## Commands with arguments in braces -/

section

variable (numerator denominator index radicand : Bracketed)

theorem read?_fraction :
    Structure.read? "frac".toList ((numerator.line .linear).braced ++
        ((denominator.line .linear).braced ++ rest)) =
      some (.fraction (numerator.line .linear) (denominator.line .linear), rest) := by
  have isFraction : Command.isFraction "frac".toList = true := by decide
  rw [Structure.read?, if_pos isFraction, Structure.readFraction?,
    Argument.read?_braced (isNeutral_line .linear numerator), Option.bind_some,
    Argument.read?_braced (isNeutral_line .linear denominator), Option.map_some]

theorem linear_fraction :
    (Structure.fraction (numerator.line .linear) (denominator.line .linear)).linear =
      (fraction numerator denominator).line .linear := by
  rw [Structure.linear, wrap_line_linear, wrap_line_linear, line_fraction]

theorem read?_root :
    Structure.read? "sqrt".toList ((radicand.line .linear).braced ++ rest) =
      some (.root (radicand.line .linear), rest) := by
  have noFraction : ¬ Command.isFraction "sqrt".toList = true := by decide
  have isRoot : Command.isRoot "sqrt".toList = true := by decide
  have noIndex : ¬ (Text.skipBlanks ((radicand.line .linear).braced ++ rest)).head? =
      some '[' := by
    rw [Text.braced_append, Text.skipBlanks_cons (by decide)]
    simp
  rw [Structure.read?, if_neg noFraction, if_pos isRoot, Structure.readRoot?, if_neg noIndex,
    Argument.read?_braced (isNeutral_line .linear radicand), Option.map_some]

theorem linear_root :
    (Structure.root (radicand.line .linear)).linear = (root radicand).line .linear := by
  rw [Structure.linear, trim_line, ← line_linear_eq_bare, line_root]

theorem read?_indexedRoot :
    Structure.read? "sqrt".toList
        ('[' :: (index.line .linear ++ ']' :: ((radicand.line .linear).braced ++ rest))) =
      some (.indexedRoot (index.line .linear) (radicand.line .linear), rest) := by
  have noFraction : ¬ Command.isFraction "sqrt".toList = true := by decide
  have isRoot : Command.isRoot "sqrt".toList = true := by decide
  rw [Structure.read?, if_neg noFraction, if_pos isRoot, Structure.readRoot?,
    Text.skipBlanks_cons (by decide), List.head?_cons, if_pos rfl,
    Argument.readOptional?_square (isNeutral_line .linear index), Option.bind_some,
    Argument.read?_braced (isNeutral_line .linear radicand), Option.map_some]

theorem linear_indexedRoot :
    (Structure.indexedRoot (index.line .linear) (radicand.line .linear)).linear =
      (indexedRoot index radicand).line .linear := by
  rw [Structure.linear, wrap_line_linear, wrap_line_linear, line_indexedRoot]

end

/-- Fractions and roots of a formula in front of another text. -/
theorem resolves_normal (formula : Bracketed) (ends : rest.endsRun isBaseChar = true)
    (resolves : Structure.Resolves rest result) :
    Structure.Resolves (formula.normal ++ rest) (formula.line .linear ++ result) := by
  induction formula generalizing rest result with
  | numeral digits => exact resolves_baseChars digits.all_isBaseChar resolves
  | letter symbol =>
      have all : [symbol.char].all isBaseChar = true := by simp [symbol.isBaseChar]
      exact resolves_baseChars all resolves
  | pi =>
      have letters : ("pi".toList).all Char.isAlpha = true := by decide
      exact resolves.word letters (by decide) (by decide)
        (Text.endsRun_mono ends isBaseChar_of_isAlpha)
  | joined joint left right ihLeft ihRight =>
      rw [normal_joined, line_joined]
      cases joint with
      | sum | difference =>
          refine resolves_parenthesized ?_
          simp only [List.append_assoc, List.cons_append]
          refine ihLeft rfl (.cons (by decide) (ihRight rfl (.cons (by decide) resolves)))
      | product =>
          have letters : ("cdot".toList).all Char.isAlpha = true := by decide
          refine resolves_parenthesized ?_
          simp only [Stage.times, Stage.hasNames, List.append_assoc, List.cons_append]
          refine ihLeft rfl (.word letters (by decide) (by decide) rfl ?_)
          exact .cons (by decide) (ihRight rfl (.cons (by decide) resolves))
      | juxtaposition =>
          refine resolves_parenthesized ?_
          rw [List.append_assoc, List.append_assoc]
          refine resolves_parenthesized (ihLeft rfl (.cons (by decide) ?_))
          exact resolves_parenthesized
            (ihRight rfl (.cons (by decide) (.cons (by decide) resolves)))
  | fraction numerator denominator ihNumerator ihDenominator =>
      have letters : ("frac".toList).all Char.isAlpha = true := by decide
      rw [normal_fraction, ← linear_fraction]
      simp only [List.cons_append, List.append_assoc]
      refine .command letters (by decide) (by decide) rfl ?_ (read?_fraction _ _)
      refine resolves_braced (ihNumerator rfl (.cons (by decide) ?_))
      exact resolves_braced (ihDenominator rfl (.cons (by decide) resolves))
  | root radicand ih =>
      have letters : ("sqrt".toList).all Char.isAlpha = true := by decide
      rw [normal_root, ← linear_root]
      simp only [List.cons_append, List.append_assoc]
      refine .command letters (by decide) (by decide) rfl ?_ (read?_root _)
      exact resolves_braced (ih rfl (.cons (by decide) resolves))
  | indexedRoot index radicand ihIndex ihRadicand =>
      have letters : ("sqrt".toList).all Char.isAlpha = true := by decide
      rw [normal_indexedRoot, ← linear_indexedRoot]
      simp only [List.cons_append, List.append_assoc]
      refine .command letters (by decide) (by decide) rfl ?_ (read?_indexedRoot _ _)
      refine .cons (by decide) (ihIndex rfl (.cons (by decide) ?_))
      exact resolves_braced (ihRadicand rfl (.cons (by decide) resolves))
  | absolute inside ih =>
      rw [normal_absolute, line_absolute, List.append_assoc, List.append_assoc]
      refine resolves_baseChars (by decide) (resolves_parenthesized ?_)
      exact ih rfl (.cons (by decide) resolves)
  | application function argument ih =>
      rw [normal_application, line_application_linear]
      simp only [List.cons_append, List.append_assoc]
      refine .word function.all_isAlpha_name function.name_ne_nil ?_ rfl ?_
      · cases function <;> decide
      · exact resolves_parenthesized (ih rfl (.cons (by decide) resolves))
  | letterPower base exponent ih =>
      have all : [base.char].all isBaseChar = true := by simp [base.isBaseChar]
      refine resolves_baseChars all (.cons (by decide) ?_)
      exact resolves_braced (ih rfl (.cons (by decide) resolves))
  | groupPower base exponent ihBase ihExponent =>
      rw [normal_groupPower, line_groupPower]
      simp only [List.cons_append, List.append_assoc]
      refine resolves_parenthesized (ihBase rfl (.cons (by decide) (.cons (by decide) ?_)))
      exact resolves_braced (ihExponent rfl (.cons (by decide) resolves))

/-- A formula without its fractions and roots. -/
theorem resolveStructures_normal (formula : Bracketed) :
    formula.normal.resolveStructures = formula.line .linear := by
  have whole : Structure.Resolves (formula.normal ++ []) (formula.line .linear ++ []) :=
    resolves_normal formula rfl .nil
  rw [List.append_nil, List.append_nil] at whole
  exact Structure.resolveUpTo_of_settles whole.settles

end Bracketed

end TexCalc
