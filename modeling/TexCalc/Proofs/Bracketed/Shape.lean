import TexCalc.Proofs.Bracketed.Formula
import TexCalc.Proofs.Target.Grammar
import TexCalc.Proofs.Tex.Arguments
import TexCalc.Proofs.Text.Characters
import TexCalc.Proofs.Text.Neutral

/-!
# The shape of a bracketed formula

In each of its forms a bracketed formula closes all brackets that it opens, and begins and
ends with a visible character when the blanks around names are left aside.  Whether it is one
group in parentheses is seen from the tree.
-/

namespace TexCalc

/-- No letter, digit or point is a bracket or a backslash. -/
theorem isMarkup_eq_false_of_isBaseChar {c : Char} (base : isBaseChar c = true) :
    Text.isMarkup c = false := by
  cases markup : Text.isMarkup c with
  | false => rfl
  | true =>
      simp only [Text.isMarkup, List.mem_cons, List.not_mem_nil, or_false, decide_eq_true_eq]
        at markup
      rcases markup with rfl | rfl | rfl | rfl | rfl | rfl | rfl <;> exact absurd base (by decide)

namespace Numeral

theorem text_ne_nil (digits : Numeral) : digits.text ≠ [] := by
  obtain ⟨c, run, same, _, _⟩ := Text.exists_of_isNumeral digits.isNumeral
  rw [same]
  exact List.cons_ne_nil c run

theorem all_isNumeralChar (digits : Numeral) : digits.text.all isNumeralChar = true := by
  obtain ⟨c, run, same, digit, all⟩ := Text.exists_of_isNumeral digits.isNumeral
  rw [same, List.all_cons, all, isNumeralChar, digit]
  rfl

theorem all_isBaseChar (digits : Numeral) : digits.text.all isBaseChar = true := by
  rw [List.all_eq_true]
  intro c isMember
  exact isBaseChar_of_isNumeralChar c (List.all_eq_true.1 digits.all_isNumeralChar c isMember)

end Numeral

namespace Letter

theorem isBaseChar (letter : Letter) : isBaseChar letter.char = true := by
  simp [TexCalc.isBaseChar, Char.isAlphanum, letter.isAlpha]

theorem ne_parenthesis (letter : Letter) : letter.char ≠ '(' := by
  intro same
  have alpha := letter.isAlpha
  rw [same] at alpha
  cases alpha

end Letter

namespace Text

theorem IsNeutral.of_baseChars {text : Text} (all : text.all isBaseChar = true) :
    text.IsNeutral := by
  apply IsNeutral.of_plain
  rw [List.all_eq_true] at all ⊢
  intro c isMember
  rw [isMarkup_eq_false_of_isBaseChar (all c isMember)]
  rfl

theorem IsTight.of_baseChars {text : Text} (nonempty : text ≠ [])
    (all : text.all isBaseChar = true) : text.IsTight := by
  apply IsTight.of_visible nonempty
  rw [List.all_eq_true] at all ⊢
  intro c isMember
  rw [isBlank_eq_false_of_isBaseChar (all c isMember)]
  rfl

end Text

namespace Bracketed

section Forms

variable (stage : Stage)

theorem line_joined (joint : Joint) (left right : Bracketed) :
    (joined joint left right).line stage =
      joint.between stage.times (left.line stage) (right.line stage) := by
  cases stage <;> rfl

theorem line_fraction (numerator denominator : Bracketed) :
    (fraction numerator denominator).line stage =
      Text.parenthesized (grouped numerator.isGroup (numerator.line stage) ++
        '/' :: grouped denominator.isGroup (denominator.line stage)) := by
  cases stage <;> rfl

theorem line_root (radicand : Bracketed) :
    (root radicand).line stage =
      Text.parenthesized ("sqrt".toList ++ (radicand.line stage).parenthesized) := by
  cases stage <;> rfl

theorem line_indexedRoot (index radicand : Bracketed) :
    (indexedRoot index radicand).line stage =
      Text.parenthesized (grouped radicand.isGroup (radicand.line stage) ++
        '^' :: Text.parenthesized ("1/".toList ++ grouped index.isGroup (index.line stage))) := by
  cases stage <;> rfl

theorem line_absolute (inside : Bracketed) :
    (absolute inside).line stage = "abs".toList ++ (inside.line stage).parenthesized := by
  cases stage <;> rfl

theorem line_application_linear (function : Function) (argument : Bracketed) :
    (application function argument).line .linear =
      '\\' :: (function.name ++ (argument.line .linear).parenthesized) :=
  rfl

theorem line_application_renamed (function : Function) (argument : Bracketed) :
    (application function argument).line .renamed =
      ' ' :: (function.renamed ++ ' ' :: (argument.line .renamed).parenthesized) :=
  rfl

theorem line_application_expanded (function : Function) (argument : Bracketed) :
    (application function argument).line .expanded =
      ' ' :: function.around (argument.line .expanded) .expanded :=
  rfl

theorem line_application_raised (function : Function) (argument : Bracketed) :
    (application function argument).line .raised =
      ' ' :: function.around (argument.line .raised) .raised :=
  rfl

theorem line_letterPower {stage : Stage} (notRaised : stage ≠ .raised) (base : Letter)
    (exponent : Bracketed) : (letterPower base exponent).line stage =
      base.char :: '^' :: (exponent.line stage).braced := by
  cases stage with
  | raised => exact absurd rfl notRaised
  | _ => rfl

theorem line_groupPower (base exponent : Bracketed) :
    (groupPower base exponent).line stage =
      (base.line stage).parenthesized ++ '^' :: (exponent.line stage).braced := by
  cases stage <;> rfl

end Forms

theorem Function.all_isAlpha_name (function : Function) :
    function.name.all Char.isAlpha = true := by
  cases function <;> rfl

theorem Function.name_ne_nil (function : Function) : function.name ≠ [] := by
  cases function <;> exact List.cons_ne_nil _ _

theorem Joint.isNeutral_between {times left right : Text} (joint : Joint)
    (sign : times.IsNeutral) (first : left.IsNeutral) (second : right.IsNeutral) :
    (joint.between times left right).IsNeutral := by
  cases joint with
  | sum => exact (first.append (second.cons rfl)).parenthesized
  | difference => exact (first.append (second.cons rfl)).parenthesized
  | product => exact (first.append (sign.append second)).parenthesized
  | juxtaposition => exact (first.parenthesized.append second.parenthesized).parenthesized

theorem isNeutral_grouped {text : Text} (isGroup : Bool) (neutral : text.IsNeutral) :
    (grouped isGroup text).IsNeutral := by
  cases isGroup with
  | true => exact neutral
  | false => exact neutral.parenthesized

theorem Function.isNeutral_around {argument : Text} (function : Function) (stage : Stage)
    (neutral : argument.IsNeutral) : (function.around argument stage).IsNeutral := by
  have inside := neutral.parenthesized
  cases stage with
  | linear =>
      have command : Text.IsNeutral ('\\' :: function.name) := by
        cases function <;> exact .control _ (.of_plain (by decide))
      exact command.append inside
  | renamed =>
      have name : function.renamed.IsNeutral := by
        cases function <;> exact .of_plain (by decide)
      exact name.append (inside.cons rfl)
  | expanded | raised =>
      have name : function.target.IsNeutral := by
        cases function <;> exact .of_plain (by decide)
      have one : Text.IsNeutral "1/".toList := .of_plain (by decide)
      simp only [around]
      split
      · exact (one.append (name.append inside)).parenthesized
      · exact name.append (inside.cons rfl)

theorem isNeutral_padded {text : Text} (stage : Stage) (formula : Bracketed)
    (neutral : text.IsNeutral) : (formula.padded stage text).IsNeutral := by
  unfold padded
  split
  · exact (neutral.append (.of_plain (by decide))).cons rfl
  · exact neutral.cons rfl
  · exact neutral

/-- In every form the brackets of a formula are closed. -/
theorem isNeutral_bare (stage : Stage) (formula : Bracketed) :
    (formula.bare stage).IsNeutral := by
  have times : stage.times.IsNeutral := by
    cases stage with
    | linear => exact .control _ (.of_plain (by decide))
    | _ => exact .of_plain (by decide)
  have one : Text.IsNeutral "1/".toList := .of_plain (by decide)
  have name : Text.IsNeutral "sqrt".toList := .of_plain (by decide)
  induction formula with
  | numeral digits => exact .of_baseChars digits.all_isBaseChar
  | letter symbol => exact .cons (isMarkup_eq_false_of_isBaseChar symbol.isBaseChar) .nil
  | pi =>
      cases stage with
      | linear => exact .control _ (.of_plain (by decide))
      | _ => exact .of_plain (by decide)
  | joined joint left right ihLeft ihRight =>
      exact joint.isNeutral_between times (isNeutral_padded stage left ihLeft)
        (isNeutral_padded stage right ihRight)
  | fraction numerator denominator ihNumerator ihDenominator =>
      exact ((isNeutral_grouped _ (isNeutral_padded stage numerator ihNumerator)).append
        ((isNeutral_grouped _ (isNeutral_padded stage denominator ihDenominator)).cons
          rfl)).parenthesized
  | root radicand ih =>
      exact (name.append (isNeutral_padded stage radicand ih).parenthesized).parenthesized
  | indexedRoot index radicand ihIndex ihRadicand =>
      exact ((isNeutral_grouped _ (isNeutral_padded stage radicand ihRadicand)).append
        ((one.append (isNeutral_grouped _
          (isNeutral_padded stage index ihIndex))).parenthesized.cons rfl)).parenthesized
  | absolute inside ih =>
      have abs : Text.IsNeutral "abs".toList := .of_plain (by decide)
      exact abs.append (isNeutral_padded stage inside ih).parenthesized
  | application function argument ih =>
      exact function.isNeutral_around stage (isNeutral_padded stage argument ih)
  | letterPower base exponent ih =>
      have plain := isMarkup_eq_false_of_isBaseChar base.isBaseChar
      have exponential : Text.IsNeutral "exp".toList := .of_plain (by decide)
      rw [bare]
      split
      · split
        · exact exponential.append (isNeutral_grouped _ ih)
        · exact (((isNeutral_grouped _ ih).cons rfl).cons plain).parenthesized
      · exact ((isNeutral_padded stage exponent ih).braced.cons rfl).cons plain
  | groupPower base exponent ihBase ihExponent =>
      exact (isNeutral_padded stage base ihBase).parenthesized.append
        ((isNeutral_padded stage exponent ihExponent).braced.cons rfl)

theorem isNeutral_line (stage : Stage) (formula : Bracketed) :
    (formula.line stage).IsNeutral :=
  isNeutral_padded stage formula (isNeutral_bare stage formula)

/-- The brackets of a formula as it is written are closed. -/
theorem isNeutral_latex (formula : Bracketed) : formula.latex.IsNeutral := by
  have times : Text.IsNeutral ('\\' :: ("cdot".toList ++ [' '])) := .control _ (.of_plain (by decide))
  have fraction : Text.IsNeutral ('\\' :: "frac".toList) := .control _ (.of_plain (by decide))
  have root : Text.IsNeutral ('\\' :: "sqrt".toList) := .control _ (.of_plain (by decide))
  have left : Text.IsNeutral ('\\' :: "left".toList) := .control _ (.of_plain (by decide))
  have right : Text.IsNeutral ('\\' :: "right".toList) := .control _ (.of_plain (by decide))
  have bar : Text.IsNeutral ['|'] := .of_plain (by decide)
  induction formula with
  | numeral digits => exact .of_baseChars digits.all_isBaseChar
  | letter symbol => exact .cons (isMarkup_eq_false_of_isBaseChar symbol.isBaseChar) .nil
  | pi => exact .control _ (.of_plain (by decide))
  | joined joint left right ihLeft ihRight => exact joint.isNeutral_between times ihLeft ihRight
  | fraction numerator denominator ihNumerator ihDenominator =>
      exact fraction.append (ihNumerator.braced.append ihDenominator.braced)
  | root radicand ih => exact root.append ih.braced
  | indexedRoot index radicand ihIndex ihRadicand =>
      exact root.append (ihIndex.enclosed_append .square ihRadicand.braced)
  | absolute inside ih =>
      exact left.append ((ih.append (right.append bar)).cons rfl)
  | application function argument ih =>
      have command : Text.IsNeutral ('\\' :: function.name) := by
        cases function <;> exact .control _ (.of_plain (by decide))
      exact command.append (left.append (ih.append right).parenthesized)
  | letterPower base exponent ih =>
      exact (ih.braced.cons rfl).cons (isMarkup_eq_false_of_isBaseChar base.isBaseChar)
  | groupPower base exponent ihBase ihExponent =>
      exact ihBase.parenthesized.append (ihExponent.braced.cons rfl)

/-! ## Groups and ends -/

theorem Joint.exists_between_eq {times left right : Text} (joint : Joint)
    (sign : times.IsNeutral) (first : left.IsNeutral) (second : right.IsNeutral) :
    ∃ inside, Text.IsNeutral inside ∧ joint.between times left right = inside.parenthesized := by
  cases joint with
  | sum => exact ⟨_, first.append (second.cons rfl), rfl⟩
  | difference => exact ⟨_, first.append (second.cons rfl), rfl⟩
  | product => exact ⟨_, first.append (sign.append second), rfl⟩
  | juxtaposition => exact ⟨_, first.parenthesized.append second.parenthesized, rfl⟩

theorem Stage.isNeutral_times (stage : Stage) : stage.times.IsNeutral := by
  cases stage with
  | linear => exact .control _ (.of_plain (by decide))
  | _ => exact .of_plain (by decide)

/-- A formula that is a group has a neutral text between its parentheses. -/
theorem exists_line_eq_of_isGroup (stage : Stage) {formula : Bracketed}
    (isGroup : formula.isGroup = true) :
    ∃ inside, Text.IsNeutral inside ∧ formula.line stage = inside.parenthesized := by
  have one : Text.IsNeutral "1/".toList := .of_plain (by decide)
  have name : Text.IsNeutral "sqrt".toList := .of_plain (by decide)
  have part (formula : Bracketed) : (grouped formula.isGroup (formula.line stage)).IsNeutral :=
    isNeutral_grouped _ (isNeutral_line stage formula)
  cases formula with
  | joined joint left right =>
      rw [line_joined]
      exact joint.exists_between_eq stage.isNeutral_times (isNeutral_line stage left)
        (isNeutral_line stage right)
  | fraction numerator denominator =>
      rw [line_fraction]
      exact ⟨_, (part numerator).append ((part denominator).cons rfl), rfl⟩
  | root radicand =>
      rw [line_root]
      exact ⟨_, name.append (isNeutral_line stage radicand).parenthesized, rfl⟩
  | indexedRoot index radicand =>
      rw [line_indexedRoot]
      exact ⟨_, (part radicand).append ((one.append (part index)).parenthesized.cons rfl), rfl⟩
  | _ => cases isGroup

theorem bare_eq_line_of_isGroup (stage : Stage) {formula : Bracketed}
    (isGroup : formula.isGroup = true) : formula.bare stage = formula.line stage := by
  cases formula with
  | joined _ _ _ | fraction _ _ | root _ | indexedRoot _ _ => cases stage <;> rfl
  | _ => cases isGroup

/-- The same when powers have their final form. -/
theorem exists_bare_eq_of_isRaisedGroup {formula : Bracketed}
    (isGroup : formula.isRaisedGroup = true) :
    ∃ inside, Text.IsNeutral inside ∧ formula.bare .raised = inside.parenthesized := by
  have one : Text.IsNeutral "1/".toList := .of_plain (by decide)
  cases formula with
  | application function argument =>
      obtain ⟨ratio, isReciprocal⟩ := Option.isSome_iff_exists.1 isGroup
      have target : function.target.IsNeutral := by
        cases function <;> exact .of_plain (by decide)
      refine ⟨_, one.append (target.append (isNeutral_line .raised argument).parenthesized), ?_⟩
      simp only [bare, Function.around, isReciprocal, line]
  | letterPower base exponent =>
      have plain := isMarkup_eq_false_of_isBaseChar base.isBaseChar
      have noEuler : base.char ≠ 'e' := by simpa [isRaisedGroup] using isGroup
      refine ⟨_, ((isNeutral_grouped exponent.isRaisedGroup
        (isNeutral_bare .raised exponent)).cons (c := '^') rfl).cons plain, ?_⟩
      rw [bare, if_pos rfl, if_neg noEuler]
  | joined _ _ _ | fraction _ _ | root _ | indexedRoot _ _ =>
      rw [bare_eq_line_of_isGroup .raised rfl]
      exact exists_line_eq_of_isGroup .raised rfl
  | _ => cases isGroup

/-- The group that an exponent is, or that is put around it. -/
theorem exists_grouped_eq (formula : Bracketed) :
    ∃ inside, Text.IsNeutral inside ∧
      grouped formula.isRaisedGroup (formula.bare .raised) = inside.parenthesized := by
  cases isGroup : formula.isRaisedGroup with
  | true => exact exists_bare_eq_of_isRaisedGroup isGroup
  | false => exact ⟨_, isNeutral_bare .raised formula, rfl⟩

theorem isTight_grouped (formula : Bracketed) :
    (grouped formula.isRaisedGroup (formula.bare .raised)).IsTight := by
  obtain ⟨inside, _, same⟩ := exists_grouped_eq formula
  rw [same]
  exact .parenthesized inside

theorem Function.isTight_around (function : Function) (argument : Text) (stage : Stage) :
    (function.around argument stage).IsTight := by
  have inside := Text.IsTight.parenthesized argument
  cases stage with
  | linear =>
      have name : function.name.IsTight := by
        cases function <;> exact .of_visible (by decide) (by decide)
      exact (name.append inside).cons (by decide)
  | renamed =>
      have name : function.renamed.IsTight := by
        cases function <;> exact .of_visible (by decide) (by decide)
      exact name.append_cons inside
  | expanded | raised =>
      have name : function.target.IsTight := by
        cases function <;> exact .of_visible (by decide) (by decide)
      simp only [around]
      split
      · exact .parenthesized _
      · exact name.append_cons inside

/-- Blanks around the names apart, a formula neither begins nor ends with a blank. -/
theorem isTight_bare (stage : Stage) (formula : Bracketed) : (formula.bare stage).IsTight := by
  have script (exponent : Text) : Text.IsTight ('^' :: exponent.braced) :=
    (Text.IsTight.braced exponent).cons (by decide)
  have visible (letter : Letter) : isBlank letter.char = false :=
    isBlank_eq_false_of_isBaseChar letter.isBaseChar
  cases formula with
  | numeral digits => exact .of_baseChars digits.text_ne_nil digits.all_isBaseChar
  | letter symbol => exact .single (visible symbol)
  | pi => cases stage <;> exact .of_visible (by decide) (by decide)
  | joined joint left right => cases joint <;> exact .parenthesized _
  | fraction numerator denominator => exact .parenthesized _
  | root radicand => exact .parenthesized _
  | indexedRoot index radicand => exact .parenthesized _
  | absolute inside =>
      have abs : Text.IsTight "abs".toList := .of_visible (by decide) (by decide)
      exact abs.append (.parenthesized _)
  | application function argument => exact function.isTight_around _ stage
  | letterPower base exponent =>
      have exponential : Text.IsTight "exp".toList := .of_visible (by decide) (by decide)
      rw [bare]
      split
      · rename_i raised
        subst raised
        split
        · exact exponential.append (isTight_grouped exponent)
        · exact .parenthesized _
      · exact (script _).cons (visible base)
  | groupPower base exponent => exact (Text.IsTight.parenthesized _).append (script _)

/-- Trimming takes away the blanks around names and nothing else. -/
theorem trim_line (stage : Stage) (formula : Bracketed) :
    (formula.line stage).trim = formula.bare stage := by
  have tight := isTight_bare stage formula
  have one : Text.isAllBlank [' '] = true := by decide
  unfold line padded
  split
  · exact tight.trim_append one one
  · have nothing : Text.isAllBlank [] = true := rfl
    have trimmed := tight.trim_append one nothing
    rwa [List.append_nil] at trimmed
  · exact tight.trim

/-! ## Groups in parentheses -/

theorem isEnclosed_line {stage : Stage} {formula : Bracketed} {inside : Text}
    (neutral : inside.IsNeutral) (group : formula.bare stage = inside.parenthesized) :
    (formula.line stage).isEnclosed = true := by
  have trimmed : (formula.bare stage).trim = formula.bare stage := (isTight_bare stage formula).trim
  have enclosed := Text.isEnclosed_parenthesized neutral
  rw [← group, Text.isEnclosed, trimmed] at enclosed
  rw [Text.isEnclosed, trim_line]
  exact enclosed

theorem isEnclosed_groupPower (stage : Stage) (base exponent : Bracketed) :
    ((groupPower base exponent).line stage).isEnclosed = false :=
  Text.isEnclosed_eq_false_of_group (isNeutral_line stage base) (trim_line stage _)

theorem isEnclosed_numeral (stage : Stage) (digits : Numeral) :
    ((numeral digits).line stage).isEnclosed = false := by
  obtain ⟨c, run, same, digit, _⟩ := Text.exists_of_isNumeral digits.isNumeral
  refine Text.isEnclosed_eq_false_of_head ((trim_line stage _).trans same) ?_
  rintro rfl
  cases digit

/-- Whether a formula is one group when fractions and roots are gone. -/
theorem isEnclosed_line_linear (formula : Bracketed) :
    (formula.line .linear).isEnclosed = formula.isGroup := by
  have group {formula : Bracketed} (isGroup : formula.isGroup = true) :
      (formula.line .linear).isEnclosed = true := by
    obtain ⟨inside, neutral, same⟩ := exists_line_eq_of_isGroup .linear isGroup
    exact isEnclosed_line neutral ((bare_eq_line_of_isGroup .linear isGroup).trans same)
  cases formula with
  | numeral digits => exact isEnclosed_numeral .linear digits
  | letter symbol =>
      exact Text.isEnclosed_eq_false_of_head (trim_line .linear _) symbol.ne_parenthesis
  | pi => exact Text.isEnclosed_eq_false_of_head (trim_line .linear _) (by decide)
  | joined _ _ _ | fraction _ _ | root _ | indexedRoot _ _ =>
      exact group rfl
  | absolute inside => exact Text.isEnclosed_eq_false_of_head (trim_line .linear _) (by decide)
  | application function argument =>
      exact Text.isEnclosed_eq_false_of_head (trim_line .linear _) (by decide)
  | letterPower base exponent =>
      exact Text.isEnclosed_eq_false_of_head (trim_line .linear _) base.ne_parenthesis
  | groupPower base exponent => exact isEnclosed_groupPower .linear base exponent

/-- Whether a formula is one group when powers have their final form. -/
theorem isEnclosed_line_raised (formula : Bracketed) :
    (formula.line .raised).isEnclosed = formula.isRaisedGroup := by
  cases isGroup : formula.isRaisedGroup with
  | true =>
      obtain ⟨inside, neutral, same⟩ := exists_bare_eq_of_isRaisedGroup isGroup
      exact isEnclosed_line neutral same
  | false =>
      cases formula with
      | numeral digits => exact isEnclosed_numeral .raised digits
      | letter symbol =>
          exact Text.isEnclosed_eq_false_of_head (trim_line .raised _) symbol.ne_parenthesis
      | pi => exact Text.isEnclosed_eq_false_of_head (trim_line .raised _) (by decide)
      | joined _ _ _ | fraction _ _ | root _ | indexedRoot _ _ => cases isGroup
      | absolute inside => exact Text.isEnclosed_eq_false_of_head (trim_line .raised _) (by decide)
      | application function argument =>
          have trimmed := trim_line .raised (application function argument)
          cases function <;>
            first
            | exact Bool.noConfusion isGroup
            | exact Text.isEnclosed_eq_false_of_head trimmed (by decide)
      | letterPower base exponent =>
          have euler : base.char = 'e' := by simpa [isRaisedGroup] using isGroup
          have trimmed := trim_line .raised (letterPower base exponent)
          rw [bare, if_pos rfl, if_pos euler] at trimmed
          exact Text.isEnclosed_eq_false_of_head trimmed (by decide)
      | groupPower base exponent => exact isEnclosed_groupPower .raised base exponent

theorem line_linear_eq_bare (formula : Bracketed) :
    formula.line .linear = formula.bare .linear := by
  cases formula <;> rfl

/-- Wrapping when fractions and roots are replaced. -/
theorem wrap_line_linear (formula : Bracketed) :
    (formula.line .linear).wrap = grouped formula.isGroup (formula.line .linear) := by
  rw [Text.wrap, isEnclosed_line_linear, trim_line, ← line_linear_eq_bare]
  rfl

/-- Wrapping when an exponent is read. -/
theorem wrap_line_raised (formula : Bracketed) :
    (formula.line .raised).wrap = grouped formula.isRaisedGroup (formula.bare .raised) := by
  rw [Text.wrap, isEnclosed_line_raised, trim_line]
  rfl

end Bracketed

end TexCalc
