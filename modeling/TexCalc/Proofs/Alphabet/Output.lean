import TexCalc.Proofs.Alphabet.Expression
import TexCalc.Proofs.Marks.Printed
import TexCalc.Proofs.Words.Modes

/-!
# The alphabet of expressions

A subscript is accepted after `\log` only and goes when the base of that logarithm is read.  An
argument is taken over as it is written, however, and reading goes on behind it, so that a
subscript inside an argument stays.  Besides, a base without braces may be the mark of a parked
function.  Nothing else brings a strict expression out of the alphabet of the target language.
-/

namespace TexCalc

open Parked (mark)

/-- What may stand in the normal text of an accepted formula. -/
def isRegular (c : Char) : Bool :=
  c == '_' || !isForeign c

theorem isRegular_of_isAlphanum {c : Char} (word : c.isAlphanum = true) :
    isRegular c = true := by
  simp [isRegular, isForeign, isOutput, word]

namespace Token

theorem all_isRegular_normal {token : Token} (known : token.isKnown = true)
    (noBar : token ≠ .char '|') : token.normal.all isRegular = true := by
  fun_cases Token.normal token with
  | case6 c =>
      have carried : c.isAlphanum = true ∨
          c ∈ ['.', '+', '-', '*', '/', '(', ')', '[', ']', '|', ','] := by
        simpa [isKnown, isCarried] using known
      have inList : (['.', '+', '-', '*', '/', '(', ')', '[', ']', '|', ','].all
          fun c => c == '|' || isRegular c) = true := by
        decide
      have ordinary : isRegular c = true := by
        rcases carried with word | listed
        · exact isRegular_of_isAlphanum word
        · have either := List.all_eq_true.1 inList c listed
          rw [Bool.or_eq_true, beq_iff_eq] at either
          apply either.resolve_left
          rintro rfl
          exact noBar rfl
      rw [List.all_cons, ordinary]
      rfl
  | case10 name noOpener noCloser noSpacing =>
      obtain ⟨command, found⟩ := Option.isSome_iff_exists.1 known
      obtain ⟨_, letters⟩ := isAlpha_of_named? found
        (fun spacing => noSpacing (spacing ▸ found)) noOpener noCloser
      rw [List.all_cons, Bool.and_eq_true, List.all_eq_true]
      refine ⟨by decide, fun c isMember => isRegular_of_isAlphanum ?_⟩
      exact Bool.or_eq_true_iff.2 (.inl (List.all_eq_true.1 letters c isMember))
  | case11 token noShift noComment noBlank noTie noChar _ _ noControl =>
      cases token with
      | mathShift => exact absurd rfl noShift
      | comment text => exact absurd rfl (noComment text)
      | char c => exact absurd rfl (noChar c)
      | control name => exact absurd rfl (noControl name)
      | blank => exact absurd rfl noBlank
      | tie => exact absurd rfl noTie
      | _ => decide
  | _ => decide

end Token

namespace Text

theorem all_isRegular_ofTokens {tokens : List Token}
    (known : ∀ token ∈ tokens, token.isKnown = true) (isOpen : Bool) :
    (ofTokens isOpen tokens).all isRegular = true := by
  fun_induction ofTokens isOpen tokens with
  | case1 => rfl
  | case2 isOpen token rest side _ next later after delimiter _ ih =>
      have ordinary : (side.normal delimiter).all isRegular = true := by
        fun_cases Side.normal side delimiter <;> decide
      have within : ∀ token ∈ later, token.isKnown = true := fun token isMember =>
        known token (List.mem_cons_of_mem _ ((List.dropWhile_sublist Token.isBlank).subset
          (after ▸ List.mem_cons_of_mem _ isMember)))
      rw [List.all_append, ordinary, ih within]
      rfl
  | case3 _ _ _ _ _ _ _ _ _ ih | case4 _ _ _ _ _ _ ih =>
      exact ih fun token isMember => known token (List.mem_cons_of_mem _ isMember)
  | case5 isOpen rest _ ih =>
      have ordinary :
          List.all (if isOpen then "))".toList else "(abs(".toList) isRegular = true := by
        cases isOpen <;> decide
      rw [List.all_append, ordinary,
        ih fun token isMember => known token (List.mem_cons_of_mem _ isMember)]
      rfl
  | case6 isOpen token rest _ noBar ih =>
      rw [List.all_append, Token.all_isRegular_normal (known token List.mem_cons_self) noBar,
        ih fun token isMember => known token (List.mem_cons_of_mem _ isMember)]
      rfl

/-- The sign of a subscript is the one foreign character in the normal text of an accepted
formula. -/
theorem eq_subscript_of_mem_normal {formula : Text} {c : Char}
    (accepted : Translator.IsAccepted formula) (isMember : c ∈ formula.normal)
    (foreign : isForeign c = true) : c = '_' := by
  have known : ∀ token ∈ formula.trim.lexemes.map Lexeme.token, token.isKnown = true := by
    intro token isToken
    obtain ⟨lexeme, isLexeme, rfl⟩ := List.mem_map.1 isToken
    exact Token.isKnown_of_issues_eq_nil (List.map_eq_nil_iff.1 accepted) isLexeme
  have ordinary := List.all_eq_true.1 (all_isRegular_ofTokens known false) c isMember
  simpa [isRegular, foreign] using ordinary

end Text

namespace Translator

variable {translator : Translator} {formula : Text} {report : Report} {c : Char}

/-- A character outside the alphabet is the sign of a subscript or a mark. -/
theorem eq_subscript_or_eq_mark (isStrict : translator.options.strict = true)
    (reported : translator.report formula = .ok report) (isMember : c ∈ report.expression)
    (outside : isOutput c = false) : c = '_' ∨ c = mark := by
  obtain ⟨accepted, _⟩ := (report_eq_ok_iff isStrict).1 reported
  have only := Text.hasWordsOnly_normal_of_isAccepted accepted
  have foreign : isForeign c = true := by
    refine (isOutput_or_isForeign isStrict reported isMember).resolve_left ?_
    rw [outside]
    exact Bool.false_ne_true
  by_cases isMark : c = mark
  · exact .inr isMark
  · refine .inl (Text.eq_subscript_of_mem_normal accepted ?_ foreign)
    have inLinear := List.count_pos_iff.2 isMember
    rw [count_expression isStrict reported foreign, Text.count_linear foreign isMark
      translator.vocabulary translator.options only] at inLinear
    exact List.count_pos_iff.1 (Nat.lt_of_lt_of_le inLinear
      (Text.count_beforeRenaming_le foreign isMark translator.vocabulary _))

/-- As many signs of subscripts are printed as are left when commands are renamed. -/
theorem count_subscript_expression (isStrict : translator.options.strict = true)
    (reported : translator.report formula = .ok report) :
    report.expression.count '_' =
      (formula.normal.beforeRenaming translator.vocabulary).count '_' := by
  obtain ⟨accepted, _⟩ := (report_eq_ok_iff isStrict).1 reported
  rw [count_expression isStrict reported (by decide)]
  exact Text.count_linear (by decide) (by decide) translator.vocabulary translator.options
    (Text.hasWordsOnly_normal_of_isAccepted accepted)

/-- An expression stays inside the alphabet exactly when no sign of a subscript is left at the time
when commands are renamed, and no mark in the linear form. -/
theorem isOutput_iff_no_subscript_left (isStrict : translator.options.strict = true)
    (reported : translator.report formula = .ok report) :
    (∀ c ∈ report.expression, isOutput c = true) ↔
      '_' ∉ formula.normal.beforeRenaming translator.vocabulary ∧
        mark ∉ formula.normal.linear translator.vocabulary translator.options := by
  have subscripts := count_subscript_expression isStrict reported
  have marks := count_expression isStrict reported Text.isForeign_mark
  constructor
  · intro inside
    constructor
    · rw [← List.count_eq_zero, ← subscripts, List.count_eq_zero]
      exact fun isMember => absurd (inside '_' isMember) (by decide)
    · rw [← List.count_eq_zero, ← marks, List.count_eq_zero]
      exact fun isMember => absurd (inside mark isMember) (by decide)
  · rintro ⟨noSubscript, noMark⟩ c isMember
    cases output : isOutput c with
    | true => rfl
    | false =>
        rw [← List.count_eq_zero, ← subscripts, List.count_eq_zero] at noSubscript
        rw [← List.count_eq_zero, ← marks, List.count_eq_zero] at noMark
        rcases eq_subscript_or_eq_mark isStrict reported isMember output with rfl | rfl
        · exact absurd isMember noSubscript
        · exact absurd isMember noMark

theorem isOutput_iff_no_subscript_left_of_logarithm :
    Translator.report {} "\\log_2(x)".toList = .ok ⟨"(log(x)/log(2))".toList, []⟩ ∧
      ((∀ c ∈ "(log(x)/log(2))".toList, isOutput c = true) ↔
        '_' ∉ (Text.normal "\\log_2(x)".toList).beforeRenaming .standard ∧
          mark ∉ (Text.normal "\\log_2(x)".toList).linear .standard {}) :=
  have reported : Translator.report {} "\\log_2(x)".toList =
      .ok ⟨"(log(x)/log(2))".toList, []⟩ :=
    eq_ok_of_toOption (by decide +kernel)
  ⟨reported, isOutput_iff_no_subscript_left rfl reported⟩

/-- The second base is read only when the first argument has been taken over. -/
theorem subscript_mem_expression_of_nested_logarithms :
    ∃ report, Translator.report {} "\\log_2(\\log_3 x)".toList = .ok report ∧
      ¬ ∀ c ∈ report.expression, isOutput c = true :=
  ⟨⟨"(log(log10_3*x)/log(2))".toList, []⟩, eq_ok_of_toOption (by decide +kernel),
    fun inside => absurd (inside '_' (by decide)) (by decide)⟩

end Translator

end TexCalc
