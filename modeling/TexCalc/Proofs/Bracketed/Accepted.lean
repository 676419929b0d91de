import TexCalc.Proofs.Bracketed.Shape
import TexCalc.Proofs.Check.Faultless
import TexCalc.Proofs.Tex.Arguments
import TexCalc.Proofs.Tex.Normal

/-!
# Bracketed formulas are accepted

There is no issue in a bracketed formula, and its normal text is the formula with its sized
delimiters made plain.
-/

namespace TexCalc

namespace Text.IsFaultless

variable {opened : List Delimiter} {previous? : Option Token} {text rest : Text}

/-- A run of ordinary characters. -/
theorem chars (ordinary : text.all Token.isOrdinary = true) (nonempty : text ≠ [])
    (later : ∀ last : Token, IsFaultless opened (some last) rest) :
    IsFaultless opened previous? (text ++ rest) := by
  induction text generalizing previous? with
  | nil => exact absurd rfl nonempty
  | cons c text ih =>
      rw [List.all_cons, Bool.and_eq_true] at ordinary
      refine .char ordinary.1 ?_
      cases text with
      | nil => exact later _
      | cons d text => exact ih ordinary.2 (List.cons_ne_nil d text)

/-- A group in parentheses. -/
theorem parenthesized
    (inside : IsFaultless (.parenthesis :: opened) (some (.char '(')) (text ++ ')' :: rest)) :
    IsFaultless opened previous? (text.parenthesized ++ rest) := by
  rw [parenthesized_append]
  exact .opening .round inside

/-- A group in braces. -/
theorem braced
    (inside : IsFaultless (.brace :: opened) (some .openBrace) (text ++ '\x7d' :: rest)) :
    IsFaultless opened previous? (text.braced ++ rest) := by
  rw [braced_append]
  exact .opening .curly inside

end Text.IsFaultless

namespace Bracketed

theorem Function.named?_name (function : Function) :
    ∃ command, Command.named? function.name = some command ∧ command.takesArgument = true := by
  cases function <;> exact ⟨_, rfl, rfl⟩

/-- A formula begins with a letter, a digit, a backslash or a parenthesis. -/
theorem exists_latex_eq (formula : Bracketed) :
    ∃ c rest, formula.latex = c :: rest ∧ (c.isAlphanum = true ∨ c = '\\' ∨ c = '(') := by
  cases formula with
  | numeral digits =>
      obtain ⟨c, run, same, digit, _⟩ := Text.exists_of_isNumeral digits.isNumeral
      exact ⟨c, run, same, .inl (by simp [Char.isAlphanum, digit])⟩
  | letter symbol => exact ⟨_, [], rfl, .inl (by simp [Char.isAlphanum, symbol.isAlpha])⟩
  | letterPower base exponent =>
      exact ⟨_, _, rfl, .inl (by simp [Char.isAlphanum, base.isAlpha])⟩
  | joined joint left right => cases joint <;> exact ⟨_, _, rfl, .inr (.inr rfl)⟩
  | groupPower base exponent => exact ⟨_, _, rfl, .inr (.inr rfl)⟩
  | _ => exact ⟨_, _, rfl, .inr (.inl rfl)⟩

/-- A formula neither begins nor ends with a blank. -/
theorem isTight_latex (formula : Bracketed) : formula.latex.IsTight := by
  have visible (letter : Letter) : isBlank letter.char = false :=
    isBlank_eq_false_of_isBaseChar letter.isBaseChar
  have frac : Text.IsTight ('\\' :: "frac".toList) := .of_visible (by decide) (by decide)
  have sqrt : Text.IsTight ('\\' :: "sqrt".toList) := .of_visible (by decide) (by decide)
  have left : Text.IsTight ('\\' :: Side.left.word) := .of_visible (by decide) (by decide)
  have bar : Text.IsTight ('\\' :: (Side.right.word ++ ['|'])) :=
    .of_visible (by decide) (by decide)
  induction formula with
  | numeral digits => exact .of_baseChars digits.text_ne_nil digits.all_isBaseChar
  | letter symbol => exact .single (visible symbol)
  | pi => exact .of_visible (by decide) (by decide)
  | joined joint left right => cases joint <;> exact .parenthesized _
  | fraction numerator denominator => exact frac.append_append _ (.braced _)
  | root radicand => exact sqrt.append (.braced _)
  | indexedRoot index radicand ihIndex ihRadicand =>
      exact sqrt.append ((ihIndex.append_cons (.braced _)).cons (by decide))
  | absolute inside => exact left.append_append ('|' :: inside.latex) bar
  | application function argument =>
      have name : function.name.IsTight := by
        cases function <;> exact .of_visible (by decide) (by decide)
      exact (name.append_append ('\\' :: Side.left.word) (.parenthesized _)).cons (by decide)
  | letterPower base exponent =>
      exact ((Text.IsTight.braced _).cons (by decide)).cons (visible base)
  | groupPower base exponent => exact (Text.IsTight.parenthesized _).append_cons (.braced _)

theorem beginsExponent_latex (formula : Bracketed) (rest : Text) :
    Text.beginsExponent (formula.latex.braced ++ rest) = true := by
  obtain ⟨c, tail, same, begins⟩ := formula.exists_latex_eq
  have visible : isBlank c = false ∧ c ≠ '\x7d' ∧ c ≠ '%' := by
    rcases begins with word | rfl | rfl
    · refine ⟨isBlank_eq_false_of_isAlphanum word, ?_, ?_⟩ <;> rintro rfl <;> cases word
    · decide
    · decide
  rw [Text.braced_append, same, List.cons_append, Text.beginsExponent]
  simp [visible]

/-- In front of a text without faults a formula has no faults. -/
theorem isFaultless_latex (formula : Bracketed) {opened : List Delimiter}
    {previous? : Option Token} {rest : Text} (ends : rest.endsRun isBaseChar = true)
    (later : ∀ last : Token, Text.IsFaultless opened (some last) rest) :
    Text.IsFaultless opened previous? (formula.latex ++ rest) := by
  induction formula generalizing opened previous? rest with
  | numeral digits =>
      refine .chars ?_ digits.text_ne_nil later
      rw [List.all_eq_true]
      intro c isMember
      have base := List.all_eq_true.1 digits.all_isBaseChar c isMember
      simp only [isBaseChar, Bool.or_eq_true, beq_iff_eq] at base
      rcases base with word | rfl
      · simp [Token.isOrdinary, word]
      · decide
  | letter symbol =>
      exact .char (by simp [Token.isOrdinary, Char.isAlphanum, symbol.isAlpha]) (later _)
  | pi =>
      exact .word (by decide) (by decide) (Text.endsRun_mono ends isBaseChar_of_isAlpha)
        (show Command.named? "pi".toList = _ from rfl) rfl (later _)
  | joined joint left right ihLeft ihRight =>
      cases joint with
      | sum | difference =>
          refine .parenthesized ?_
          rw [List.append_assoc, List.cons_append]
          refine ihLeft rfl fun _ => .char rfl ?_
          exact ihRight rfl fun _ => .closing .round (later _)
      | product =>
          refine .parenthesized ?_
          simp only [List.append_assoc, List.cons_append, List.nil_append]
          refine ihLeft rfl fun _ => ?_
          have letters : ("cdot".toList).all Char.isAlpha = true := by decide
          refine .word letters (by decide) rfl (show Command.named? "cdot".toList = _ from rfl)
            rfl ?_
          refine .blank (right.isTight_latex.endsRun_append _) ?_
          exact ihRight rfl fun _ => .closing .round (later _)
      | juxtaposition =>
          refine .parenthesized ?_
          rw [List.append_assoc]
          refine .parenthesized (ihLeft rfl fun _ => .closing .round ?_)
          exact .parenthesized (ihRight rfl fun _ => .closing .round (.closing .round (later _)))
  | fraction numerator denominator ihNumerator ihDenominator =>
      simp only [latex_fraction, List.append_assoc, List.cons_append]
      refine .fraction rfl (Malformation.ofFraction?_braced numerator.isNeutral_latex
        numerator.isTight_latex denominator.isNeutral_latex denominator.isTight_latex _ rest) ?_
      refine .braced (ihNumerator rfl fun _ => .closing .curly ?_)
      exact .braced (ihDenominator rfl fun _ => .closing .curly (later _))
  | root radicand ih =>
      simp only [latex_root, List.append_assoc, List.cons_append]
      refine .root rfl (Malformation.ofRoot?_braced radicand.isNeutral_latex
        radicand.isTight_latex _ rest) ?_
      exact .braced (ih rfl fun _ => .closing .curly (later _))
  | indexedRoot index radicand ihIndex ihRadicand =>
      simp only [latex_indexedRoot, List.append_assoc, List.cons_append]
      refine .root rfl (Malformation.ofRoot?_square index.isNeutral_latex index.isTight_latex
        radicand.isNeutral_latex radicand.isTight_latex _ rest) ?_
      refine .opening .square (ihIndex rfl fun _ => .closing .square ?_)
      exact .braced (ihRadicand rfl fun _ => .closing .curly (later _))
  | absolute inside ih =>
      simp only [latex_absolute, List.append_assoc, List.cons_append, List.nil_append]
      exact .left (by decide) (ih rfl fun _ => .right (by decide) (later _))
  | application function argument ih =>
      obtain ⟨command, found, takes⟩ := function.named?_name
      simp only [latex_application, List.append_assoc, List.cons_append,
        Text.parenthesized_append]
      refine .function function.all_isAlpha_name function.name_ne_nil found takes rfl ?_
      exact .left (by decide) (ih rfl fun _ => .right (by decide) (later _))
  | letterPower base exponent ih =>
      have word : base.char.isAlphanum = true := by simp [Char.isAlphanum, base.isAlpha]
      refine .char (by simp [Token.isOrdinary, word]) (.script ?_ ?_ ?_)
      · exact Bool.or_eq_true_iff.2 (.inl (isWordChar_of_isAlphanum word))
      · exact beginsExponent_latex exponent rest
      · exact .braced (ih rfl fun _ => .closing .curly (later _))
  | groupPower base exponent ihBase ihExponent =>
      change Text.IsFaultless _ _
        (base.latex.parenthesized ++ '^' :: exponent.latex.braced ++ rest)
      rw [List.append_assoc, List.cons_append]
      refine .parenthesized (ihBase rfl fun _ => .closing .round (.script ?_ ?_ ?_))
      · decide +kernel
      · exact beginsExponent_latex exponent rest
      · exact .braced (ihExponent rfl fun _ => .closing .curly (later _))

/-! ## The normal text -/

theorem normalized_baseChars {text : Text} (all : text.all isBaseChar = true) (rest : Text) :
    (text ++ rest).normalized = text ++ rest.normalized := by
  induction text with
  | nil => rfl
  | cons c text ih =>
      rw [List.all_cons, Bool.and_eq_true] at all
      obtain ⟨single, noBar, noMark⟩ :
          Token.isSingle c = true ∧ c ≠ '|' ∧ c ≠ Parked.mark := by
        have base := all.1
        simp only [isBaseChar, Bool.or_eq_true, beq_iff_eq] at base
        rcases base with word | rfl
        · refine ⟨Token.isSingle_of_isAlphanum word, ?_, ?_⟩ <;> rintro rfl <;> cases word
        · decide
      rw [List.cons_append, Text.normalized_cons single noBar noMark, ih all.2, List.cons_append]

/-- Brackets and signs that stay as they are. -/
theorem normalized_mark {c : Char}
    (isMark : c ∈ ['(', ')', '\x7b', '\x7d', '[', ']', '+', '-', '^']) (rest : Text) :
    Text.normalized (c :: rest) = c :: rest.normalized := by
  obtain ⟨token, isRead, noSide, noBar, shape⟩ : ∃ token : Token,
      Token.read c rest = ⟨token, [], rest⟩ ∧ token.side? = none ∧ token ≠ .char '|' ∧
        token.normal = [c] := by
    simp only [List.mem_cons, List.not_mem_nil, or_false] at isMark
    rcases isMark with rfl | rfl | rfl | rfl | rfl | rfl | rfl | rfl | rfl <;>
      exact ⟨_, rfl, rfl, by simp, rfl⟩
  rw [Text.normalized_of_read isRead noSide noBar, shape]
  rfl

/-- Commands of a formula that stay as they are. -/
theorem normalized_command {name : Text}
    (isName : name ∈ ["frac".toList, "sqrt".toList, "pi".toList, "cdot".toList]) {rest : Text}
    (ends : rest.endsRun Char.isAlpha = true) :
    Text.normalized ('\\' :: (name ++ rest)) = '\\' :: (name ++ rest.normalized) := by
  have facts : ∀ name ∈ ["frac".toList, "sqrt".toList, "pi".toList, "cdot".toList],
      name.all Char.isAlpha = true ∧ name ≠ [] ∧ (Token.control name).side? = none ∧
        Command.named? name ≠ some .spacing := by
    decide
  obtain ⟨letters, nonempty, noSide, visible⟩ := facts name isName
  exact Text.normalized_word letters nonempty ends noSide visible

theorem normalized_function (function : Function) {rest : Text}
    (ends : rest.endsRun Char.isAlpha = true) :
    Text.normalized ('\\' :: (function.name ++ rest)) =
      '\\' :: (function.name ++ rest.normalized) := by
  refine Text.normalized_word function.all_isAlpha_name function.name_ne_nil ends ?_ ?_ <;>
    cases function <;> decide

/-- The normal text of a formula in front of another text. -/
theorem normalized_latex_append (formula : Bracketed) {rest : Text}
    (ends : rest.endsRun isBaseChar = true) :
    (formula.latex ++ rest).normalized = formula.normal ++ rest.normalized := by
  induction formula generalizing rest with
  | numeral digits => exact normalized_baseChars digits.all_isBaseChar rest
  | letter symbol => 
      have all : [symbol.char].all isBaseChar = true := by simp [symbol.isBaseChar]
      exact normalized_baseChars all rest
  | pi => exact normalized_command (by decide) (Text.endsRun_mono ends isBaseChar_of_isAlpha)
  | joined joint left right ihLeft ihRight =>
      rw [latex_joined, normal_joined]
      cases joint with
      | sum | difference =>
          simp only [Joint.between, Text.parenthesized_append, List.append_assoc, List.cons_append]
          rw [normalized_mark (by decide), ihLeft rfl, normalized_mark (by decide), ihRight rfl,
            normalized_mark (by decide)]
      | product =>
          have blank : Text.normalized (' ' :: (right.latex ++ ')' :: rest)) =
              ' ' :: Text.normalized (right.latex ++ ')' :: rest) :=
            Text.normalized_of_read (Token.read_blank (right.isTight_latex.endsRun_append _)) rfl
              (by simp)
          simp only [Joint.between, Text.parenthesized_append, List.append_assoc,
            List.cons_append, List.nil_append]
          rw [normalized_mark (by decide), ihLeft rfl, normalized_command (by decide) rfl, blank,
            ihRight rfl, normalized_mark (by decide)]
      | juxtaposition =>
          simp only [Joint.between, Text.parenthesized_append, List.append_assoc, List.cons_append]
          rw [normalized_mark (by decide), normalized_mark (by decide), ihLeft rfl,
            normalized_mark (by decide), normalized_mark (by decide), ihRight rfl,
            normalized_mark (by decide), normalized_mark (by decide)]
  | fraction numerator denominator ihNumerator ihDenominator =>
      simp only [latex_fraction, normal_fraction, List.append_assoc, List.cons_append,
        Text.braced_append]
      rw [normalized_command (by decide) rfl, normalized_mark (by decide), ihNumerator rfl,
        normalized_mark (by decide), normalized_mark (by decide), ihDenominator rfl,
        normalized_mark (by decide)]
  | root radicand ih =>
      simp only [latex_root, normal_root, List.append_assoc, List.cons_append, Text.braced_append]
      rw [normalized_command (by decide) rfl, normalized_mark (by decide), ih rfl,
        normalized_mark (by decide)]
  | indexedRoot index radicand ihIndex ihRadicand =>
      simp only [latex_indexedRoot, normal_indexedRoot, List.append_assoc, List.cons_append,
        Text.braced_append]
      rw [normalized_command (by decide) rfl, normalized_mark (by decide), ihIndex rfl,
        normalized_mark (by decide), normalized_mark (by decide), ihRadicand rfl,
        normalized_mark (by decide)]
  | absolute inside ih =>
      simp only [latex_absolute, normal_absolute, List.append_assoc, List.cons_append,
        List.nil_append, Text.parenthesized_append]
      rw [Text.normalized_side .left (by decide), ih rfl, Text.normalized_side .right (by decide)]
      rfl
  | application function argument ih =>
      simp only [latex_application, normal_application, List.append_assoc, List.cons_append,
        Text.parenthesized_append]
      rw [normalized_function function rfl, Text.normalized_side .left (by decide), ih rfl,
        Text.normalized_side .right (by decide)]
      rfl
  | letterPower base exponent ih =>
      have all : [base.char].all isBaseChar = true := by simp [base.isBaseChar]
      have base := normalized_baseChars all
      simp only [List.singleton_append] at base
      simp only [latex_letterPower, normal_letterPower, List.cons_append, Text.braced_append]
      rw [base, normalized_mark (by decide), normalized_mark (by decide), ih rfl,
        normalized_mark (by decide)]
  | groupPower base exponent ihBase ihExponent =>
      simp only [latex_groupPower, normal_groupPower, List.append_assoc, List.cons_append,
        Text.braced_append, Text.parenthesized_append]
      rw [normalized_mark (by decide), ihBase rfl, normalized_mark (by decide),
        normalized_mark (by decide), normalized_mark (by decide), ihExponent rfl,
        normalized_mark (by decide)]

/-- The normal text of a formula. -/
theorem normal_latex (formula : Bracketed) : formula.latex.normal = formula.normal := by
  have whole : Text.normalized (formula.latex ++ []) = formula.normal ++ Text.normalized [] :=
    normalized_latex_append formula rfl
  rw [List.append_nil, Text.normalized_nil, List.append_nil] at whole
  rw [Text.normal_eq_normalized formula.isTight_latex.trim, whole]

end Bracketed

end TexCalc
