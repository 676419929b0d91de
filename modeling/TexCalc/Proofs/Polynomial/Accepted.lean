import TexCalc.Proofs.Bracketed.Accepted
import TexCalc.Proofs.Linear.Calls
import TexCalc.Proofs.Polynomial.Formula
import TexCalc.Proofs.Words.Accepted

/-!
# Polynomials are accepted

There is no issue in a polynomial.  It has no commands and spells no function, so that nothing is
done to it before its powers are formed.
-/

namespace TexCalc

namespace Polynomial

/-- The characters that polynomials are made of. -/
def isSource (c : Char) : Bool :=
  c.isAlphanum || c ∈ ['^', '+', '-']

theorem isSource_of_isAlphanum {c : Char} (word : c.isAlphanum = true) : isSource c = true := by
  rw [isSource, word]
  rfl

theorem Factor.all_isSource_latex (factor : Factor) : factor.latex.all isSource = true := by
  have letter := isSource_of_isAlphanum factor.letter.isAlphanum
  rw [Factor.latex, List.all_cons, letter]
  cases factor.exponent? with
  | none => rfl
  | some exponent => simp [isSource, exponent.isAlphanum]

theorem Monomial.all_isSource_latex (monomial : Monomial) :
    monomial.latex.all isSource = true := by
  have digits : monomial.coefficient.all isSource = true := by
    rw [List.all_eq_true]
    intro c isMember
    have digit := List.all_eq_true.1 monomial.isDigits c isMember
    exact isSource_of_isAlphanum (by simp [Char.isAlphanum, digit])
  rw [Monomial.latex, List.all_append, digits, List.all_flatMap, List.all_eq_true.2]
  · rfl
  · exact fun factor _ => factor.all_isSource_latex

theorem all_isSource_latex (polynomial : Polynomial) : polynomial.latex.all isSource = true := by
  have sign (sign : Sign) : isSource sign.char = true := by
    cases sign <;> decide
  rw [latex, List.all_append, polynomial.first.all_isSource_latex, List.all_flatMap,
    List.all_eq_true.2]
  · rfl
  · rintro ⟨between, monomial⟩ _
    rw [List.all_cons, sign, monomial.all_isSource_latex]
    rfl

theorem not_mem_latex (polynomial : Polynomial) {c : Char} (other : isSource c = false) :
    c ∉ polynomial.latex := by
  intro isMember
  have source := List.all_eq_true.1 polynomial.all_isSource_latex c isMember
  rw [other] at source
  cases source

/-! ## No issue -/

theorem Monomial.latex_ne_nil (monomial : Monomial) : monomial.latex ≠ [] := by
  intro empty
  obtain ⟨factor, factors, same⟩ := List.exists_cons_of_ne_nil monomial.nonempty
  simp [Monomial.latex, same, Factor.latex] at empty

theorem isTight_latex (polynomial : Polynomial) : polynomial.latex.IsTight := by
  apply Text.IsTight.of_visible
  · exact fun empty => polynomial.first.latex_ne_nil (List.append_eq_nil_iff.1 empty).1
  · have all := polynomial.all_isSource_latex
    rw [List.all_eq_true] at all ⊢
    intro c isMember
    have source := all c isMember
    rw [isSource, Bool.or_eq_true] at source
    rcases source with word | sign
    · rw [isBlank_eq_false_of_isAlphanum word]
      rfl
    · simp only [List.mem_cons, List.not_mem_nil, or_false, decide_eq_true_eq] at sign
      rcases sign with rfl | rfl | rfl <;> decide

section

variable {rest : Text} (later : ∀ previous?, Text.IsFaultless [] previous? rest)

include later

theorem isFaultless_factors (factors : List Factor) (previous? : Option Token) :
    Text.IsFaultless [] previous? (factors.flatMap Factor.latex ++ rest) := by
  induction factors generalizing previous? with
  | nil => exact later previous?
  | cons factor factors ih =>
      have letter := factor.letter.isAlphanum
      have isBase : Token.isBase (.char factor.letter.char) = true :=
        Bool.or_eq_true_iff.2 (.inl (isWordChar_of_isAlphanum letter))
      rw [List.flatMap_cons, Factor.latex, List.append_assoc, List.cons_append]
      refine .char (by simp [Token.isOrdinary, letter]) ?_
      cases factor.exponent? with
      | none => exact ih _
      | some exponent =>
          have digit := exponent.isAlphanum
          obtain ⟨c, _⟩ := exponent
          refine .script isBase ?_ (.char (by simp [Token.isOrdinary, digit]) (ih _))
          unfold Text.beginsExponent
          split
          · rename_i same
            rw [(List.cons.inj same).1] at digit
            exact absurd digit (by decide)
          · rename_i same
            cases same
            exact digit
          · rename_i same
            cases same

theorem isFaultless_monomial (monomial : Monomial) (previous? : Option Token) :
    Text.IsFaultless [] previous? (monomial.latex ++ rest) := by
  have factors (previous? : Option Token) := isFaultless_factors later monomial.factors previous?
  have digits : monomial.coefficient.all Token.isOrdinary = true := by
    rw [List.all_eq_true]
    intro c isMember
    simp [Token.isOrdinary, Char.isAlphanum, List.all_eq_true.1 monomial.isDigits c isMember]
  rw [Monomial.latex, List.append_assoc]
  by_cases empty : monomial.coefficient = []
  · rw [empty]
    exact factors previous?
  · exact .chars digits empty fun last => factors (some last)

end

theorem isFaultless_others (others : List (Sign × Monomial)) (previous? : Option Token) :
    Text.IsFaultless [] previous?
      (others.flatMap fun (sign, monomial) => sign.char :: monomial.latex) := by
  induction others generalizing previous? with
  | nil => exact .nil
  | cons term others ih =>
      obtain ⟨sign, monomial⟩ := term
      rw [List.flatMap_cons, List.cons_append]
      exact .char (by cases sign <;> decide) (isFaultless_monomial ih monomial _)

/-- No issue is found in a polynomial. -/
theorem isAccepted_latex (polynomial : Polynomial) :
    Translator.IsAccepted polynomial.latex := by
  have faultless : Text.IsFaultless [] none polynomial.latex :=
    isFaultless_monomial (isFaultless_others polynomial.others) polynomial.first none
  rw [Translator.IsAccepted, Translator.issues, polynomial.isTight_latex.trim,
    Text.issues_eq_nil_of_isFaultless faultless]
  rfl

/-! ## The steps before powers -/

theorem normalized_eq_self {text : Text} (all : text.all isSource = true) :
    text.normalized = text := by
  induction text with
  | nil => exact Text.normalized_nil
  | cons c text ih =>
      rw [List.all_cons, Bool.and_eq_true, isSource, Bool.or_eq_true, decide_eq_true_eq] at all
      rcases all with ⟨word | sign, later⟩
      · have alone : [c].all isBaseChar = true := by simp [isBaseChar, word]
        have whole := Bracketed.normalized_baseChars alone text
        rwa [List.singleton_append, ih later] at whole
      · have isMark : c ∈ ['(', ')', '\x7b', '\x7d', '[', ']', '+', '-', '^'] := by
          simp only [List.mem_cons, List.not_mem_nil, or_false] at sign ⊢
          rcases sign with rfl | rfl | rfl <;> decide
        rw [Bracketed.normalized_mark isMark, ih later]

theorem normal_latex (polynomial : Polynomial) : polynomial.latex.normal = polynomial.latex := by
  rw [Text.normal_eq_normalized polynomial.isTight_latex.trim,
    normalized_eq_self polynomial.all_isSource_latex]

theorem completeCalls_digits {digits : Text} (all : digits.all Char.isDigit = true) (rest : Text) :
    Text.completeCalls .standard false (digits ++ rest) =
      digits ++ Text.completeCalls .standard false rest := by
  refine Text.completeCalls_append (fun c isMember => ?_) rest
  have digit := List.all_eq_true.1 all c isMember
  have word : c.isAlphanum = true := by simp [Char.isAlphanum, digit]
  exact ⟨isAlpha_eq_false_of_isDigit digit, ne_of_isAlphanum word (by decide),
    ne_of_isAlphanum word (by decide)⟩

/-- Further monomials begin with a sign. -/
theorem endsRun_others (others : List (Sign × Monomial)) (write : Monomial → Text) :
    Text.endsRun isBaseChar
      (others.flatMap fun (sign, monomial) => sign.char :: write monomial) = true := by
  cases others with
  | nil => rfl
  | cons term others =>
      obtain ⟨sign, monomial⟩ := term
      cases sign <;> rfl

/-- Up to the next mark the letters of factors spell nothing but letters of theirs. -/
theorem takeWhile_factors (factors : List Factor) {rest : Text}
    (ends : rest.endsRun Char.isAlphanum = true) :
    (factors.flatMap Factor.latex ++ rest).takeWhile Char.isAlphanum <+:
      factors.map (·.letter.char) := by
  induction factors with
  | nil => 
      rw [List.flatMap_nil, List.nil_append, Text.takeWhile_eq_nil_of_endsRun ends]
      exact List.nil_prefix
  | cons factor factors ih =>
      have letter := factor.letter.isAlphanum
      rw [List.flatMap_cons, Factor.latex, List.append_assoc, List.cons_append,
        List.takeWhile_cons_of_pos letter, List.map_cons, List.prefix_cons_inj]
      cases factor.exponent? with
      | none => exact ih
      | some exponent => exact List.nil_prefix

section

variable {rest : Text} (ends : rest.endsRun Char.isAlphanum = true)
  (completed : Text.completeCalls .standard false rest = rest)

include ends completed

/-- Where no name is spelled, no call is completed. -/
theorem completeCalls_factors {factors : List Factor}
    (nameless : Vocabulary.standard.IsNameless (factors.map (·.letter.char))) :
    Text.completeCalls .standard false (factors.flatMap Factor.latex ++ rest) =
      factors.flatMap Factor.latex ++ rest := by
  induction factors with
  | nil => exact completed
  | cons factor factors ih =>
      have later := ih (nameless.mono (List.suffix_cons _ _).isInfix)
      have isPrefix := takeWhile_factors (factor :: factors) ends
      have letter := factor.letter.isAlphanum
      rw [List.flatMap_cons, Factor.latex, List.append_assoc, List.cons_append] at isPrefix ⊢
      have noCall := Vocabulary.callableAt?_eq_none_of_isNameless
        (ne_of_isAlphanum letter (by decide)) (nameless.mono isPrefix.isInfix)
      rw [Text.completeCalls_plain (ne_of_isAlphanum letter (by decide)) noCall]
      cases factor.exponent? with
      | none => exact congrArg _ later
      | some exponent =>
          have caret := Vocabulary.standard.callableAt?_eq_none (c := '^') rfl (by decide)
          have digit := completeCalls_digits (Run.ofDigit exponent).isDigits
          simp only [Option.elim_some, List.cons_append, List.nil_append]
          rw [Text.completeCalls_plain (by decide) (caret _)]
          exact congrArg (_ :: '^' :: ·) ((digit _).trans (congrArg (exponent.char :: ·) later))

theorem completeCalls_monomial (monomial : Monomial) :
    Text.completeCalls .standard false (monomial.latex ++ rest) = monomial.latex ++ rest := by
  rw [Monomial.latex, List.append_assoc, completeCalls_digits monomial.isDigits,
    completeCalls_factors ends completed monomial.nameless]

end

theorem completeCalls_others (others : List (Sign × Monomial)) :
    Text.completeCalls .standard false
        (others.flatMap fun (sign, monomial) => sign.char :: monomial.latex) =
      others.flatMap fun (sign, monomial) => sign.char :: monomial.latex := by
  induction others with
  | nil => rw [List.flatMap_nil, Text.completeCalls]
  | cons term others ih =>
      obtain ⟨sign, monomial⟩ := term
      have noCall (rest : Text) : Vocabulary.standard.callableAt? (sign.char :: rest) = none :=
        Vocabulary.standard.callableAt?_eq_none (by cases sign <;> rfl)
          (by cases sign <;> decide) rest
      rw [List.flatMap_cons, List.cons_append,
        Text.completeCalls_plain (by cases sign <;> decide) (noCall _),
        completeCalls_monomial
          (Text.endsRun_mono (endsRun_others others _) isBaseChar_of_isAlphanum) ih]

theorem completeCalls_latex (polynomial : Polynomial) :
    Text.completeCalls .standard false polynomial.latex = polynomial.latex :=
  completeCalls_monomial
    (Text.endsRun_mono (endsRun_others polynomial.others _) isBaseChar_of_isAlphanum)
    (completeCalls_others polynomial.others) polynomial.first

theorem beginsScript_others (others : List (Sign × Monomial)) (write : Monomial → Text) :
    Text.beginsScript
      (others.flatMap fun (sign, monomial) => sign.char :: write monomial) = false := by
  cases others with
  | nil => rfl
  | cons term others =>
      obtain ⟨sign, monomial⟩ := term
      cases sign <;> rfl

theorem Monomial.raises_latex (monomial : Monomial) {rest result : Text}
    (ends : rest.endsRun isBaseChar = true) (noScript : rest.beginsScript = false)
    (raises : Text.Raises .standard rest result) :
    Text.Raises .standard (monomial.latex ++ rest) (monomial.raised ++ result) := by
  have factors := raises_factors monomial.front monomial.factors ends noScript raises
  rwa [Run.text, Monomial.front, List.map_nil, List.append_nil, ← List.append_assoc] at factors

theorem raises_others (others : List (Sign × Monomial)) :
    Text.Raises .standard
      (others.flatMap fun (sign, monomial) => sign.char :: monomial.latex)
      (others.flatMap fun (sign, monomial) => sign.char :: monomial.raised) := by
  induction others with
  | nil => exact .nil
  | cons term others ih =>
      obtain ⟨sign, monomial⟩ := term
      refine .cons (by cases sign <;> rfl) ?_
      exact monomial.raises_latex (endsRun_others others _) (beginsScript_others others _) ih

/-- The linear form of a polynomial is the polynomial with its powers formed. -/
theorem linear_normal (polynomial : Polynomial) :
    polynomial.latex.normal.linear .standard .standard = polynomial.raised.flatten := by
  have raises : Text.Raises .standard polynomial.latex polynomial.raised :=
    polynomial.first.raises_latex (endsRun_others _ _) (beginsScript_others _ _)
      (raises_others polynomial.others)
  rw [polynomial.normal_latex,
    Text.linear_of_not_mem .standard (polynomial.not_mem_latex (by decide))
      polynomial.completeCalls_latex (polynomial.not_mem_latex (by decide)), raises]

end Polynomial

end TexCalc
