import TexCalc.Linear.Power
import TexCalc.Proofs.Linear.Attached
import TexCalc.Proofs.Polynomial.Accepted
import TexCalc.Proofs.Polynomial.Formula

/-!
# Chains of powers

In a chain of letters each letter has the rest of the chain for its exponent, and a power of `e`
is a call of `exp`.  Powers are formed from the last one on, and the exponent of each is read
from the text of the one behind it.  The power of a variable is a group by then, and is read as a
whole.  The exponential is no group: its first letter alone is read, and the rest of its name is
left behind the power together with its argument.

There is no issue in a chain of powers, and nothing is done to it before its powers are formed.
-/

namespace TexCalc

/-- The power of a letter, `e` being the base of the exponential. -/
def Letter.raisedTo (base : Letter) (exponent : Expression) : Expression :=
  if base.char = 'e' then .call "exp".toList exponent
  else .binary .power (.name [base.char]) exponent

/-- The power of a letter is no product. -/
theorem Letter.raisedTo_ne_times (base : Letter) (exponent left right : Expression) :
    base.raisedTo exponent ≠ .binary .times left right := by
  rw [Letter.raisedTo]
  split <;> simp

/-- A product of two operands or more is one of two. -/
theorem Expression.exists_product_eq (first : Expression) {others : List Expression}
    (nonempty : others ≠ []) :
    ∃ left right, product (first :: others) = .binary .times left right := by
  rw [← List.dropLast_concat_getLast nonempty, product, List.foldl_append]
  exact ⟨_, _, rfl⟩

/-- Two or more letters with `^` between them. -/
inductive PowerChain where
  | pair (base exponent : Letter)
  | raised (base : Letter) (exponent : PowerChain)
  deriving DecidableEq, Repr

namespace PowerChain

/-- The first letter. -/
def base : PowerChain → Letter
  | pair base _ => base
  | raised base _ => base

/-- The chain as it is written. -/
def latex : PowerChain → Text
  | pair base exponent => [base.char, '^', exponent.char]
  | raised base exponent => base.char :: '^' :: exponent.latex

/-- The letters that are exponent and base at once. -/
def inner : PowerChain → List Letter
  | pair _ _ => []
  | raised _ exponent => exponent.base :: exponent.inner

/-- What the chain means: powers associate to the right. -/
def meaning : PowerChain → Expression
  | pair base exponent => base.raisedTo (.name [exponent.char])
  | raised base exponent => base.raisedTo exponent.meaning

/-- An exponent as it is read: a letter, or the power of a variable, which is a group then. -/
inductive Script where
  | letter (symbol : Letter)
  | power (base : Letter) (exponent : Script) (isVariable : base.char ≠ 'e')
  deriving DecidableEq, Repr

namespace Script

/-- The exponent on one line. -/
def text : Script → Text
  | letter symbol => [symbol.char]
  | power base exponent _ => Text.parenthesized (base.char :: '^' :: exponent.text)

/-- The exponent without parentheses of its own. -/
def inside : Script → Text
  | letter symbol => [symbol.char]
  | power base exponent _ => base.char :: '^' :: exponent.text

/-- What the exponent says. -/
def reading : Script → Expression
  | letter symbol => .name [symbol.char]
  | power base exponent _ => .binary .power (.name [base.char]) exponent.reading

end Script

/-- The exponent that is read for the first letter.  Of an exponential only the `e` is read. -/
def exponent : PowerChain → Script
  | pair _ exponent => .letter exponent
  | raised _ exponent =>
      if euler : exponent.base.char = 'e' then .letter exponent.base
      else .power exponent.base exponent.exponent euler

/-- The arguments of the exponentials that are torn, the first of them in front. -/
def torn : PowerChain → List Script
  | pair _ _ => []
  | raised _ exponent =>
      if exponent.base.char = 'e' then exponent.exponent :: exponent.torn else exponent.torn

/-- What is left of an exponential behind the power that has taken its first letter. -/
def remnant (argument : Script) : Text :=
  "xp".toList ++ argument.inside.parenthesized

/-- The chain when powers have their final form. -/
def formed (chain : PowerChain) : Text :=
  Text.power [chain.base.char] chain.exponent.text ++ chain.torn.flatMap remnant

/-- What the chain is read as: the letters of a torn exponential are variables, and its argument is
a factor. -/
def reading (chain : PowerChain) : Expression :=
  .product (chain.base.raisedTo chain.exponent.reading ::
    chain.torn.flatMap fun argument => [.name ['x'], .name ['p'], argument.reading])

/-! ## Reading and meaning -/

/-- Exponentials are torn when an exponent in the chain is the base of one. -/
theorem torn_eq_nil_iff (chain : PowerChain) :
    chain.torn = [] ↔ ∀ letter ∈ chain.inner, letter.char ≠ 'e' := by
  induction chain with
  | pair base exponent => exact iff_of_true rfl nofun
  | raised base exponent ih =>
      rw [torn, inner, List.forall_mem_cons, ← ih]
      split
      · rename_i euler
        exact iff_of_false (List.cons_ne_nil _ _) fun none => none.1 euler
      · rename_i isVariable
        exact (and_iff_right isVariable).symm

/-- Without torn exponentials each exponent is the rest of the chain. -/
theorem raisedTo_reading_exponent {chain : PowerChain} (whole : chain.torn = []) :
    chain.base.raisedTo chain.exponent.reading = chain.meaning := by
  induction chain with
  | pair base exponent => rfl
  | raised base rest ih =>
      have isVariable : rest.base.char ≠ 'e' :=
        (torn_eq_nil_iff _).1 whole _ List.mem_cons_self
      rw [torn, if_neg isVariable] at whole
      have inside : rest.meaning = .binary .power (.name [rest.base.char]) rest.exponent.reading := by
        rw [← ih whole, Letter.raisedTo, if_neg isVariable]
      rw [meaning, inside, exponent, dif_neg isVariable, Script.reading]
      rfl

/-- A chain is read as it is meant exactly when no exponent in it is the base of an exponential. -/
theorem reading_eq_meaning_iff (chain : PowerChain) :
    chain.reading = chain.meaning ↔ ∀ letter ∈ chain.inner, letter.char ≠ 'e' := by
  rw [← torn_eq_nil_iff]
  refine ⟨fun same => ?_, fun whole => ?_⟩
  · cases isTorn : chain.torn with
    | nil => rfl
    | cons argument arguments =>
        obtain ⟨left, right, isProduct⟩ :
            ∃ left right, chain.reading = .binary .times left right := by
          rw [reading, isTorn]
          exact Expression.exists_product_eq _ (List.cons_ne_nil _ _)
        rw [isProduct] at same
        cases chain with
        | pair base exponent => exact absurd same.symm (base.raisedTo_ne_times _ _ _)
        | raised base exponent => exact absurd same.symm (base.raisedTo_ne_times _ _ _)
  · rw [reading, whole]
    exact raisedTo_reading_exponent whole

end PowerChain

/-! ## Beginnings of exponents -/

namespace Text

/-- A letter or digit can stand behind a `^`. -/
theorem beginsExponent_cons {c : Char} (word : c.isAlphanum = true) (rest : Text) :
    beginsExponent (c :: rest) = true := by
  unfold beginsExponent
  split
  · rename_i same
    cases same
    cases word
  · rename_i same
    cases same
    exact word
  · rename_i same
    cases same

/-- Where no constant begins, one character is the exponent. -/
theorem exponent?_char {vocabulary : Vocabulary} {c : Char} {rest : Text}
    (word : c.isAlphanum = true) (noConstant : vocabulary.constantAt? (c :: rest) = none) :
    exponent? vocabulary (c :: rest) = some ⟨[c], rest⟩ := by
  simp only [exponent?, skipBlanks_cons (isAsciiBlank_eq_false_of_isAlphanum word),
    Bracket.ofArgument?_of_isAlphanum word, noConstant, word, if_true]

/-- The name of the exponential is no constant. -/
theorem constantAt?_standard_exp (argument rest : Text) :
    Vocabulary.standard.constantAt? ("exp".toList ++ (argument.parenthesized ++ rest)) = none := by
  have other : ∀ name ∈ Vocabulary.standard.namesOf .constant, name.text ≠ "exp".toList := by
    decide +kernel
  rw [Vocabulary.constantAt?, List.findSome?_eq_none_iff]
  intro name isMember
  rw [name.after?_append (by decide) (by rfl), if_neg (other name isMember), Option.map_none]

end Text

namespace PowerChain

/-! ## No issue -/

theorem all_isSource_latex (chain : PowerChain) :
    chain.latex.all Polynomial.isSource = true := by
  have letter (letter : Letter) : Polynomial.isSource letter.char = true :=
    Polynomial.isSource_of_isAlphanum letter.isAlphanum
  have caret : Polynomial.isSource '^' = true := by decide
  induction chain with
  | pair base exponent => simp [latex, letter, caret]
  | raised base exponent ih => simp [latex, letter, caret, ih]

theorem not_mem_latex (chain : PowerChain) {c : Char} (other : Polynomial.isSource c = false) :
    c ∉ chain.latex := by
  intro isMember
  have source := List.all_eq_true.1 chain.all_isSource_latex c isMember
  rw [other] at source
  cases source

/-- A chain begins with its base. -/
theorem exists_latex_eq (chain : PowerChain) :
    ∃ rest, chain.latex = chain.base.char :: '^' :: rest := by
  cases chain with
  | pair base exponent => exact ⟨_, rfl⟩
  | raised base exponent => exact ⟨_, rfl⟩

theorem isTight_latex (chain : PowerChain) : chain.latex.IsTight := by
  have letter (letter : Letter) : Text.IsTight [letter.char] :=
    .of_baseChars (by simp) (by simp [letter.isBaseChar])
  induction chain with
  | pair base exponent => exact (letter base).append_cons (letter exponent)
  | raised base exponent ih => exact (letter base).append_cons ih

theorem isFaultless_latex (chain : PowerChain) (previous? : Option Token) :
    Text.IsFaultless [] previous? chain.latex := by
  have letter (base : Letter) {rest : Text} (previous? : Option Token)
      (begins : rest.beginsExponent = true)
      (later : Text.IsFaultless [] (some .superscript) rest) :
      Text.IsFaultless [] previous? (base.char :: '^' :: rest) := by
    have isBase : Token.isBase (.char base.char) = true :=
      Bool.or_eq_true_iff.2 (.inl (isWordChar_of_isAlphanum base.isAlphanum))
    exact .char (by simp [Token.isOrdinary, base.isAlphanum]) (.script isBase begins later)
  induction chain generalizing previous? with
  | pair base exponent =>
      exact letter base previous? (Text.beginsExponent_cons exponent.isAlphanum [])
        (.char (by simp [Token.isOrdinary, exponent.isAlphanum]) .nil)
  | raised base exponent ih =>
      obtain ⟨rest, begins⟩ := exponent.exists_latex_eq
      refine letter base previous? ?_ (ih _)
      rw [begins]
      exact Text.beginsExponent_cons exponent.base.isAlphanum _

/-- No issue is found in a chain of powers. -/
theorem isAccepted_latex (chain : PowerChain) : Translator.IsAccepted chain.latex := by
  rw [Translator.IsAccepted, Translator.issues, chain.isTight_latex.trim,
    Text.issues_eq_nil_of_isFaultless (chain.isFaultless_latex none)]
  rfl

/-! ## The steps before powers -/

/-- A letter of a chain is no name. -/
theorem completeCalls_latex (chain : PowerChain) :
    chain.latex.completeCalls .standard false = chain.latex := by
  have letter (letter : Letter) {rest : Text} (ends : rest.endsRun Char.isAlphanum = true) :
      Text.completeCalls .standard false (letter.char :: rest) =
        letter.char :: Text.completeCalls .standard false rest :=
    Text.completeCalls_plain (ne_of_isAlphanum letter.isAlphanum (by decide))
      (Text.callableAt?_standard_letter letter.isAlpha ends)
  have caret (rest : Text) : Text.completeCalls .standard false ('^' :: rest) =
      '^' :: Text.completeCalls .standard false rest :=
    Text.completeCalls_plain (by decide)
      (Vocabulary.standard.callableAt?_eq_none rfl (by decide) rest)
  induction chain with
  | pair base exponent =>
      rw [latex, letter base rfl, caret, letter exponent rfl, Text.completeCalls]
  | raised base exponent ih => rw [latex, letter base rfl, caret, ih]

/-! ## Powers -/

namespace Script

theorem isNeutral_text (script : Script) : script.text.IsNeutral := by
  have letter (letter : Letter) : Text.IsNeutral [letter.char] :=
    .of_baseChars (by simp [letter.isBaseChar])
  induction script with
  | letter symbol => exact letter symbol
  | power base exponent isVariable ih =>
      exact ((letter base).append (ih.cons (c := '^') rfl)).parenthesized

theorem isNeutral_inside (script : Script) : script.inside.IsNeutral := by
  have letter (letter : Letter) : Text.IsNeutral [letter.char] :=
    .of_baseChars (by simp [letter.isBaseChar])
  cases script with
  | letter symbol => exact letter symbol
  | power base exponent isVariable =>
      exact (letter base).append (exponent.isNeutral_text.cons (c := '^') rfl)

theorem isTight_text (script : Script) : script.text.IsTight := by
  cases script with
  | letter symbol => exact .of_baseChars (by simp [text]) (by simp [text, symbol.isBaseChar])
  | power base exponent isVariable => exact .parenthesized _

theorem isTight_inside (script : Script) : script.inside.IsTight := by
  have letter (letter : Letter) : Text.IsTight [letter.char] :=
    .of_baseChars (by simp) (by simp [letter.isBaseChar])
  cases script with
  | letter symbol => exact letter symbol
  | power base exponent isVariable => exact (letter base).append_cons exponent.isTight_text

theorem isEnclosed_inside (script : Script) : script.inside.isEnclosed = false := by
  obtain ⟨symbol, rest, begins⟩ : ∃ symbol : Letter, ∃ rest, script.inside = symbol.char :: rest := by
    cases script with
    | letter symbol => exact ⟨symbol, _, rfl⟩
    | power base exponent isVariable => exact ⟨base, _, rfl⟩
  refine Text.isEnclosed_eq_false_of_head (script.isTight_inside.trim.trans begins) ?_
  exact ne_of_isAlphanum symbol.isAlphanum (by decide)

/-- An exponent gets one pair of parentheses. -/
theorem exponential_text (script : Script) :
    script.text.exponential = "exp".toList ++ script.inside.parenthesized := by
  rw [Text.exponential]
  cases script with
  | letter symbol =>
      have noGroup := (letter symbol).isEnclosed_inside
      rw [inside] at noGroup
      rw [text, noGroup]
      rfl
  | power base exponent isVariable =>
      have group := Text.isEnclosed_parenthesized (power base exponent isVariable).isNeutral_inside
      rw [inside] at group
      rw [text, group]
      rfl

end Script

/-- The power of Euler's number. -/
theorem power_of_euler {base : Letter} (euler : base.char = 'e') (script : Script) :
    Text.power [base.char] script.text = "exp".toList ++ script.inside.parenthesized := by
  rw [euler]
  exact script.exponential_text

/-- The power of a variable. -/
theorem power_of_variable {base : Letter} (isVariable : base.char ≠ 'e') (script : Script) :
    Text.power [base.char] script.text = (Script.power base script isVariable).text := by
  have noEuler : Text.beforeEuler? [base.char] = none := by
    simp only [Text.beforeEuler?, List.getLast?_singleton]
    split
    · rename_i same
      exact absurd (Option.some.inj same) isVariable
    · rfl
  rw [Text.power, noEuler]
  rfl

/-- The exponent that is read from a chain whose powers are formed, and what is left behind it. -/
theorem exponent?_formed (base : Letter) (rest : PowerChain) :
    Text.exponent? .standard rest.formed =
      some ⟨(raised base rest).exponent.text, (raised base rest).torn.flatMap remnant⟩ := by
  by_cases euler : rest.base.char = 'e'
  · have noConstant := Text.constantAt?_standard_exp rest.exponent.inside
      (rest.torn.flatMap remnant)
    have read := Text.exponent?_char (c := 'e') (by decide) noConstant
    rw [formed, power_of_euler euler, exponent, dif_pos euler, torn, if_pos euler,
      List.flatMap_cons, Script.text, euler, List.append_assoc]
    exact read
  · have group := Polynomial.exponent?_parenthesized
      (Script.power rest.base rest.exponent euler).isNeutral_inside (rest.torn.flatMap remnant)
    have wrapped : (Script.power rest.base rest.exponent euler).inside.wrap =
        (Script.power rest.base rest.exponent euler).text := by
      rw [Text.wrap, Script.isEnclosed_inside, (Script.isTight_inside _).trim]
      rfl
    rw [wrapped] at group
    rw [formed, power_of_variable euler, exponent, dif_neg euler, torn, if_neg euler]
    exact group

/-- The powers of a chain are formed from the last on. -/
theorem raises_latex (chain : PowerChain) : Text.Raises .standard chain.latex chain.formed := by
  have run (letter : Letter) : [letter.char].all isBaseChar = true := by
    simp [letter.isBaseChar]
  induction chain with
  | pair base exponent =>
      have noConstant : Vocabulary.standard.constantAt? [exponent.char] = none :=
        Text.constantAt?_standard_letter exponent.isAlpha rfl
      have alone : Text.Raises .standard [exponent.char] [exponent.char] :=
        .append (run exponent) rfl rfl .nil
      have power := alone.power (run base) (List.cons_ne_nil _ _)
        (Text.exponent?_char exponent.isAlphanum noConstant)
      rwa [List.singleton_append] at power
  | raised base rest ih =>
      have power := ih.power (run base) (List.cons_ne_nil _ _) (exponent?_formed base rest)
      rwa [List.singleton_append] at power

/-- A chain on one line. -/
theorem linear_normal (chain : PowerChain) :
    chain.latex.normal.linear .standard .standard = chain.formed.flatten := by
  rw [Text.normal_eq_normalized chain.isTight_latex.trim,
    Polynomial.normalized_eq_self chain.all_isSource_latex,
    Text.linear_of_not_mem .standard (chain.not_mem_latex (by decide)) chain.completeCalls_latex
      (chain.not_mem_latex (by decide)), chain.raises_latex]

end PowerChain

end TexCalc
