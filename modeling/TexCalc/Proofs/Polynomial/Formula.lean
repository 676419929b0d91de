import TexCalc.Options
import TexCalc.Proofs.Bracketed.Formula
import TexCalc.Proofs.Bracketed.Raised
import TexCalc.Proofs.Vocabulary.Nameless

/-!
# Polynomials

A polynomial is a sum or difference of monomials, and a monomial is a product of letters, each
of which may have a digit for its exponent.  Nothing but the order of the characters tells which
letter an exponent belongs to.  A polynomial has one meaning in the target language, and it has
a reading: what its exponents become when powers are formed from the last to the first.

The base of a power is the whole run in front of its `^`.  Behind the last exponent of a monomial
nothing is a power any more, and the exponent is one digit.  Every other exponent begins the run
of the next power, so that this power, which is a group by then, is read as the exponent.
-/

namespace TexCalc

/-- A decimal digit. -/
structure Digit where
  char : Char
  isDigit : char.isDigit = true
  deriving DecidableEq, Repr

theorem Digit.isAlphanum (digit : Digit) : digit.char.isAlphanum = true := by
  simp [Char.isAlphanum, digit.isDigit]

theorem Letter.isAlphanum (letter : Letter) : letter.char.isAlphanum = true := by
  simp [Char.isAlphanum, letter.isAlpha]

namespace Expression

/-- The product of operands, from the left. -/
def product : List Expression → Expression
  | [] => .number "1".toList
  | first :: others => others.foldl (.binary .times) first

end Expression

namespace Sign

/-- The operator between two terms. -/
def operator : Sign → BinaryOperator
  | plus => .plus
  | minus => .minus

end Sign

namespace Polynomial

/-- A letter, perhaps with an exponent.  Euler's number is no variable. -/
structure Factor where
  letter : Letter
  exponent? : Option Digit
  isVariable : letter.char ≠ 'e'
  deriving DecidableEq, Repr

/-- Digits, and letters behind them. -/
structure Run where
  digits : Text
  isDigits : digits.all Char.isDigit = true
  letters : List Letter
  deriving DecidableEq, Repr

/-- A product of letters with a coefficient, in which no name can be read. -/
structure Monomial where
  coefficient : Text
  isDigits : coefficient.all Char.isDigit = true
  factors : List Factor
  nonempty : factors ≠ []
  nameless : Vocabulary.standard.IsNameless (factors.map (·.letter.char))

end Polynomial

/-- A first monomial, and others with the signs in front of them. -/
structure Polynomial where
  first : Polynomial.Monomial
  others : List (Sign × Polynomial.Monomial)

namespace Polynomial

/-! ## Writing -/

/-- The factor as it is written. -/
def Factor.latex (factor : Factor) : Text :=
  factor.letter.char :: factor.exponent?.elim [] fun exponent => ['^', exponent.char]

namespace Run

/-- The run as it is written. -/
def text (run : Run) : Text :=
  run.digits ++ run.letters.map Letter.char

/-- The run that a digit begins. -/
def ofDigit (digit : Digit) : Run where
  digits := [digit.char]
  isDigits := by simp [digit.isDigit]
  letters := []

/-- The run with one more letter. -/
def push (run : Run) (letter : Letter) : Run :=
  { run with letters := run.letters ++ [letter] }

/-- The numeral and the names in a run. -/
def operands (run : Run) : List Expression :=
  (if run.digits.isEmpty then [] else [.number run.digits]) ++
    run.letters.map fun letter => .name [letter.char]

end Run

namespace Monomial

def latex (monomial : Monomial) : Text :=
  monomial.coefficient ++ monomial.factors.flatMap Factor.latex

/-- The run that the coefficient begins. -/
def front (monomial : Monomial) : Run :=
  ⟨monomial.coefficient, monomial.isDigits, []⟩

/-- The monomial without its exponents. -/
def run (monomial : Monomial) : Run :=
  ⟨monomial.coefficient, monomial.isDigits, monomial.factors.map Factor.letter⟩

/-- The exponents that are written in the monomial. -/
def exponents (monomial : Monomial) : List Digit :=
  monomial.factors.filterMap Factor.exponent?

end Monomial

/-- The polynomial as it is written. -/
def latex (polynomial : Polynomial) : Text :=
  polynomial.first.latex ++
    polynomial.others.flatMap fun (sign, monomial) => sign.char :: monomial.latex

def monomials (polynomial : Polynomial) : List Monomial :=
  polynomial.first :: polynomial.others.map Prod.snd

/-! ## Meaning -/

/-- A letter, raised to its own exponent. -/
def Factor.meaning (factor : Factor) : Expression :=
  match factor.exponent? with
  | some exponent => .binary .power (.name [factor.letter.char]) (.number [exponent.char])
  | none => .name [factor.letter.char]

/-- The product of the coefficient and the factors. -/
def Monomial.meaning (monomial : Monomial) : Expression :=
  .product (monomial.front.operands ++ monomial.factors.map Factor.meaning)

/-- The sum of values for the monomials, from the left. -/
def sum (polynomial : Polynomial) (value : Monomial → Expression) : Expression :=
  polynomial.others.foldl
    (fun left (sign, monomial) => .binary sign.operator left (value monomial))
    (value polynomial.first)

/-- What the polynomial means in the target language. -/
def meaning (polynomial : Polynomial) : Expression :=
  polynomial.sum Monomial.meaning

/-! ## Reading -/

/-- Powers standing on each other.  The last letter of each run is the base of a power, and the
digits and letters in front of it are factors. -/
inductive Tower where
  | single (front : Run) (base : Letter) (exponent : Digit)
  | stacked (front : Run) (base : Letter) (exponent : Tower)
  deriving DecidableEq, Repr

namespace Tower

/-- The tower on one line, without the parentheses around it. -/
def text : Tower → Text
  | single front base exponent => (front.push base).text ++ '^' :: [exponent.char]
  | stacked front base exponent => (front.push base).text ++ '^' :: exponent.text.parenthesized

/-- What the tower says. -/
def reading : Tower → Expression
  | single front base exponent =>
      .product (front.operands ++
        [.binary .power (.name [base.char]) (.number [exponent.char])])
  | stacked front base exponent =>
      .product (front.operands ++ [.binary .power (.name [base.char]) exponent.reading])

end Tower

/-- The tower that the exponents of factors behind a run make, and the letters that are left
behind the last exponent.  An exponent takes the letters up to the next `^` with it: together
they are the base of the next power, and that power becomes the exponent. -/
def tower? (front : Run) : List Factor → Option (Tower × List Letter)
  | [] => none
  | factor :: factors =>
      match factor.exponent? with
      | none => tower? (front.push factor.letter) factors
      | some exponent =>
          match tower? (.ofDigit exponent) factors with
          | none => some (.single front factor.letter exponent, factors.map Factor.letter)
          | some (tower, behind) => some (.stacked front factor.letter tower, behind)

/-- A run and the factors behind it when powers have their final form. -/
def raisedFactors (front : Run) (factors : List Factor) : Text :=
  match tower? front factors with
  | none => front.text ++ factors.map (·.letter.char)
  | some (tower, behind) => tower.text.parenthesized ++ behind.map Letter.char

namespace Monomial

/-- What the monomial is read as. -/
def reading (monomial : Monomial) : Expression :=
  match tower? monomial.front monomial.factors with
  | none => .product monomial.run.operands
  | some (tower, behind) => .product (tower.reading :: behind.map (.name [·.char]))

/-- The monomial when powers have their final form. -/
def raised (monomial : Monomial) : Text :=
  raisedFactors monomial.front monomial.factors

end Monomial

/-- What the polynomial is read as. -/
def reading (polynomial : Polynomial) : Expression :=
  polynomial.sum Monomial.reading

/-- The polynomial when powers have their final form. -/
def raised (polynomial : Polynomial) : Text :=
  polynomial.first.raised ++
    polynomial.others.flatMap fun (sign, monomial) => sign.char :: monomial.raised

end Polynomial

/-! ## Powers -/

namespace Polynomial

namespace Run

variable (run : Run) (letter : Letter)

@[simp] theorem text_push : (run.push letter).text = run.text ++ [letter.char] := by
  simp [text, push]

@[simp] theorem text_ofDigit (digit : Digit) : (ofDigit digit).text = [digit.char] :=
  rfl

theorem all_isBaseChar_text : run.text.all isBaseChar = true := by
  have digits : run.digits.all isBaseChar = true := by
    rw [List.all_eq_true]
    intro c isMember
    simp [isBaseChar, Char.isAlphanum, List.all_eq_true.1 run.isDigits c isMember]
  have letters : (run.letters.map Letter.char).all isBaseChar = true := by
    rw [List.all_map, List.all_eq_true]
    exact fun letter _ => letter.isBaseChar
  rw [text, List.all_append, digits, letters]
  rfl

theorem isTight_text_push : Text.IsTight (run.push letter).text :=
  .of_baseChars (by simp) (run.push letter).all_isBaseChar_text

end Run

namespace Tower

theorem isNeutral_text (tower : Tower) : tower.text.IsNeutral := by
  have run (front : Run) : front.text.IsNeutral := .of_baseChars front.all_isBaseChar_text
  induction tower with
  | single front base exponent =>
      have digit : Text.IsNeutral [exponent.char] :=
        .of_baseChars (Run.ofDigit exponent).all_isBaseChar_text
      exact (run (front.push base)).append (digit.cons rfl)
  | stacked front base exponent ih =>
      exact (run (front.push base)).append (ih.parenthesized.cons rfl)

theorem isTight_text (tower : Tower) : tower.text.IsTight := by
  cases tower with
  | single front base exponent =>
      have digit : Text.IsTight [exponent.char] :=
        .of_baseChars (by simp) (Run.ofDigit exponent).all_isBaseChar_text
      exact (front.isTight_text_push base).append_cons digit
  | stacked front base exponent =>
      exact (front.isTight_text_push base).append_cons (.parenthesized _)

/-- A tower begins with a digit or a letter. -/
theorem exists_text_eq (tower : Tower) :
    ∃ c rest, tower.text = c :: rest ∧ isBaseChar c = true := by
  have begins (front : Run) (base : Letter) (rest : Text) :
      ∃ c after, (front.push base).text ++ rest = c :: after ∧ isBaseChar c = true := by
    have all := (front.push base).all_isBaseChar_text
    cases same : (front.push base).text with
    | nil => simp at same
    | cons c text =>
        rw [same, List.all_cons, Bool.and_eq_true] at all
        exact ⟨c, text ++ rest, rfl, all.1⟩
  cases tower with
  | single front base exponent => exact begins front base _
  | stacked front base exponent => exact begins front base _

/-- A tower gets parentheses of its own. -/
theorem wrap_text (tower : Tower) : tower.text.wrap = tower.text.parenthesized := by
  obtain ⟨c, rest, same, base⟩ := tower.exists_text_eq
  have trimmed := tower.isTight_text.trim
  have noGroup : tower.text.isEnclosed = false := by
    apply Text.isEnclosed_eq_false_of_head (trimmed.trans same)
    rintro rfl
    cases base
  rw [Text.wrap, noGroup, trimmed]
  rfl

end Tower

/-- A run that ends in a variable is the base of a power as a whole. -/
theorem power_push (front : Run) {base : Letter} (isVariable : base.char ≠ 'e') (exponent : Text) :
    Text.power (front.push base).text exponent =
      Text.parenthesized ((front.push base).text ++ '^' :: exponent) := by
  have noEuler : Text.beforeEuler? (front.push base).text = none := by
    rw [Text.beforeEuler?, Run.text_push, List.getLast?_concat]
    split
    · rename_i same
      exact absurd (Option.some.inj same) isVariable
    · rfl
  rw [Text.power, noEuler]

theorem exponent?_digit (digit : Digit) (rest : Text) :
    Text.exponent? .standard (digit.char :: rest) = some ⟨[digit.char], rest⟩ := by
  have visible := isAsciiBlank_eq_false_of_isAlphanum digit.isAlphanum
  have noConstant := Vocabulary.standard.constantAt?_eq_none
    (isAlpha_eq_false_of_isDigit digit.isDigit) rest
  have noBracket := Bracket.ofArgument?_of_isAlphanum digit.isAlphanum
  simp only [Text.exponent?, Text.skipBlanks_cons visible, noBracket, noConstant, digit.isAlphanum,
    if_true]

theorem exponent?_parenthesized {text : Text} (neutral : text.IsNeutral) (rest : Text) :
    Text.exponent? .standard (text.parenthesized ++ rest) = some ⟨text.wrap, rest⟩ := by
  have round : Bracket.ofArgument? '(' = some .round := by decide
  have group : Bracket.round.group? (text ++ ')' :: rest) = some ⟨text, rest⟩ :=
    neutral.group? .round rest
  rw [Text.parenthesized_append]
  simp only [Text.exponent?, Text.skipBlanks_cons (c := '(') (by decide), round, group,
    Option.map_some]

/-- A run and the factors behind it, in front of what goes on with no run and no exponent. -/
theorem raises_factors (front : Run) (factors : List Factor) {rest result : Text}
    (ends : rest.endsRun isBaseChar = true) (noScript : rest.beginsScript = false)
    (raises : Text.Raises .standard rest result) :
    Text.Raises .standard (front.text ++ (factors.flatMap Factor.latex ++ rest))
      (raisedFactors front factors ++ result) := by
  induction factors generalizing front with
  | nil =>
      rw [raisedFactors, tower?, List.map_nil, List.append_nil]
      exact .append front.all_isBaseChar_text ends noScript raises
  | cons factor factors ih =>
      obtain ⟨letter, exponent?, isVariable⟩ := factor
      cases exponent? with
      | none =>
          have same : raisedFactors front (⟨letter, none, isVariable⟩ :: factors) =
              raisedFactors (front.push letter) factors := by
            rw [raisedFactors, raisedFactors, tower?]
            cases tower? (front.push letter) factors <;> simp
          have pushed := ih (front.push letter)
          rw [Run.text_push, List.append_assoc] at pushed
          rw [same]
          exact pushed
      | some exponent =>
          have script := ih (.ofDigit exponent)
          have all := (front.push letter).all_isBaseChar_text
          have nonempty : (front.push letter).text ≠ [] := by simp
          have whole : front.text ++
              ((⟨letter, some exponent, isVariable⟩ :: factors).flatMap Factor.latex ++ rest) =
                (front.push letter).text ++
                  '^' :: ((Run.ofDigit exponent).text ++ (factors.flatMap Factor.latex ++ rest)) := by
            simp [Factor.latex]
          rw [whole]
          cases isTower : tower? (.ofDigit exponent) factors with
          | none =>
              have isExponent := exponent?_digit exponent (factors.map (·.letter.char) ++ result)
              simp only [raisedFactors, isTower, Run.text_ofDigit] at script
              have power := Text.Raises.power all nonempty script isExponent
              rw [power_push front isVariable] at power
              simpa [raisedFactors, tower?, isTower, Tower.text, Function.comp_def] using power
          | some found =>
              obtain ⟨tower, behind⟩ := found
              have isExponent := exponent?_parenthesized tower.isNeutral_text
                (behind.map Letter.char ++ result)
              simp only [raisedFactors, isTower, List.append_assoc] at script
              have power := Text.Raises.power all nonempty script isExponent
              rw [power_push front isVariable, tower.wrap_text] at power
              simpa [raisedFactors, tower?, isTower, Tower.text] using power

end Polynomial

end TexCalc
