import Mathlib.Data.List.Forall2
import TexCalc.Proofs.Polynomial.Printed

/-!
# The meaning of a polynomial

What a polynomial is translated to stands for its reading.  Reading and meaning are the same as
long as no monomial has two exponents: a second exponent makes a tower, in which some exponent is
no numeral.
-/

namespace TexCalc

namespace Expression

variable {vocabulary : Vocabulary} {left : Text} {first : Expression} {operands : List Text}
  {values : List Expression}

/-- Further operands of a product. -/
theorem derives_factors (isFirst : Derives vocabulary .product left first)
    (others : List.Forall₂ (Derives vocabulary .signed) operands values) :
    Derives vocabulary .product (left ++ operands.flatMap ('*' :: ·))
      (values.foldl (.binary .times) first) := by
  induction others generalizing left first with
  | nil =>
      rw [List.flatMap_nil, List.append_nil]
      exact isFirst
  | cons other _ ih =>
      rw [List.flatMap_cons, ← List.append_assoc]
      exact ih (.product isFirst rfl other)

theorem derives_product (nonempty : operands ≠ [])
    (all : List.Forall₂ (Derives vocabulary .signed) operands values) :
    Derives vocabulary .product (Text.product operands) (product values) := by
  cases all with
  | nil => exact absurd rfl nonempty
  | cons isFirst others => exact derives_factors (.factor isFirst) others

/-- How many powers stand on each other in an expression. -/
def powerHeight : Expression → Nat
  | number _ | name _ => 0
  | call _ argument => argument.powerHeight
  | negative operand => operand.powerHeight
  | binary .power base exponent => max base.powerHeight (exponent.powerHeight + 1)
  | binary _ left right => max left.powerHeight right.powerHeight

theorem powerHeight_foldl_le {height : Nat} (first : Expression) (others : List Expression) :
    (others.foldl (.binary .times) first).powerHeight ≤ height ↔
      first.powerHeight ≤ height ∧ ∀ other ∈ others, other.powerHeight ≤ height := by
  induction others generalizing first with
  | nil => simp
  | cons other others ih =>
      rw [List.foldl_cons, ih, powerHeight, Nat.max_le, List.forall_mem_cons, and_assoc]
      exact nofun

/-- In a product powers stand no higher than in its operands. -/
theorem powerHeight_product_le {height : Nat} {values : List Expression} :
    (product values).powerHeight ≤ height ↔ ∀ value ∈ values, value.powerHeight ≤ height := by
  cases values with
  | nil => simp [product, powerHeight]
  | cons first others => rw [product, powerHeight_foldl_le, List.forall_mem_cons]

/-- A product at the front of a product adds its operands. -/
theorem product_product_append {values : List Expression} (nonempty : values ≠ [])
    (others : List Expression) : product (product values :: others) = product (values ++ others) := by
  cases values with
  | nil => exact absurd rfl nonempty
  | cons first values => simp [product]

end Expression

namespace Polynomial

open Expression

/-! ## What is printed -/

theorem Run.derives_operands (run : Run) :
    List.Forall₂ (Derives .standard .signed) run.texts run.operands := by
  have letters : List.Forall₂ (Derives .standard .signed)
      (run.letters.map fun letter => [letter.char])
      (run.letters.map fun letter => .name [letter.char]) := by
    induction run.letters with
    | nil => exact .nil
    | cons letter letters ih => exact .cons (.operand (Bracketed.derives_letter letter)) ih
  rw [Run.texts, Run.operands]
  by_cases empty : run.digits.isEmpty = true
  · rw [if_pos empty, if_pos empty]
    exact letters
  · have isNumeral : run.digits.isNumeral = true := by
      rw [Text.isNumeral, Text.dropWhile_of_all run.isDigits]
      simpa using empty
    rw [if_neg empty, if_neg empty]
    exact .cons (.operand (.number isNumeral)) letters

/-- A run whose last letter has an exponent. -/
theorem derives_power (front : Run) (base : Letter) {text : Text} {exponent : Expression}
    (isExponent : Derives .standard .signed text exponent) :
    Derives .standard .product (Text.product (front.push base).texts ++ '^' :: text)
      (product (front.operands ++ [.binary .power (.name [base.char]) exponent])) := by
  have texts : (front.push base).texts = front.texts ++ [[base.char]] := by
    simp [Run.texts, Run.push]
  have power : Derives .standard .signed ([base.char] ++ '^' :: text)
      (.binary .power (.name [base.char]) exponent) :=
    .power (Bracketed.derives_letter base) isExponent
  rw [texts, Text.product_append_last]
  exact derives_product (by simp) (List.rel_append front.derives_operands (.cons power .nil))

theorem Tower.derives (tower : Tower) :
    Derives .standard .product tower.printed tower.reading := by
  induction tower with
  | single front base exponent =>
      have digit : Text.isNumeral [exponent.char] = true := by
        simp [Text.isNumeral, exponent.isDigit]
      exact derives_power front base (.operand (.number digit))
  | stacked front base exponent ih => exact derives_power front base (.operand (.group (.term ih)))

theorem Monomial.derives (monomial : Monomial) :
    Derives .standard .product monomial.printed monomial.reading := by
  rw [Monomial.printed, Monomial.reading]
  cases tower? monomial.front monomial.factors with
  | none =>
      have nonempty : monomial.run.texts ≠ [] := by
        simp [Run.texts, Monomial.run, monomial.nonempty]
      exact derives_product nonempty monomial.run.derives_operands
  | some found =>
      obtain ⟨tower, behind⟩ := found
      have letters := (Run.mk [] rfl behind).derives_operands
      exact derives_product (List.cons_ne_nil _ _)
        (.cons (.operand (.group (.term tower.derives))) letters)

/-- What the polynomial is translated to stands for its reading. -/
theorem parse?_printed (polynomial : Polynomial) :
    parse? .standard polynomial.printed = some polynomial.reading := by
  apply parse?_of_derives
  have first : Derives .standard .sum polynomial.first.printed polynomial.first.reading :=
    .term polynomial.first.derives
  rw [printed, reading, sum]
  generalize polynomial.first.printed = left at first ⊢
  generalize polynomial.first.reading = value at first ⊢
  induction polynomial.others generalizing left value with
  | nil =>
      rw [List.flatMap_nil, List.append_nil]
      exact first
  | cons term others ih =>
      obtain ⟨sign, monomial⟩ := term
      have isOperator : BinaryOperator.ofSum? sign.char = some sign.operator := by
        cases sign <;> decide
      rw [List.flatMap_cons, ← List.append_assoc]
      exact ih _ _ (.sum first isOperator monomial.derives)

/-! ## Reading and meaning -/

/-- The number of exponents in a tower. -/
def Tower.height : Tower → Nat
  | single _ _ _ => 1
  | stacked _ _ exponent => exponent.height + 1

theorem Tower.height_pos (tower : Tower) : 0 < tower.height := by
  cases tower <;> simp [height]

/-- All exponents of the factors are in the tower. -/
theorem length_exponents (front : Run) (factors : List Factor) :
    (factors.filterMap Factor.exponent?).length =
      ((tower? front factors).elim 0 fun found => found.1.height) := by
  induction factors generalizing front with
  | nil => rfl
  | cons factor factors ih =>
      cases hasExponent : factor.exponent? with
      | none =>
          simp only [List.filterMap_cons_none hasExponent, tower?, hasExponent]
          exact ih (front.push factor.letter)
      | some exponent =>
          simp only [List.filterMap_cons_some hasExponent, List.length_cons, tower?, hasExponent,
            ih (.ofDigit exponent)]
          cases tower? (.ofDigit exponent) factors <;> rfl

theorem map_meaning_of_tower?_eq_none {front : Run} {factors : List Factor}
    (noTower : tower? front factors = none) :
    factors.map Factor.meaning = factors.map (.name [·.letter.char]) := by
  have length := length_exponents front factors
  rw [noTower] at length
  have none := List.filterMap_eq_nil_iff.1 (List.eq_nil_of_length_eq_zero length)
  refine List.map_congr_left fun factor isFactor => ?_
  rw [Factor.meaning, none factor isFactor]

/-- With one exponent the tower is a product of the operands up to it. -/
theorem operands_of_single {front base : Run} {factors : List Factor} {letter : Letter}
    {exponent : Digit} {behind : List Letter}
    (isTower : tower? front factors = some (.single base letter exponent, behind)) :
    front.operands ++ factors.map Factor.meaning =
      (base.operands ++ [.binary .power (.name [letter.char]) (.number [exponent.char])]) ++
        behind.map (.name [·.char]) := by
  induction factors generalizing front with
  | nil => cases isTower
  | cons factor factors ih =>
      rw [tower?] at isTower
      cases hasExponent : factor.exponent? with
      | none =>
          simp only [hasExponent] at isTower
          rw [← ih isTower]
          simp [Run.operands, Run.push, Factor.meaning, hasExponent]
      | some digit =>
          simp only [hasExponent] at isTower
          split at isTower
          · rename_i noTower
            cases isTower
            simp [Factor.meaning, hasExponent, map_meaning_of_tower?_eq_none noTower]
          · cases isTower

/-- The exponents of a tower stand on each other in its reading. -/
theorem Tower.height_le {tower : Tower} {height : Nat}
    (bounded : tower.reading.powerHeight ≤ height) : tower.height ≤ height := by
  induction tower generalizing height with
  | single front base exponent =>
      have power := powerHeight_product_le.1 bounded _ (List.mem_append_right _ List.mem_cons_self)
      rw [powerHeight, Nat.max_le] at power
      exact power.2
  | stacked front base exponent ih =>
      have power := powerHeight_product_le.1 bounded _ (List.mem_append_right _ List.mem_cons_self)
      rw [powerHeight, Nat.max_le] at power
      have := ih (Nat.le_sub_one_of_lt power.2)
      simp only [Tower.height]
      omega

theorem Run.powerHeight_operands (run : Run) : ∀ value ∈ run.operands, value.powerHeight ≤ 1 := by
  intro value isMember
  rw [Run.operands, List.mem_append, List.mem_map] at isMember
  rcases isMember with digits | ⟨letter, _, rfl⟩
  · split at digits
    · cases digits
    · rw [List.mem_singleton.1 digits]
      exact Nat.zero_le 1
  · exact Nat.zero_le 1

theorem Monomial.powerHeight_meaning (monomial : Monomial) : monomial.meaning.powerHeight ≤ 1 := by
  have factor (factor : Factor) : factor.meaning.powerHeight ≤ 1 := by
    rw [Factor.meaning]
    split <;> simp [powerHeight]
  rw [Monomial.meaning, powerHeight_product_le, List.forall_mem_append]
  refine ⟨monomial.front.powerHeight_operands, ?_⟩
  simp [factor]

/-- A monomial is read as it is meant exactly when it has no second exponent. -/
theorem Monomial.reading_eq_meaning_iff (monomial : Monomial) :
    monomial.reading = monomial.meaning ↔ monomial.exponents.length ≤ 1 := by
  have length := length_exponents monomial.front monomial.factors
  rw [Monomial.exponents, length, Monomial.reading, Monomial.meaning]
  cases isTower : tower? monomial.front monomial.factors with
  | none =>
      refine iff_of_true ?_ (Nat.zero_le 1)
      rw [map_meaning_of_tower?_eq_none isTower]
      simp [Run.operands, Monomial.run, Monomial.front, Function.comp_def]
  | some found =>
      obtain ⟨tower, behind⟩ := found
      cases tower with
      | single base letter exponent =>
          refine iff_of_true ?_ (Nat.le_refl 1)
          rw [operands_of_single isTower]
          exact product_product_append (by simp) _
      | stacked base letter exponent =>
          have tall : ¬ (Tower.stacked base letter exponent).height ≤ 1 := by
            have := exponent.height_pos
            simp only [Tower.height]
            omega
          refine iff_of_false (fun same => tall ?_) tall
          have plain := monomial.powerHeight_meaning
          rw [Monomial.meaning, ← same, powerHeight_product_le] at plain
          exact Tower.height_le (plain _ List.mem_cons_self)

/-- Two sums over the monomials are the same when they agree on each of them. -/
theorem sum_eq_sum_iff (polynomial : Polynomial) (value other : Monomial → Expression) :
    polynomial.sum value = polynomial.sum other ↔
      ∀ monomial ∈ polynomial.monomials, value monomial = other monomial := by
  rw [sum, sum, monomials, List.forall_mem_cons]
  generalize value polynomial.first = left
  generalize other polynomial.first = left'
  induction polynomial.others generalizing left left' with
  | nil => simp
  | cons term others ih =>
      obtain ⟨sign, monomial⟩ := term
      rw [List.foldl_cons, List.foldl_cons, ih, List.map_cons, List.forall_mem_cons,
        Expression.binary.injEq]
      simp only [true_and, and_assoc]

/-- In strict mode a polynomial is translated without warnings to an expression that says what the
polynomial is read as.  That is what it means exactly when no monomial has two exponents. -/
theorem report_says_reading (polynomial : Polynomial) : ∃ expression,
    Translator.report {} polynomial.latex = .ok ⟨expression, []⟩ ∧
      parse? .standard expression = some polynomial.reading ∧
        (polynomial.reading = polynomial.meaning ↔
          ∀ monomial ∈ polynomial.monomials, monomial.exponents.length ≤ 1) := by
  refine ⟨polynomial.printed, polynomial.report_latex_eq_printed, polynomial.parse?_printed, ?_⟩
  rw [reading, meaning, sum_eq_sum_iff]
  simp only [Monomial.reading_eq_meaning_iff]

/-- The square of `x` times the cube of `y`. -/
def squareTimesCube : Polynomial where
  first := {
    coefficient := []
    isDigits := rfl
    factors := [⟨⟨'x', rfl⟩, some ⟨'2', rfl⟩, by decide⟩, ⟨⟨'y', rfl⟩, some ⟨'3', rfl⟩, by decide⟩]
    nonempty := List.cons_ne_nil _ _
    nameless := by decide +kernel
  }
  others := []

/-- The exponent of the first letter becomes a factor of the second power's base, and the power
becomes the exponent. -/
theorem report_of_squareTimesCube :
    squareTimesCube.latex = "x^2y^3".toList ∧
      Translator.report {} squareTimesCube.latex = .ok ⟨"(x^(2*y^3))".toList, []⟩ ∧
        parse? .standard "(x^(2*y^3))".toList ≠ some squareTimesCube.meaning := by
  have whole : squareTimesCube.printed = "(x^(2*y^3))".toList := by decide
  rw [← whole]
  refine ⟨by decide, squareTimesCube.report_latex_eq_printed, ?_⟩
  rw [parse?_printed]
  decide

end Polynomial

end TexCalc
