import TexCalc.Proofs.Bracketed.Meaning
import TexCalc.Proofs.Polynomial.Accepted
import TexCalc.Proofs.Symbol.Neighbours

/-!
# Polynomials on paper

A polynomial whose powers are formed is a list of runs and groups.  It is printed with a sign
between any two operands, and what is printed stands for the reading of the polynomial.
-/

namespace TexCalc

namespace Text

/-- Operands with the sign of a product between them. -/
def product : List Text → Text
  | [] => []
  | first :: others => first ++ others.flatMap ('*' :: ·)

/-- What is written behind the last operand belongs to it. -/
theorem product_append_last (operands : List Text) (last behind : Text) :
    product (operands ++ [last]) ++ behind = product (operands ++ [last ++ behind]) := by
  cases operands with
  | nil => simp [product]
  | cons first operands => simp [product]

end Text

namespace Polynomial

/-! ## Symbols -/

/-- The numeral and the variables of a run. -/
def Run.symbols (run : Run) : List Symbol :=
  (if run.digits.isEmpty then [] else [.number run.digits]) ++
    run.letters.map fun letter => .var letter.char

/-- The symbols of a tower, without the parentheses around it. -/
def Tower.symbols : Tower → List Symbol
  | single front base exponent =>
      (front.push base).symbols ++ .operator '^' :: [.number [exponent.char]]
  | stacked front base exponent =>
      (front.push base).symbols ++ .operator '^' :: Symbol.parenthesized exponent.symbols

def Monomial.symbols (monomial : Monomial) : List Symbol :=
  match tower? monomial.front monomial.factors with
  | none => monomial.run.symbols
  | some (tower, behind) =>
      Symbol.parenthesized tower.symbols ++ behind.map fun letter => .var letter.char

def symbols (polynomial : Polynomial) : List Symbol :=
  polynomial.first.symbols ++
    polynomial.others.flatMap fun (sign, monomial) => .operator sign.char :: monomial.symbols

/-- No run of the tower spells a name. -/
def Tower.IsNameless : Tower → Prop
  | single front base _ =>
      Vocabulary.standard.IsNameless ((front.push base).letters.map Letter.char)
  | stacked front base exponent =>
      Vocabulary.standard.IsNameless ((front.push base).letters.map Letter.char) ∧
        exponent.IsNameless

theorem all_isAlpha (letters : List Letter) :
    (letters.map Letter.char).all Char.isAlpha = true := by
  rw [List.all_map, List.all_eq_true]
  exact fun letter _ => letter.isAlpha

theorem symbols_letters {letters : List Letter}
    (nameless : Vocabulary.standard.IsNameless (letters.map Letter.char)) :
    Text.symbols .standard (letters.map Letter.char) = letters.map fun letter => .var letter.char := by
  rw [Text.symbols_of_isNameless (all_isAlpha letters) nameless, List.map_map]
  rfl

theorem Run.symbols_text {run : Run}
    (nameless : Vocabulary.standard.IsNameless (run.letters.map Letter.char)) :
    run.text.symbols .standard = run.symbols := by
  have letters := symbols_letters nameless
  rw [Run.text, Run.symbols]
  cases isDigits : run.digits with
  | nil => exact letters
  | cons c digits =>
      have all := run.isDigits
      rw [isDigits, List.all_cons, Bool.and_eq_true] at all
      have numerals := Text.all_isNumeralChar_of_isDigit all.2
      have ends : Text.endsRun isNumeralChar (run.letters.map Letter.char) = true := by
        cases run.letters with
        | nil => rfl
        | cons letter letters =>
            have noPoint : letter.char ≠ '.' := ne_of_isAlphanum letter.isAlphanum (by decide)
            simp [Text.endsRun, isNumeralChar, isDigit_eq_false_of_isAlpha letter.isAlpha, noPoint]
      rw [List.cons_append, Text.symbols_numeral (by simp [beginsNumeral, all.1]),
        Text.takeWhile_append_of_endsRun numerals ends,
        Text.dropWhile_append_of_endsRun numerals ends, letters]
      rfl

/-- What stands in a tower and behind it are letters of the run and of the factors. -/
theorem isNameless_of_tower? {front : Run} {factors : List Factor} {tower : Tower}
    {behind : List Letter} (isTower : tower? front factors = some (tower, behind))
    (nameless : Vocabulary.standard.IsNameless
      (front.letters.map Letter.char ++ factors.map (·.letter.char))) :
    tower.IsNameless ∧ Vocabulary.standard.IsNameless (behind.map Letter.char) := by
  induction factors generalizing front tower behind with
  | nil => cases isTower
  | cons factor factors ih =>
      have pushed : Vocabulary.standard.IsNameless
          ((front.push factor.letter).letters.map Letter.char ++ factors.map (·.letter.char)) := by
        simpa [Run.push] using nameless
      have run := pushed.mono (List.prefix_append _ _).isInfix
      have later := pushed.mono (List.suffix_append _ _).isInfix
      rw [tower?] at isTower
      split at isTower
      · exact ih isTower pushed
      · split at isTower
        · cases isTower
          refine ⟨run, ?_⟩
          rw [List.map_map]
          exact later
        · rename_i above
          cases isTower
          obtain ⟨exponent, rest⟩ := ih above later
          exact ⟨⟨run, exponent⟩, rest⟩

theorem Run.spells (run : Run)
    (nameless : Vocabulary.standard.IsNameless (run.letters.map Letter.char)) :
    Text.SpellsWithin .standard run.text run.symbols := by
  rw [← run.symbols_text nameless]
  exact .word run.all_isBaseChar_text

theorem Tower.spells (tower : Tower) (nameless : tower.IsNameless) :
    Text.SpellsWithin .standard tower.text tower.symbols := by
  have nothing : Vocabulary.standard.IsNameless [] := by decide +kernel
  induction tower with
  | single front base exponent =>
      exact ((front.push base).spells nameless).binary (by decide)
        (Run.spells (.ofDigit exponent) nothing)
  | stacked front base exponent ih =>
      exact ((front.push base).spells nameless.1).binary (by decide) (ih nameless.2).parenthesized

section

variable {rest : Text} {others : List Symbol}

theorem Monomial.spells (monomial : Monomial) (ends : rest.endsRun isBaseChar = true)
    (noGroup : rest.trimStart.head? ≠ some '\x7b') (spells : Text.Spells .standard rest others) :
    Text.Spells .standard (monomial.raised ++ rest) (monomial.symbols ++ others) := by
  rw [Monomial.raised, raisedFactors, Monomial.symbols]
  cases isTower : tower? monomial.front monomial.factors with
  | none =>
      have nameless : Vocabulary.standard.IsNameless (monomial.run.letters.map Letter.char) := by
        rw [Monomial.run, List.map_map]
        exact monomial.nameless
      have run := (monomial.run.spells nameless).before ends noGroup spells
      rw [Run.text, Monomial.run, List.map_map] at run
      rw [Run.text, Monomial.front, List.map_nil, List.append_nil]
      exact run
  | some found =>
      obtain ⟨tower, behind⟩ := found
      obtain ⟨inside, letters⟩ := isNameless_of_tower? isTower monomial.nameless
      have base : (behind.map Letter.char).all isBaseChar = true := by
        rw [List.all_map, List.all_eq_true]
        exact fun letter _ => letter.isBaseChar
      have behind' := Text.Spells.word base ends spells
      rw [symbols_letters letters] at behind'
      rw [List.append_assoc, List.append_assoc]
      exact (tower.spells inside).parenthesized_append behind'

end

theorem trimStart_others (others : List (Sign × Monomial)) (write : Monomial → Text) :
    (Text.trimStart
      (others.flatMap fun (sign, monomial) => sign.char :: write monomial)).head? ≠ some '\x7b' := by
  cases others with
  | nil => simp [Text.trimStart]
  | cons term others =>
      obtain ⟨sign, monomial⟩ := term
      have visible : isBlank sign.char = false := by cases sign <;> decide
      rw [List.flatMap_cons, List.cons_append, Text.trimStart_eq_of_head visible]
      cases sign <;> simp [Sign.char]

theorem spells_others (others : List (Sign × Monomial)) :
    Text.Spells .standard
      (others.flatMap fun (sign, monomial) => sign.char :: monomial.raised)
      (others.flatMap fun (sign, monomial) => .operator sign.char :: monomial.symbols) := by
  induction others with
  | nil => exact .nil
  | cons term others ih =>
      obtain ⟨sign, monomial⟩ := term
      have later := monomial.spells (endsRun_others others _) (trimStart_others others _) ih
      have noCloser : sign.char ≠ '\x7d' := by cases sign <;> decide
      have whole := later.mark (c := sign.char) (by cases sign <;> decide)
        fun closer => absurd closer noCloser
      have isOperator : Symbol.ofPunctuation (Text.flatBracket sign.char) = .operator sign.char := by
        cases sign <;> decide
      rw [isOperator] at whole
      exact whole

theorem spells_raised (polynomial : Polynomial) :
    Text.Spells .standard polynomial.raised polynomial.symbols :=
  polynomial.first.spells (endsRun_others _ _) (trimStart_others _ _)
    (spells_others polynomial.others)

/-! ## Printing -/

/-- The operands of a run, one by one. -/
def Run.texts (run : Run) : List Text :=
  (if run.digits.isEmpty then [] else [run.digits]) ++ run.letters.map fun letter => [letter.char]

/-- What a tower is printed as, without the parentheses around it. -/
def Tower.printed : Tower → Text
  | single front base exponent => Text.product (front.push base).texts ++ '^' :: [exponent.char]
  | stacked front base exponent =>
      Text.product (front.push base).texts ++ '^' :: exponent.printed.parenthesized

def Monomial.printed (monomial : Monomial) : Text :=
  match tower? monomial.front monomial.factors with
  | none => Text.product monomial.run.texts
  | some (tower, behind) =>
      Text.product (tower.printed.parenthesized :: behind.map fun letter => [letter.char])

/-- The expression that the polynomial is translated to. -/
def printed (polynomial : Polynomial) : Text :=
  polynomial.first.printed ++
    polynomial.others.flatMap fun (sign, monomial) => sign.char :: monomial.printed

section

open TexCalc.Symbol

variable {previous? : Option Symbol} {others : List Symbol} {text : Text}

theorem prints_letters (previous : Symbol) (letters : List Letter)
    (isEnd : ∀ c, isJoined previous (.var c) = true)
    (later : ∀ previous?, Prints previous? others text) :
    Prints (some previous) (letters.map (fun letter => .var letter.char) ++ others)
      ((letters.map fun letter => [letter.char]).flatMap ('*' :: ·) ++ text) := by
  induction letters generalizing previous with
  | nil => exact later _
  | cons letter letters ih =>
      exact .product rfl (isEnd letter.char) (ih (.var letter.char) fun _ => rfl)

variable (front : ∀ symbol, previous?.any (isJoined · symbol) = false)
  (later : ∀ previous?, Prints previous? others text)

include front later

/-- A run is printed with signs between its operands. -/
theorem Run.prints (run : Run) :
    Prints previous? (run.symbols ++ others) (Text.product run.texts ++ text) := by
  rw [Run.symbols, Run.texts]
  by_cases empty : run.digits.isEmpty = true
  · rw [if_pos empty, if_pos empty]
    cases run.letters with
    | nil => exact later _
    | cons letter letters =>
        have factors := prints_letters (.var letter.char) letters (fun _ => rfl) later
        simp only [List.nil_append, List.map_cons, Text.product, List.cons_append]
        exact .cons rfl (front _) factors
  · rw [if_neg empty, if_neg empty]
    have factors := prints_letters (.number run.digits) run.letters (fun _ => rfl) later
    simp only [List.cons_append, Text.product, List.append_assoc]
    exact .cons rfl (front _) factors

theorem Tower.prints (tower : Tower) :
    Prints previous? (tower.symbols ++ others) (tower.printed ++ text) := by
  induction tower generalizing previous? others text with
  | single base letter exponent =>
      have caret (previous? : Option Symbol) :
          Prints previous? (.operator '^' :: .number [exponent.char] :: others)
            ('^' :: exponent.char :: text) :=
        .separator rfl (.cons rfl (joinsFactors_isJoined.leads rfl) (later _))
      simp only [Tower.symbols, Tower.printed, List.append_assoc, List.cons_append, List.nil_append]
      exact (base.push letter).prints front caret
  | stacked base letter exponent ih =>
      have closing (previous? : Option Symbol) :
          Prints previous? (.delimiter ')' :: others) (')' :: text) :=
        .separator rfl (later _)
      have caret (previous? : Option Symbol) :
          Prints previous? (.operator '^' :: .delimiter '(' ::
              (exponent.symbols ++ .delimiter ')' :: others))
            ('^' :: '(' :: (exponent.printed ++ ')' :: text)) :=
        .separator rfl (.cons rfl (joinsFactors_isJoined.leads rfl)
          (ih (fun _ => joinsFactors_isJoined.leads rfl) closing))
      simp only [Tower.symbols, Tower.printed, Symbol.parenthesized, Text.parenthesized,
        List.append_assoc, List.cons_append, List.nil_append]
      exact (base.push letter).prints front caret

theorem Monomial.prints (monomial : Monomial) :
    Prints previous? (monomial.symbols ++ others) (monomial.printed ++ text) := by
  rw [Monomial.symbols, Monomial.printed]
  cases tower? monomial.front monomial.factors with
  | none => exact monomial.run.prints front later
  | some found =>
      obtain ⟨tower, behind⟩ := found
      have factors := prints_letters (.delimiter ')') behind (fun _ => rfl) later
      have closing (previous? : Option Symbol) :
          Prints previous?
            (.delimiter ')' :: (behind.map (fun letter => .var letter.char) ++ others))
            (')' :: ((behind.map fun letter => [letter.char]).flatMap ('*' :: ·) ++ text)) :=
        .separator rfl factors
      simp only [Symbol.parenthesized, Text.product, Text.parenthesized, List.append_assoc,
        List.cons_append, List.nil_append]
      refine .cons rfl (front _) (tower.prints ?_ closing)
      exact fun _ => joinsFactors_isJoined.leads rfl

end

theorem prints_others (others : List (Sign × Monomial)) (previous? : Option Symbol) :
    Symbol.Prints previous?
      (others.flatMap fun (sign, monomial) => .operator sign.char :: monomial.symbols)
      (others.flatMap fun (sign, monomial) => sign.char :: monomial.printed) := by
  induction others generalizing previous? with
  | nil => exact .nil
  | cons term others ih =>
      obtain ⟨sign, monomial⟩ := term
      refine .separator rfl (monomial.prints ?_ ih)
      exact fun _ => Symbol.joinsFactors_isJoined.leads rfl

/-- In strict mode a polynomial is translated without warnings. -/
theorem report_latex_eq_printed (polynomial : Polynomial) :
    Translator.report {} polynomial.latex = .ok ⟨polynomial.printed, []⟩ :=
  Translator.report_of_prints polynomial.isAccepted_latex polynomial.linear_normal
    polynomial.spells_raised
    (polynomial.first.prints (fun _ => rfl) (prints_others polynomial.others))

end Polynomial

end TexCalc
