import TexCalc.Proofs.Target.Expression
import TexCalc.Proofs.Text.Characters
import TexCalc.Proofs.Text.Runs
import TexCalc.Proofs.Text.Trimming

/-!
# The grammar of the target language

The grammar says which texts stand for an expression, on four levels of binding.  The reader
finds every expression that the grammar allows: where a text of some level is followed by
something that could not continue it, reading that level gives the expression and stops there.
-/

namespace TexCalc

namespace Text

/-- A numeral begins with a digit and goes on with digits and points. -/
theorem exists_of_isNumeral {text : Text} (isNumeral : text.isNumeral = true) :
    ∃ c run, text = c :: run ∧ c.isDigit = true ∧ run.all isNumeralChar = true := by
  have digits : (text.takeWhile Char.isDigit).all isNumeralChar = true :=
    all_isNumeralChar_of_isDigit List.all_takeWhile
  have split : text.takeWhile Char.isDigit ++ text.dropWhile Char.isDigit = text :=
    List.takeWhile_append_dropWhile
  have all : text.all isNumeralChar = true := by
    rw [← split, List.all_append, digits, Bool.true_and]
    simp only [Text.isNumeral] at isNumeral
    split at isNumeral
    · rename_i whole
      rw [whole]
      rfl
    · rename_i c fraction shape
      simp only [Bool.and_eq_true, beq_iff_eq] at isNumeral
      obtain ⟨⟨_, rfl⟩, _, fractional⟩ := isNumeral
      rw [shape, List.all_cons, List.all_eq_true.2]
      · rfl
      · intro c isMember
        simp only [isNumeralChar, List.all_eq_true.1 fractional c isMember, Bool.true_or]
  cases text with
  | nil => cases isNumeral
  | cons c run =>
      rw [List.all_cons, Bool.and_eq_true] at all
      refine ⟨c, run, rfl, ?_, all.2⟩
      cases digit : c.isDigit with
      | true => rfl
      | false => simp [Text.isNumeral, digit] at isNumeral

end Text

namespace Expression

/-- The levels of the grammar, the one that binds least first. -/
inductive Level where
  | sum
  | product
  | signed
  | atom
  deriving DecidableEq, Repr

/-- A text of some level stands for an expression. -/
inductive Derives (vocabulary : Vocabulary) : Level → Text → Expression → Prop where
  | number {digits : Text} (isNumeral : digits.isNumeral = true) :
      Derives vocabulary .atom digits (.number digits)
  | name {spelling : Text} (isName : spelling.isName = true)
      (isValue : vocabulary.isValue spelling = true) :
      Derives vocabulary .atom spelling (.name spelling)
  | call {function argument : Text} {inside : Expression} (isName : function.isName = true)
      (isFunction : vocabulary.kindOf? function = some .function)
      (isInside : Derives vocabulary .sum argument inside) :
      Derives vocabulary .atom (function ++ argument.parenthesized) (.call function inside)
  | group {text : Text} {inside : Expression} (isInside : Derives vocabulary .sum text inside) :
      Derives vocabulary .atom text.parenthesized inside
  | operand {text : Text} {operand : Expression} (isAtom : Derives vocabulary .atom text operand) :
      Derives vocabulary .signed text operand
  | power {left right : Text} {base exponent : Expression}
      (isBase : Derives vocabulary .atom left base)
      (isExponent : Derives vocabulary .signed right exponent) :
      Derives vocabulary .signed (left ++ '^' :: right) (.binary .power base exponent)
  | negative {text : Text} {operand : Expression}
      (isOperand : Derives vocabulary .signed text operand) :
      Derives vocabulary .signed ('-' :: text) (.negative operand)
  | positive {text : Text} {operand : Expression}
      (isOperand : Derives vocabulary .signed text operand) :
      Derives vocabulary .signed ('+' :: text) operand
  | factor {text : Text} {operand : Expression}
      (isOperand : Derives vocabulary .signed text operand) :
      Derives vocabulary .product text operand
  | product {left right : Text} {c : Char} {operator : BinaryOperator} {first last : Expression}
      (isFirst : Derives vocabulary .product left first)
      (isOperator : BinaryOperator.ofProduct? c = some operator)
      (isLast : Derives vocabulary .signed right last) :
      Derives vocabulary .product (left ++ c :: right) (.binary operator first last)
  | term {text : Text} {operand : Expression}
      (isOperand : Derives vocabulary .product text operand) :
      Derives vocabulary .sum text operand
  | sum {left right : Text} {c : Char} {operator : BinaryOperator} {first last : Expression}
      (isFirst : Derives vocabulary .sum left first)
      (isOperator : BinaryOperator.ofSum? c = some operator)
      (isLast : Derives vocabulary .product right last) :
      Derives vocabulary .sum (left ++ c :: right) (.binary operator first last)

/-! ## What one step of the reader does -/

namespace Reading

variable {bound : Nat} (reading : Reading bound)

@[simp] theorem parts_within {higher : Nat} (isLower : bound ≤ higher) :
    (reading.within isLower).parts = reading.parts :=
  rfl

@[simp] theorem parts_map (change : Expression → Expression) :
    (reading.map change).parts = (change reading.expression, reading.rest) :=
  rfl

end Reading

section

variable (vocabulary : Vocabulary)

theorem readSum?_eq (text : Text) :
    (readSum? vocabulary text).map Reading.parts =
      ((readProduct? vocabulary text).map Reading.parts).bind fun (first, rest) =>
        (readTerms? vocabulary first rest).map Reading.parts := by
  rw [readSum?]
  cases readProduct? vocabulary text with
  | none => rfl
  | some first =>
      simp only [Option.bind_some, Option.map_some, Option.map_map, Reading.parts]
      rfl

theorem readTerms?_cons (left : Expression) {c : Char} {operator : BinaryOperator}
    (isOperator : BinaryOperator.ofSum? c = some operator) (rest : Text) :
    (readTerms? vocabulary left (c :: rest)).map Reading.parts =
      ((readProduct? vocabulary rest).map Reading.parts).bind fun (right, after) =>
        (readTerms? vocabulary (.binary operator left right) after).map Reading.parts := by
  rw [readTerms?]
  simp only [isOperator]
  cases readProduct? vocabulary rest with
  | none => rfl
  | some right =>
      simp only [Option.bind_some, Option.map_some, Option.map_map, Reading.parts]
      rfl

theorem readTerms?_of_ends (left : Expression) {rest : Text}
    (ends : rest.head?.bind BinaryOperator.ofSum? = none) :
    (readTerms? vocabulary left rest).map Reading.parts = some (left, rest) := by
  cases rest with
  | nil =>
      rw [readTerms?]
      rfl
  | cons c rest =>
      simp only [List.head?_cons, Option.bind_some] at ends
      rw [readTerms?]
      simp only [ends]
      rfl

theorem readProduct?_eq (text : Text) :
    (readProduct? vocabulary text).map Reading.parts =
      ((readSigned? vocabulary text).map Reading.parts).bind fun (first, rest) =>
        (readFactors? vocabulary first rest).map Reading.parts := by
  rw [readProduct?]
  cases readSigned? vocabulary text with
  | none => rfl
  | some first =>
      simp only [Option.bind_some, Option.map_some, Option.map_map, Reading.parts]
      rfl

theorem readFactors?_cons (left : Expression) {c : Char} {operator : BinaryOperator}
    (isOperator : BinaryOperator.ofProduct? c = some operator) (rest : Text) :
    (readFactors? vocabulary left (c :: rest)).map Reading.parts =
      ((readSigned? vocabulary rest).map Reading.parts).bind fun (right, after) =>
        (readFactors? vocabulary (.binary operator left right) after).map Reading.parts := by
  rw [readFactors?]
  simp only [isOperator]
  cases readSigned? vocabulary rest with
  | none => rfl
  | some right =>
      simp only [Option.bind_some, Option.map_some, Option.map_map, Reading.parts]
      rfl

theorem readFactors?_of_ends (left : Expression) {rest : Text}
    (ends : rest.head?.bind BinaryOperator.ofProduct? = none) :
    (readFactors? vocabulary left rest).map Reading.parts = some (left, rest) := by
  cases rest with
  | nil =>
      rw [readFactors?]
      rfl
  | cons c rest =>
      simp only [List.head?_cons, Option.bind_some] at ends
      rw [readFactors?]
      simp only [ends]
      rfl

theorem readSigned?_minus (rest : Text) :
    (readSigned? vocabulary ('-' :: rest)).map Reading.parts =
      ((readSigned? vocabulary rest).map Reading.parts).map fun (operand, after) =>
        (.negative operand, after) := by
  rw [readSigned?]
  simp only [Option.map_map]
  rfl

theorem readSigned?_plus (rest : Text) :
    (readSigned? vocabulary ('+' :: rest)).map Reading.parts =
      (readSigned? vocabulary rest).map Reading.parts := by
  rw [readSigned?]
  simp only [Option.map_map]
  rfl

/-- A text that begins with no sign. -/
def IsUnsigned (text : Text) : Prop :=
  text.head? ≠ some '-' ∧ text.head? ≠ some '+'

theorem readSigned?_eq {text : Text} (unsigned : IsUnsigned text) :
    readSigned? vocabulary text =
      (readAtom? vocabulary text).bind fun base =>
        match _power : base.rest with
        | '^' :: rest =>
            (readSigned? vocabulary rest).map fun exponent =>
              (exponent.map (binary .power base.expression)).within (by
                have := base.isShorter
                rw [_power, List.length_cons] at this
                exact Nat.le_of_lt (Nat.lt_of_succ_lt this))
        | _ => some base := by
  conv => lhs; unfold readSigned?
  split
  · exact absurd rfl unsigned.1
  · exact absurd rfl unsigned.2
  · rfl

theorem readSigned?_power {text script : Text} {base : Expression}
    (unsigned : IsUnsigned text)
    (isAtom : (readAtom? vocabulary text).map Reading.parts = some (base, '^' :: script)) :
    (readSigned? vocabulary text).map Reading.parts =
      ((readSigned? vocabulary script).map Reading.parts).map fun (exponent, after) =>
        (.binary .power base exponent, after) := by
  obtain ⟨⟨expression, rest, isShorter⟩, isReading, same⟩ := Option.map_eq_some_iff.1 isAtom
  cases same
  rw [readSigned?_eq vocabulary unsigned, isReading]
  simp only [Option.bind_some, Option.map_map]
  rfl

theorem readSigned?_operand {text rest : Text} {operand : Expression}
    (unsigned : IsUnsigned text) (noPower : rest.head? ≠ some '^')
    (isAtom : (readAtom? vocabulary text).map Reading.parts = some (operand, rest)) :
    (readSigned? vocabulary text).map Reading.parts = some (operand, rest) := by
  obtain ⟨⟨expression, rest, isShorter⟩, isReading, same⟩ := Option.map_eq_some_iff.1 isAtom
  cases same
  rw [readSigned?_eq vocabulary unsigned, isReading]
  simp only [Option.bind_some]
  split
  · exact absurd rfl noPower
  · rfl

theorem readGroup?_of_sum {text after : Text} {inside : Expression}
    (isSum : (readSum? vocabulary text).map Reading.parts = some (inside, ')' :: after)) :
    (readGroup? vocabulary text).map Reading.parts = some (inside, after) := by
  obtain ⟨⟨expression, rest, isShorter⟩, isReading, same⟩ := Option.map_eq_some_iff.1 isSum
  cases same
  rw [readGroup?]
  simp only [isReading, Option.bind_some]
  rfl

theorem readAtom?_group {text after : Text} {inside : Expression}
    (isGroup : (readGroup? vocabulary text).map Reading.parts = some (inside, after)) :
    (readAtom? vocabulary ('(' :: text)).map Reading.parts = some (inside, after) := by
  rw [readAtom?]
  simp only [if_true, Option.map_map]
  exact isGroup

theorem readAtom?_number {digits rest : Text} (isNumeral : digits.isNumeral = true)
    (ends : rest.endsRun isNumeralChar = true) :
    (readAtom? vocabulary (digits ++ rest)).map Reading.parts = some (.number digits, rest) := by
  obtain ⟨c, run, rfl, digit, all⟩ := Text.exists_of_isNumeral isNumeral
  have noGroup : c ≠ '(' := by
    rintro rfl
    cases digit
  rw [List.cons_append, readAtom?]
  simp only [noGroup, digit, if_true, if_false, Text.takeWhile_append_of_endsRun all ends,
    isNumeral, Option.map_some, Reading.parts, Text.dropWhile_append_of_endsRun all ends]

theorem readAtom?_name {spelling rest : Text} (isName : spelling.isName = true)
    (ends : rest.endsRun Char.isAlphanum = true) :
    (readAtom? vocabulary (spelling ++ rest)).map Reading.parts =
      (readNamed? vocabulary spelling rest).map Reading.parts := by
  cases spelling with
  | nil => cases isName
  | cons c run =>
      simp only [Text.isName, Bool.and_eq_true] at isName
      obtain ⟨letter, all⟩ := isName
      have noGroup : c ≠ '(' := by
        rintro rfl
        cases letter
      rw [List.cons_append, readAtom?]
      simp only [noGroup, isDigit_eq_false_of_isAlpha letter, letter, if_true, if_false,
        Bool.false_eq_true, Text.takeWhile_append_of_endsRun all ends, Option.map_map]
      exact congrArg (fun after => (readNamed? vocabulary (c :: run) after).map Reading.parts)
        (Text.dropWhile_append_of_endsRun all ends)

theorem readNamed?_value {spelling : Text} (isValue : vocabulary.isValue spelling = true)
    (rest : Text) :
    (readNamed? vocabulary spelling rest).map Reading.parts = some (.name spelling, rest) := by
  have noFunction : vocabulary.kindOf? spelling ≠ some .function := by
    intro same
    simp only [Vocabulary.isValue, same] at isValue
    cases isValue
  rw [readNamed?.eq_def]
  simp only [noFunction, isValue, if_true, if_false]
  rfl

theorem readNamed?_call {function text after : Text} {inside : Expression}
    (isFunction : vocabulary.kindOf? function = some .function)
    (isGroup : (readGroup? vocabulary text).map Reading.parts = some (inside, after)) :
    (readNamed? vocabulary function ('(' :: text)).map Reading.parts =
      some (.call function inside, after) := by
  obtain ⟨reading, isReading, same⟩ := Option.map_eq_some_iff.1 isGroup
  cases same
  rw [readNamed?]
  simp only [isFunction, if_true, isReading, Option.map_some]
  rfl

end

/-! ## Reading what the grammar allows -/

namespace Level

/-- Whether a text of this level cannot be continued by the text after it. -/
def ends (level : Level) (rest : Text) : Bool :=
  rest.head?.all fun c =>
    !isBaseChar c &&
      match level with
      | atom => true
      | signed | product => c != '^'
      | sum => c != '^' && (BinaryOperator.ofProduct? c).isNone

/-- What reading a text at this level gives. -/
def reads? (vocabulary : Vocabulary) (text : Text) : Level → Option (Expression × Text)
  | sum => (readSum? vocabulary text).map Reading.parts
  | product => (readProduct? vocabulary text).map Reading.parts
  | signed => (readSigned? vocabulary text).map Reading.parts
  | atom => (readAtom? vocabulary text).map Reading.parts

/-- What becomes of an expression of this level with the text after it. -/
def continues? (vocabulary : Vocabulary) (left : Expression) (rest : Text) :
    Level → Option (Expression × Text)
  | sum => (readTerms? vocabulary left rest).map Reading.parts
  | product => (readFactors? vocabulary left rest).map Reading.parts
  | signed | atom => some (left, rest)

end Level

/-- An atom begins with no sign. -/
theorem isUnsigned_of_atom {vocabulary : Vocabulary} {text : Text} {expression : Expression}
    (derives : Derives vocabulary .atom text expression) (rest : Text) :
    IsUnsigned (text ++ rest) := by
  have begins (c : Char) (run : Text) (first : c.isDigit = true ∨ c.isAlpha = true) :
      IsUnsigned (c :: run) := by
    constructor
    all_goals
      intro same
      cases same
      revert first
      decide
  cases derives with
  | number isNumeral =>
      obtain ⟨c, run, rfl, digit, _⟩ := Text.exists_of_isNumeral isNumeral
      exact begins c (run ++ rest) (.inl digit)
  | name isName _ =>
      cases text with
      | nil => cases isName
      | cons c run =>
          simp only [Text.isName, Bool.and_eq_true] at isName
          exact begins c (run ++ rest) (.inr isName.1)
  | @call function argument _ isName _ _ =>
      cases function with
      | nil => cases isName
      | cons c run =>
          simp only [Text.isName, Bool.and_eq_true] at isName
          exact begins c (run ++ argument.parenthesized ++ rest) (.inr isName.1)
  | group isInside => exact ⟨by simp [Text.parenthesized], by simp [Text.parenthesized]⟩

namespace Level

variable {rest : Text}

theorem endsRun_of_ends {level : Level} (ends : level.ends rest = true) :
    rest.endsRun isBaseChar = true := by
  cases rest with
  | nil => rfl
  | cons c rest =>
      simp only [Level.ends, List.head?_cons, Option.all_some, Bool.and_eq_true] at ends
      exact ends.1

theorem ends_atom_of_ends {level : Level} (ends : level.ends rest = true) :
    Level.atom.ends rest = true := by
  cases rest with
  | nil => rfl
  | cons c rest =>
      simp only [Level.ends, List.head?_cons, Option.all_some, Bool.and_eq_true] at ends ⊢
      exact ⟨ends.1, trivial⟩

theorem ends_signed_of_ends_sum (ends : Level.sum.ends rest = true) :
    Level.signed.ends rest = true := by
  cases rest with
  | nil => rfl
  | cons c rest =>
      simp only [Level.ends, List.head?_cons, Option.all_some, Bool.and_eq_true] at ends ⊢
      exact ⟨ends.1, ends.2.1⟩

theorem ne_power_of_ends (ends : Level.signed.ends rest = true) : rest.head? ≠ some '^' := by
  cases rest with
  | nil => exact fun same => by cases same
  | cons c rest =>
      simp only [Level.ends, List.head?_cons, Option.all_some, Bool.and_eq_true, bne_iff_ne,
        ne_eq] at ends
      simpa using ends.2

theorem ofProduct?_of_ends (ends : Level.sum.ends rest = true) :
    rest.head?.bind BinaryOperator.ofProduct? = none := by
  cases rest with
  | nil => rfl
  | cons c rest =>
      simp only [Level.ends, List.head?_cons, Option.all_some, Bool.and_eq_true,
        Option.isNone_iff_eq_none] at ends
      exact ends.2.2

theorem ends_of_ofProduct? {c : Char} {operator : BinaryOperator}
    (isOperator : BinaryOperator.ofProduct? c = some operator) (rest : Text) :
    Level.product.ends (c :: rest) = true := by
  simp only [BinaryOperator.ofProduct?] at isOperator
  split at isOperator
  · rename_i same
    subst same
    rfl
  · split at isOperator
    · rename_i same
      subst same
      rfl
    · cases isOperator

theorem ends_of_ofSum? {c : Char} {operator : BinaryOperator}
    (isOperator : BinaryOperator.ofSum? c = some operator) (rest : Text) :
    Level.sum.ends (c :: rest) = true := by
  simp only [BinaryOperator.ofSum?] at isOperator
  split at isOperator
  · rename_i same
    subst same
    rfl
  · split at isOperator
    · rename_i same
      subst same
      rfl
    · cases isOperator

end Level

/-- Reading a text of some level gives its expression, and goes on after it. -/
theorem reads?_of_derives {vocabulary : Vocabulary} {level : Level} {text : Text}
    {expression : Expression} (derives : Derives vocabulary level text expression) {rest : Text}
    (ends : level.ends rest = true) :
    level.reads? vocabulary (text ++ rest) = level.continues? vocabulary expression rest := by
  have closing (rest : Text) : Level.sum.ends (')' :: rest) = true := rfl
  have noTerms (expression : Expression) (rest : Text) :
      (readTerms? vocabulary expression (')' :: rest)).map Reading.parts =
        some (expression, ')' :: rest) :=
    readTerms?_of_ends vocabulary expression rfl
  induction derives generalizing rest with
  | number isNumeral =>
      have boundary : rest.endsRun isNumeralChar = true :=
        Text.endsRun_mono (Level.endsRun_of_ends ends) isBaseChar_of_isNumeralChar
      exact readAtom?_number vocabulary isNumeral boundary
  | name isName isValue =>
      have boundary : rest.endsRun Char.isAlphanum = true := by
        apply Text.endsRun_mono (Level.endsRun_of_ends ends)
        intro c accepted
        simp only [isBaseChar, accepted, Bool.true_or]
      exact (readAtom?_name vocabulary isName boundary).trans
        (readNamed?_value vocabulary isValue rest)
  | @call function argument inside isName isFunction isInside ih =>
      have read := ih (closing rest)
      simp only [Level.reads?, Level.continues?, noTerms] at read
      have called := readNamed?_call vocabulary isFunction (readGroup?_of_sum vocabulary read)
      have boundary : Text.endsRun Char.isAlphanum ('(' :: (argument ++ ')' :: rest)) = true := rfl
      rw [List.append_assoc, Text.parenthesized_append]
      exact (readAtom?_name vocabulary isName boundary).trans called
  | @group text inside isInside ih =>
      have read := ih (closing rest)
      simp only [Level.reads?, Level.continues?, noTerms] at read
      rw [Text.parenthesized_append]
      exact readAtom?_group vocabulary (readGroup?_of_sum vocabulary read)
  | operand isAtom ih =>
      exact readSigned?_operand vocabulary (isUnsigned_of_atom isAtom rest)
        (Level.ne_power_of_ends ends) (ih (Level.ends_atom_of_ends ends))
  | @power left right base exponent isBase isExponent ihBase ihExponent =>
      have caret : Level.atom.ends ('^' :: (right ++ rest)) = true := rfl
      have first := ihBase caret
      have last := ihExponent ends
      simp only [Level.reads?, Level.continues?] at first last ⊢
      rw [List.append_assoc, List.cons_append,
        readSigned?_power vocabulary (isUnsigned_of_atom isBase _) first, last]
      rfl
  | negative isOperand ih =>
      have operand := ih ends
      simp only [Level.reads?, Level.continues?] at operand ⊢
      rw [List.cons_append, readSigned?_minus, operand]
      rfl
  | positive isOperand ih =>
      have operand := ih ends
      simp only [Level.reads?, Level.continues?] at operand ⊢
      rw [List.cons_append, readSigned?_plus, operand]
  | factor isOperand ih =>
      have operand := ih ends
      simp only [Level.reads?, Level.continues?] at operand ⊢
      rw [readProduct?_eq, operand]
      rfl
  | @product left right c operator first last isFirst isOperator isLast ihFirst ihLast =>
      have before := ihFirst (Level.ends_of_ofProduct? isOperator (right ++ rest))
      have behind := ihLast ends
      simp only [Level.reads?, Level.continues?] at before behind ⊢
      rw [List.append_assoc, List.cons_append, before, readFactors?_cons vocabulary _ isOperator,
        behind]
      rfl
  | term isOperand ih =>
      have operand := ih (Level.ends_signed_of_ends_sum ends)
      simp only [Level.reads?, Level.continues?] at operand ⊢
      rw [readSum?_eq, operand,
        readFactors?_of_ends vocabulary _ (Level.ofProduct?_of_ends ends)]
      rfl
  | @sum left right c operator first last isFirst isOperator isLast ihFirst ihLast =>
      have before := ihFirst (Level.ends_of_ofSum? isOperator (right ++ rest))
      have behind := ihLast (Level.ends_signed_of_ends_sum ends)
      simp only [Level.reads?, Level.continues?] at before behind ⊢
      rw [List.append_assoc, List.cons_append, before, readTerms?_cons vocabulary _ isOperator,
        behind, readFactors?_of_ends vocabulary _ (Level.ofProduct?_of_ends ends)]
      rfl

/-- A whole text of the grammar says its expression. -/
theorem parse?_of_derives {vocabulary : Vocabulary} {text : Text} {expression : Expression}
    (derives : Derives vocabulary .sum text expression) :
    parse? vocabulary text = some expression := by
  have ended : Level.sum.ends [] = true := rfl
  have read := reads?_of_derives derives ended
  have noTerms : (readTerms? vocabulary expression []).map Reading.parts = some (expression, []) :=
    readTerms?_of_ends vocabulary expression rfl
  rw [List.append_nil] at read
  simp only [Level.reads?, Level.continues?, noTerms] at read
  obtain ⟨⟨whole, rest, isShorter⟩, isReading, same⟩ := Option.map_eq_some_iff.1 read
  cases same
  rw [parse?, isReading]
  rfl

end Expression

end TexCalc
