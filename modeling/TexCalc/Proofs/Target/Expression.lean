import TexCalc.Linear.Power
import TexCalc.Symbol.Classify

/-!
# Expressions of the target language

The calculator reads an expression by the usual rules.  Sums and products are read from the
left, a power from the right; a sign binds less than a power and more than a product.  A
name is a run of letters and digits: a function must be called, while a constant or a single
letter stands for a value.
-/

namespace TexCalc

/-- The signs that stand between two operands. -/
inductive BinaryOperator where
  | plus
  | minus
  | times
  | divide
  | power
  deriving DecidableEq, Repr

/-- What an expression of the target language says. -/
inductive Expression where
  | number (digits : Text)
  | name (spelling : Text)
  | call (function : Text) (argument : Expression)
  | negative (operand : Expression)
  | binary (operator : BinaryOperator) (left right : Expression)
  deriving DecidableEq, Repr

namespace BinaryOperator

def sign : BinaryOperator → Char
  | plus => '+'
  | minus => '-'
  | times => '*'
  | divide => '/'
  | power => '^'

/-- The signs between the terms of a sum. -/
def ofSum? (c : Char) : Option BinaryOperator :=
  if c = '+' then some plus else if c = '-' then some minus else none

/-- The signs between the factors of a product. -/
def ofProduct? (c : Char) : Option BinaryOperator :=
  if c = '*' then some times else if c = '/' then some divide else none

end BinaryOperator

namespace Text

/-- Whether a text is a decimal numeral: digits, and perhaps a point and more digits. -/
def isNumeral (text : Text) : Bool :=
  match text.dropWhile Char.isDigit with
  | [] => !text.isEmpty
  | c :: fraction =>
      (text.head?.any Char.isDigit && c == '.') && (!fraction.isEmpty && fraction.all Char.isDigit)

end Text

namespace Vocabulary

/-- Whether a name stands for a value: the vocabulary has it as a constant, or does not have
it and it is a single letter. -/
def isValue (vocabulary : Vocabulary) (spelling : Text) : Bool :=
  match vocabulary.kindOf? spelling with
  | some .constant => true
  | some .function => false
  | none => spelling.length == 1

end Vocabulary

namespace Expression

/-- An expression that was read from the front of a text, and the rest, which is shorter than
the given bound. -/
structure Reading (bound : Nat) where
  expression : Expression
  rest : Text
  isShorter : rest.length < bound

namespace Reading

/-- The same reading under a higher bound. -/
def within {bound : Nat} (reading : Reading bound) {higher : Nat} (isLower : bound ≤ higher) :
    Reading higher :=
  { reading with isShorter := Nat.lt_of_lt_of_le reading.isShorter isLower }

/-- The same reading with something done to its expression. -/
def map {bound : Nat} (change : Expression → Expression) (reading : Reading bound) :
    Reading bound :=
  { reading with expression := change reading.expression }

/-- Expression and rest. -/
def parts {bound : Nat} (reading : Reading bound) : Expression × Text :=
  (reading.expression, reading.rest)

end Reading

section

variable (vocabulary : Vocabulary)

mutual

/-- Read a sum: products with `+` and `-` between them. -/
def readSum? (text : Text) : Option (Reading text.length) :=
  (readProduct? text).bind fun first =>
    (readTerms? first.expression first.rest).map (·.within first.isShorter)
termination_by 5 * text.length + 3
decreasing_by
  · omega
  · have := first.isShorter
    omega

/-- Read the further terms of a sum that begins with `left`. -/
def readTerms? (left : Expression) (text : Text) : Option (Reading (text.length + 1)) :=
  match text with
  | [] => some ⟨left, [], by simp⟩
  | c :: rest =>
      match BinaryOperator.ofSum? c with
      | none => some ⟨left, c :: rest, by simp⟩
      | some operator =>
          (readProduct? rest).bind fun right =>
            (readTerms? (.binary operator left right.expression) right.rest).map
              (·.within (Nat.le_trans right.isShorter (Nat.le_add_right rest.length 2)))
termination_by 5 * text.length
decreasing_by
  · simp only [List.length_cons]; omega
  · have := right.isShorter
    simp only [List.length_cons]
    omega

/-- Read a product: signed operands with `*` and `/` between them. -/
def readProduct? (text : Text) : Option (Reading text.length) :=
  (readSigned? text).bind fun first =>
    (readFactors? first.expression first.rest).map (·.within first.isShorter)
termination_by 5 * text.length + 2
decreasing_by
  · omega
  · have := first.isShorter
    omega

/-- Read the further factors of a product that begins with `left`. -/
def readFactors? (left : Expression) (text : Text) : Option (Reading (text.length + 1)) :=
  match text with
  | [] => some ⟨left, [], by simp⟩
  | c :: rest =>
      match BinaryOperator.ofProduct? c with
      | none => some ⟨left, c :: rest, by simp⟩
      | some operator =>
          (readSigned? rest).bind fun right =>
            (readFactors? (.binary operator left right.expression) right.rest).map
              (·.within (Nat.le_trans right.isShorter (Nat.le_add_right rest.length 2)))
termination_by 5 * text.length
decreasing_by
  · simp only [List.length_cons]; omega
  · have := right.isShorter
    simp only [List.length_cons]
    omega

/-- Read an operand with the signs in front of it and the exponent behind it. -/
def readSigned? (text : Text) : Option (Reading text.length) :=
  match text with
  | '-' :: rest => (readSigned? rest).map fun operand => (operand.map negative).within (by simp)
  | '+' :: rest => (readSigned? rest).map (·.within (by simp))
  | text =>
      (readAtom? text).bind fun base =>
        match _power : base.rest with
        | '^' :: rest =>
            (readSigned? rest).map fun exponent =>
              (exponent.map (binary .power base.expression)).within (by
                have := base.isShorter
                rw [_power, List.length_cons] at this
                exact Nat.le_of_lt (Nat.lt_of_succ_lt this))
        | _ => some base
termination_by 5 * text.length + 1
decreasing_by
  · simp only [List.length_cons]; omega
  · simp only [List.length_cons]; omega
  · omega
  · have := base.isShorter
    rw [_power, List.length_cons] at this
    omega

/-- Read a numeral, a name, a call or a group in parentheses. -/
def readAtom? (text : Text) : Option (Reading text.length) :=
  match text with
  | [] => none
  | c :: rest =>
      if c = '(' then
        (readGroup? rest).map (·.within (by simp))
      else if c.isDigit then
        let digits := c :: rest.takeWhile isNumeralChar
        if Text.isNumeral digits then
          some ⟨number digits, rest.dropWhile isNumeralChar,
            Nat.lt_succ_of_le (Text.length_dropWhile_le isNumeralChar rest)⟩
        else
          none
      else if c.isAlpha then
        (readNamed? (c :: rest.takeWhile Char.isAlphanum) (rest.dropWhile Char.isAlphanum)).map
          (·.within (Nat.succ_le_succ (Text.length_dropWhile_le Char.isAlphanum rest)))
      else
        none
termination_by 5 * text.length
decreasing_by
  · simp only [List.length_cons]; omega
  · have := Text.length_dropWhile_le Char.isAlphanum rest
    simp only [List.length_cons]
    omega

/-- Read what follows a name: the argument of a function, and nothing after a value. -/
def readNamed? (spelling text : Text) : Option (Reading (text.length + 1)) :=
  if vocabulary.kindOf? spelling = some .function then
    match text with
    | '(' :: rest =>
        (readGroup? rest).map fun argument =>
          (argument.map (call spelling)).within (Nat.le_add_right rest.length 2)
    | _ => none
  else if vocabulary.isValue spelling then
    some ⟨name spelling, text, Nat.lt_succ_self _⟩
  else
    none
termination_by 5 * text.length
decreasing_by simp only [List.length_cons]; omega

/-- Read the inside of a group and the parenthesis that closes it. -/
def readGroup? (text : Text) : Option (Reading text.length) :=
  (readSum? text).bind fun inside =>
    match _closed : inside.rest with
    | ')' :: after => some ⟨inside.expression, after, by
        have := inside.isShorter
        rw [_closed, List.length_cons] at this
        omega⟩
    | _ => none
termination_by 5 * text.length + 4
decreasing_by omega

end

/-- The expression that a whole text says. -/
def parse? (text : Text) : Option Expression :=
  (readSum? vocabulary text).bind fun whole =>
    if whole.rest.isEmpty then some whole.expression else none

end

end Expression

end TexCalc
