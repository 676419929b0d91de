import TexCalc.Proofs.Target.Expression
import TexCalc.Proofs.Text.Neutral
import TexCalc.Tex.Command
import TexCalc.Tex.Delimiter

/-!
# Bracketed formulas

In a bracketed formula every operation shows its extent: sums and products stand in
parentheses, arguments in groups, and functions before sized parentheses.  Such a formula is a
tree that can be written in one way only, and it has one meaning in the target language.
-/

namespace TexCalc

/-- A decimal numeral. -/
structure Numeral where
  text : Text
  isNumeral : text.isNumeral = true
  deriving DecidableEq, Repr

/-- An ASCII letter. -/
structure Letter where
  char : Char
  isAlpha : char.isAlpha = true
  deriving DecidableEq, Repr

namespace Bracketed

/-- How two operands are put together in parentheses. -/
inductive Joint where
  | sum
  | difference
  | product
  /-- Both operands in parentheses of their own, with no sign between them. -/
  | juxtaposition
  deriving DecidableEq, Repr

namespace Joint

/-- Two operands put together, `times` being the sign of a product. -/
def between (times : Text) (left right : Text) : Joint → Text
  | sum => Text.parenthesized (left ++ '+' :: right)
  | difference => Text.parenthesized (left ++ '-' :: right)
  | product => Text.parenthesized (left ++ (times ++ right))
  | juxtaposition => Text.parenthesized (left.parenthesized ++ right.parenthesized)

def operator : Joint → BinaryOperator
  | sum => .plus
  | difference => .minus
  | product | juxtaposition => .times

end Joint

/-- The commands for functions of one argument. -/
inductive Function where
  | sin
  | cos
  | tan
  | arcsin
  | arccos
  | arctan
  | ln
  | log
  | exp
  | sec
  | csc
  | cot
  deriving DecidableEq, Repr

namespace Function

/-- The name of the command. -/
def name : Function → Text
  | sin => "sin".toList
  | cos => "cos".toList
  | tan => "tan".toList
  | arcsin => "arcsin".toList
  | arccos => "arccos".toList
  | arctan => "arctan".toList
  | ln => "ln".toList
  | log => "log".toList
  | exp => "exp".toList
  | sec => "sec".toList
  | csc => "csc".toList
  | cot => "cot".toList

/-- The reciprocal function that the command stands for, if it does. -/
def reciprocal? : Function → Option Reciprocal
  | sec => some .sec
  | csc => some .csc
  | cot => some .cot
  | _ => none

/-- The target function, of which the reciprocal is taken for `\sec`, `\csc` and `\cot`. -/
def target : Function → Text
  | sin | csc => "sin".toList
  | cos | sec => "cos".toList
  | tan | cot => "tan".toList
  | arcsin => "asin".toList
  | arccos => "acos".toList
  | arctan => "atan".toList
  | ln => "log".toList
  | log => "log10".toList
  | exp => "exp".toList

/-- What the function of an argument means in the target language. -/
def applied (function : Function) (argument : Expression) : Expression :=
  match function.reciprocal? with
  | some _ => .binary .divide (.number "1".toList) (.call function.target argument)
  | none => .call function.target argument

end Function

end Bracketed

/-- A formula in which every operation is bracketed. -/
inductive Bracketed where
  | numeral (digits : Numeral)
  | letter (symbol : Letter)
  | pi
  | joined (joint : Bracketed.Joint) (left right : Bracketed)
  | fraction (numerator denominator : Bracketed)
  | root (radicand : Bracketed)
  | indexedRoot (index radicand : Bracketed)
  | absolute (inside : Bracketed)
  | application (function : Bracketed.Function) (argument : Bracketed)
  | letterPower (base : Letter) (exponent : Bracketed)
  | groupPower (base exponent : Bracketed)
  deriving DecidableEq, Repr

namespace Bracketed

/-- The formula as it is written. -/
def latex : Bracketed → Text
  | numeral digits => digits.text
  | letter symbol => [symbol.char]
  | pi => '\\' :: "pi".toList
  | joined joint left right =>
      joint.between ('\\' :: ("cdot".toList ++ [' '])) left.latex right.latex
  | fraction numerator denominator =>
      '\\' :: ("frac".toList ++ (numerator.latex.braced ++ denominator.latex.braced))
  | root radicand => '\\' :: ("sqrt".toList ++ radicand.latex.braced)
  | indexedRoot index radicand =>
      '\\' :: ("sqrt".toList ++ '[' :: (index.latex ++ ']' :: radicand.latex.braced))
  | absolute inside =>
      '\\' :: (Side.left.word ++ '|' :: (inside.latex ++ '\\' :: (Side.right.word ++ ['|'])))
  | application function argument =>
      '\\' :: (function.name ++
        '\\' :: (Side.left.word ++
          Text.parenthesized (argument.latex ++ '\\' :: Side.right.word)))
  | letterPower base exponent => base.char :: '^' :: exponent.latex.braced
  | groupPower base exponent => base.latex.parenthesized ++ '^' :: exponent.latex.braced

section

variable (numerator denominator radicand index inside argument left right base exponent :
  Bracketed) (joint : Joint) (function : Function) (symbol : Letter)

@[simp] theorem latex_fraction : (fraction numerator denominator).latex =
    '\\' :: ("frac".toList ++ (numerator.latex.braced ++ denominator.latex.braced)) :=
  rfl

@[simp] theorem latex_root :
    (root radicand).latex = '\\' :: ("sqrt".toList ++ radicand.latex.braced) :=
  rfl

@[simp] theorem latex_indexedRoot : (indexedRoot index radicand).latex =
    '\\' :: ("sqrt".toList ++ '[' :: (index.latex ++ ']' :: radicand.latex.braced)) :=
  rfl

@[simp] theorem latex_absolute : (absolute inside).latex =
    '\\' :: (Side.left.word ++ '|' :: (inside.latex ++ '\\' :: (Side.right.word ++ ['|']))) :=
  rfl

@[simp] theorem latex_application : (application function argument).latex =
    '\\' :: (function.name ++
        '\\' :: (Side.left.word ++
          Text.parenthesized (argument.latex ++ '\\' :: Side.right.word))) :=
  rfl

@[simp] theorem latex_joined : (joined joint left right).latex =
    joint.between ('\\' :: ("cdot".toList ++ [' '])) left.latex right.latex :=
  rfl

@[simp] theorem latex_letterPower :
    (letterPower symbol exponent).latex = symbol.char :: '^' :: exponent.latex.braced :=
  rfl

@[simp] theorem latex_groupPower : (groupPower base exponent).latex =
    base.latex.parenthesized ++ '^' :: exponent.latex.braced :=
  rfl

end

/-- What the formula means in the target language. -/
def meaning : Bracketed → Expression
  | numeral digits => .number digits.text
  | letter symbol => .name [symbol.char]
  | pi => .name "pi".toList
  | joined joint left right => .binary joint.operator left.meaning right.meaning
  | fraction numerator denominator => .binary .divide numerator.meaning denominator.meaning
  | root radicand => .call "sqrt".toList radicand.meaning
  | indexedRoot index radicand =>
      .binary .power radicand.meaning (.binary .divide (.number "1".toList) index.meaning)
  | absolute inside => .call "abs".toList inside.meaning
  | application function argument => function.applied argument.meaning
  | letterPower base exponent =>
      if base.char = 'e' then .call "exp".toList exponent.meaning
      else .binary .power (.name [base.char]) exponent.meaning
  | groupPower base exponent => .binary .power base.meaning exponent.meaning

/-! ## The formula between two steps -/

/-- The formula in normal text, where sized delimiters are plain. -/
def normal : Bracketed → Text
  | numeral digits => digits.text
  | letter symbol => [symbol.char]
  | pi => '\\' :: "pi".toList
  | joined joint left right =>
      joint.between ('\\' :: ("cdot".toList ++ [' '])) left.normal right.normal
  | fraction numerator denominator =>
      '\\' :: ("frac".toList ++ (numerator.normal.braced ++ denominator.normal.braced))
  | root radicand => '\\' :: ("sqrt".toList ++ radicand.normal.braced)
  | indexedRoot index radicand =>
      '\\' :: ("sqrt".toList ++ '[' :: (index.normal ++ ']' :: radicand.normal.braced))
  | absolute inside => "abs".toList ++ inside.normal.parenthesized
  | application function argument =>
      '\\' :: (function.name ++ argument.normal.parenthesized)
  | letterPower base exponent => base.char :: '^' :: exponent.normal.braced
  | groupPower base exponent => base.normal.parenthesized ++ '^' :: exponent.normal.braced

section

variable (numerator denominator radicand index inside argument left right base exponent :
  Bracketed) (joint : Joint) (function : Function) (symbol : Letter)

@[simp] theorem normal_fraction : (fraction numerator denominator).normal =
    '\\' :: ("frac".toList ++ (numerator.normal.braced ++ denominator.normal.braced)) :=
  rfl

@[simp] theorem normal_root :
    (root radicand).normal = '\\' :: ("sqrt".toList ++ radicand.normal.braced) :=
  rfl

@[simp] theorem normal_indexedRoot : (indexedRoot index radicand).normal =
    '\\' :: ("sqrt".toList ++ '[' :: (index.normal ++ ']' :: radicand.normal.braced)) :=
  rfl

@[simp] theorem normal_absolute : (absolute inside).normal =
    "abs".toList ++ inside.normal.parenthesized :=
  rfl

@[simp] theorem normal_application : (application function argument).normal =
    '\\' :: (function.name ++ argument.normal.parenthesized) :=
  rfl

@[simp] theorem normal_joined : (joined joint left right).normal =
    joint.between ('\\' :: ("cdot".toList ++ [' '])) left.normal right.normal :=
  rfl

@[simp] theorem normal_letterPower :
    (letterPower symbol exponent).normal = symbol.char :: '^' :: exponent.normal.braced :=
  rfl

@[simp] theorem normal_groupPower : (groupPower base exponent).normal =
    base.normal.parenthesized ++ '^' :: exponent.normal.braced :=
  rfl

end

/-- The forms of a formula on one line. -/
inductive Stage where
  /-- Fractions and roots are replaced. -/
  | linear
  /-- Commands have their target forms. -/
  | renamed
  /-- Reciprocal functions are written out. -/
  | expanded
  /-- Powers of letters are groups or exponentials. -/
  | raised
  deriving DecidableEq, Repr

namespace Function

/-- The target form of the command, without the blanks around it. -/
def renamed (function : Function) : Text :=
  match function.reciprocal? with
  | some ratio => Parked.name ⟨ratio, false⟩
  | none => function.target

/-- The function of an argument in some form. -/
def around (function : Function) (argument : Text) : Stage → Text
  | .linear => '\\' :: (function.name ++ argument.parenthesized)
  | .renamed => function.renamed ++ ' ' :: argument.parenthesized
  | _ =>
      match function.reciprocal? with
      | some _ =>
          Text.parenthesized ("1/".toList ++ (function.target ++ argument.parenthesized))
      | none => function.target ++ ' ' :: argument.parenthesized

end Function

namespace Stage

/-- Whether commands have been replaced by names with blanks around them. -/
def hasNames : Stage → Bool
  | linear => false
  | _ => true

/-- The sign of a product. -/
def times (stage : Stage) : Text :=
  if stage.hasNames then "* ".toList else '\\' :: ("cdot".toList ++ [' '])

def pi (stage : Stage) : Text :=
  if stage.hasNames then "pi".toList else '\\' :: "pi".toList

end Stage

/-- Whether the formula is one group in parentheses when fractions and roots are gone. -/
def isGroup : Bracketed → Bool
  | joined _ _ _ | fraction _ _ | root _ | indexedRoot _ _ => true
  | _ => false

/-- Whether the formula is one group in parentheses when powers have their final form. -/
def isRaisedGroup : Bracketed → Bool
  | letterPower base _ => base.char != 'e'
  | application function _ => function.reciprocal?.isSome
  | formula => formula.isGroup

/-- A text that is a group already, or one in parentheses. -/
def grouped (isGroup : Bool) (text : Text) : Text :=
  if isGroup then text else text.parenthesized

/-- The blanks that the renaming puts around the target form of a command. -/
def padded (stage : Stage) (formula : Bracketed) (text : Text) : Text :=
  match stage.hasNames, formula with
  | true, pi => ' ' :: (text ++ [' '])
  | true, application _ _ => ' ' :: text
  | _, _ => text

/-- The formula in some form on one line, without blanks at its ends. -/
def bare (stage : Stage) : Bracketed → Text
  | numeral digits => digits.text
  | letter symbol => [symbol.char]
  | pi => stage.pi
  | joined joint left right =>
      joint.between stage.times (left.padded stage (left.bare stage))
        (right.padded stage (right.bare stage))
  | fraction numerator denominator =>
      Text.parenthesized
        (grouped numerator.isGroup (numerator.padded stage (numerator.bare stage)) ++
          '/' :: grouped denominator.isGroup (denominator.padded stage (denominator.bare stage)))
  | root radicand =>
      Text.parenthesized
        ("sqrt".toList ++ Text.parenthesized (radicand.padded stage (radicand.bare stage)))
  | indexedRoot index radicand =>
      Text.parenthesized
        (grouped radicand.isGroup (radicand.padded stage (radicand.bare stage)) ++
          '^' :: Text.parenthesized
            ("1/".toList ++ grouped index.isGroup (index.padded stage (index.bare stage))))
  | absolute inside =>
      "abs".toList ++ Text.parenthesized (inside.padded stage (inside.bare stage))
  | application function argument =>
      function.around (argument.padded stage (argument.bare stage)) stage
  | letterPower base exponent =>
      if stage = .raised then
        let raised := grouped exponent.isRaisedGroup (exponent.bare stage)
        if base.char = 'e' then "exp".toList ++ raised
        else Text.parenthesized (base.char :: '^' :: raised)
      else
        base.char :: '^' :: Text.braced (exponent.padded stage (exponent.bare stage))
  | groupPower base exponent =>
      Text.parenthesized (base.padded stage (base.bare stage)) ++
        '^' :: Text.braced (exponent.padded stage (exponent.bare stage))

/-- The formula in some form on one line. -/
def line (stage : Stage) (formula : Bracketed) : Text :=
  formula.padded stage (formula.bare stage)

end Bracketed

end TexCalc
