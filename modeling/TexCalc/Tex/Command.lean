import TexCalc.Text.Basic

/-!
# Commands

The control sequences that have a meaning, and the names under which functions
without a target form of their own are parked.

The target language has no secant, cosecant or cotangent.  They are parked behind
marked names until their argument is known and are then written through cosine,
sine and tangent.  The mark is a private-use character that no accepted formula
contains, so that only a command can give rise to a parked name.
-/

namespace TexCalc

/-- Trigonometric functions that are reciprocals of target functions. -/
inductive Reciprocal where
  | sec
  | csc
  | cot
  deriving DecidableEq, Repr

namespace Reciprocal

def name : Reciprocal → Text
  | sec => "sec".toList
  | csc => "csc".toList
  | cot => "cot".toList

/-- The target function of which this one is the reciprocal. -/
def base : Reciprocal → Text
  | sec => "cos".toList
  | csc => "sin".toList
  | cot => "tan".toList

end Reciprocal

/-- A reciprocal function, or the inverse of one, waiting for its argument. -/
structure Parked where
  function : Reciprocal
  inverse : Bool
  deriving DecidableEq, Repr

namespace Parked

/-- The character in front of every parked name. -/
def mark : Char := '\uE000'

def all : List Parked :=
  [⟨.sec, false⟩, ⟨.csc, false⟩, ⟨.cot, false⟩,
   ⟨.sec, true⟩, ⟨.csc, true⟩, ⟨.cot, true⟩]

/-- The marked name: an inverse has an `a` in front of the function's name. -/
def name (parked : Parked) : Text :=
  mark :: if parked.inverse then 'a' :: parked.function.name else parked.function.name

/-- The target function through which the parked one is written. -/
def target (parked : Parked) : Text :=
  if parked.inverse then 'a' :: parked.function.base else parked.function.base

/-- The parked name that a text begins with, and the text after it. -/
def read? (text : Text) : Option (Parked × Text) :=
  all.findSome? fun parked => (text.dropLead? parked.name).map (parked, ·)

theorem mem_all (parked : Parked) : parked ∈ all := by
  rcases parked with ⟨function, inverse⟩
  cases function <;> cases inverse <;> simp [all]

/-- No parked name is the beginning of another one, so at most one can be read. -/
theorem read?_eq_some_iff {text rest : Text} {parked : Parked} :
    read? text = some (parked, rest) ↔ text = parked.name ++ rest := by
  constructor
  · intro found
    obtain ⟨candidate, _, matched⟩ := List.exists_of_findSome?_eq_some found
    obtain ⟨after, dropped, same⟩ := Option.map_eq_some_iff.1 matched
    cases same
    exact Text.dropLead?_eq_some_iff.1 dropped
  · rintro rfl
    rcases parked with ⟨function, inverse⟩
    cases function <;> cases inverse <;>
      simp [read?, all, name, Reciprocal.name, Text.dropLead?]

end Parked

/-- What a control sequence stands for. -/
inductive Command where
  /-- A fraction, a root or a delimiter, with rules of its own. -/
  | structural
  /-- A function of the target language. -/
  | function (target : Text)
  /-- A function that is parked until its argument is known. -/
  | reciprocal (function : Reciprocal)
  /-- A constant of the target language. -/
  | constant (target : Text)
  /-- A binary operator of the target language. -/
  | operator (sign : Char)
  | plusMinus
  | minusPlus
  /-- The logarithm whose base is left to the options. -/
  | log
  /-- A blank of some width. -/
  | spacing
  deriving DecidableEq, Repr

namespace Command

/-- Every control sequence with a meaning. -/
def table : List (Text × Command) :=
  [("frac".toList, .structural),
   ("dfrac".toList, .structural),
   ("tfrac".toList, .structural),
   ("sqrt".toList, .structural),
   ("left".toList, .structural),
   ("right".toList, .structural),
   (['\x7b'], .structural),
   (['\x7d'], .structural),
   ("sin".toList, .function "sin".toList),
   ("cos".toList, .function "cos".toList),
   ("tan".toList, .function "tan".toList),
   ("arcsin".toList, .function "asin".toList),
   ("arccos".toList, .function "acos".toList),
   ("arctan".toList, .function "atan".toList),
   ("sec".toList, .reciprocal .sec),
   ("csc".toList, .reciprocal .csc),
   ("cot".toList, .reciprocal .cot),
   ("ln".toList, .function "log".toList),
   ("log".toList, .log),
   ("exp".toList, .function "exp".toList),
   ("pi".toList, .constant "pi".toList),
   ("e".toList, .constant "e".toList),
   ("infty".toList, .constant "Infinity".toList),
   ("cdot".toList, .operator '*'),
   ("times".toList, .operator '*'),
   ("ast".toList, .operator '*'),
   ("div".toList, .operator '/'),
   ("pm".toList, .plusMinus),
   ("mp".toList, .minusPlus),
   ("quad".toList, .spacing),
   ("qquad".toList, .spacing),
   ([','], .spacing),
   ([';'], .spacing),
   ([':'], .spacing),
   (['!'], .spacing),
   ([' '], .spacing)]

/-- The command with the given name. -/
def named? (name : Text) : Option Command :=
  table.lookup name

theorem mem_table_of_named? {name : Text} {command : Command}
    (found : named? name = some command) : (name, command) ∈ table := by
  obtain ⟨front, back, split, _⟩ := List.lookup_eq_some_iff.1 found
  rw [split]
  exact List.mem_append_right _ List.mem_cons_self

/-- Whether a name is that of a command for a fraction. -/
def isFraction (name : Text) : Bool :=
  name = "frac".toList || name = "dfrac".toList || name = "tfrac".toList

/-- Whether a name is that of the command for a root. -/
def isRoot (name : Text) : Bool :=
  name = "sqrt".toList

/-- Functions, reciprocal functions and the logarithm are applied to an argument. -/
def takesArgument : Command → Bool
  | function _ | reciprocal _ | log => true
  | _ => false

/-- Whether the command stands for a name of the target language.  Only such
commands are recognised at the start of a longer word. -/
def isNamed : Command → Bool
  | constant _ => true
  | command => command.takesArgument

/-- The longest proper beginning of a word that names a function or a constant, for
fused words like `sinx`.  One letter is not enough: `epsilon` is no `e`. -/
def fused? (word : Text) : Option (Text × Command) :=
  (List.range word.length).reverse.findSome? fun length =>
    if 2 ≤ length then
      let name := word.take length
      ((named? name).filter isNamed).map (name, ·)
    else
      none

/-- The function or parked name that `\name^{-1}` stands for. -/
def inverse? (name : Text) : Option Text :=
  match named? name with
  | some (.reciprocal ratio) => some (Parked.name ⟨ratio, true⟩)
  | some (.function target) =>
      if name ∈ ["sin".toList, "cos".toList, "tan".toList] then some ('a' :: target) else none
  | _ => none

end Command

end TexCalc
