import TexCalc.Tex.Command
import TexCalc.Tex.Delimiter

/-!
# Lexemes in their surroundings

Whether a lexeme is at fault depends on its neighbours.  A focus is a lexeme with
all lexemes before it, nearest first, and all lexemes after it.  Two ways of looking
ahead are in use: the next significant lexeme is found past blanks and comments, an
operand also past unbreakable blanks and spacing commands.
-/

namespace TexCalc

/-- A lexeme with the lexemes on both sides of it. -/
structure Focus where
  /-- The lexemes before it, nearest first. -/
  before : List Lexeme
  here : Lexeme
  after : List Lexeme
  deriving DecidableEq, Repr

namespace Focus

/-- Every lexeme of a list in focus, `before` being the lexemes in front of the list,
nearest first. -/
def allFrom (before : List Lexeme) : List Lexeme → List Focus
  | [] => []
  | here :: after => ⟨before, here, after⟩ :: allFrom (here :: before) after

/-- Every lexeme of a list in focus. -/
def all (lexemes : List Lexeme) : List Focus :=
  allFrom [] lexemes

/-- The nearest significant lexeme before. -/
def previous? (focus : Focus) : Option Lexeme :=
  focus.before.find? (·.token.isSignificant)

/-- The nearest significant lexeme after. -/
def next? (focus : Focus) : Option Lexeme :=
  focus.after.find? (·.token.isSignificant)

/-- The text after the lexeme, as it was written. -/
def following (focus : Focus) : Text :=
  Text.ofLexemes focus.after

/-- The side whose delimiter this lexeme is.  Such a delimiter belongs to the
`\left` or `\right` before it and has no meaning of its own. -/
def sizedBy? (focus : Focus) : Option Side :=
  if focus.here.token.sizedDelimiter?.isSome then
    focus.previous?.bind fun previous => previous.token.side?
  else
    none

/-- The delimiter that follows a `\left` or `\right`. -/
def sizedDelimiter? (focus : Focus) : Option Lexeme :=
  focus.next?.filter fun next => next.token.sizedDelimiter?.isSome

theorem map_here_allFrom (before lexemes : List Lexeme) :
    (allFrom before lexemes).map here = lexemes := by
  induction lexemes generalizing before with
  | nil => rfl
  | cons first rest ih => simp [allFrom, ih]

/-- Every lexeme comes into focus once and in order. -/
@[simp] theorem map_here_all (lexemes : List Lexeme) : (all lexemes).map here = lexemes :=
  map_here_allFrom [] lexemes

end Focus

namespace Token

/-- The command that a control sequence stands for. -/
def command? : Token → Option Command
  | control name => Command.named? name
  | _ => none

/-- Whether a token may stand between a function and its argument. -/
def isPassedOver (token : Token) : Bool :=
  !token.isSignificant || token == tie || token.command? == some .spacing

/-- Signs in front of an argument. -/
def isSign (token : Token) : Bool :=
  token == char '+' || token == char '-' || token.command? == some .plusMinus ||
    token.command? == some .minusPlus

def isScript (token : Token) : Bool :=
  token == superscript || token == subscript

end Token

namespace Lexeme

/-- The lexemes from the first operand on. -/
def fromOperand (lexemes : List Lexeme) : List Lexeme :=
  lexemes.dropWhile (·.token.isPassedOver)

theorem length_fromOperand_le (lexemes : List Lexeme) :
    (fromOperand lexemes).length ≤ lexemes.length :=
  Text.length_dropWhile_le _ lexemes

/-- What follows the brace that closes a group, `depth` braces having been opened in
that group and being still to be closed. -/
def afterBrace? : (depth : Nat) → List Lexeme → Option (List Lexeme)
  | _, [] => none
  | depth, first :: rest =>
      if first.token = .openBrace then
        afterBrace? (depth + 1) rest
      else if first.token = .closeBrace then
        match depth with
        | 0 => some rest
        | depth + 1 => afterBrace? depth rest
      else
        afterBrace? depth rest

/-- What follows the operand of a script whose sign was just read: a group in braces
or a single lexeme. -/
def afterScript? (lexemes : List Lexeme) : Option (List Lexeme) :=
  match fromOperand lexemes with
  | [] => none
  | first :: rest => if first.token = .openBrace then afterBrace? 0 rest else some rest

theorem length_lt_of_afterBrace? {depth : Nat} {lexemes rest : List Lexeme}
    (found : afterBrace? depth lexemes = some rest) : rest.length < lexemes.length := by
  fun_induction afterBrace? depth lexemes with
  | case1 => cases found
  | case2 depth first rest _ ih =>
      have := ih found
      simp only [List.length_cons]
      omega
  | case3 first after _ _ =>
      cases found
      simp
  | case4 first after _ _ depth ih =>
      have := ih found
      simp only [List.length_cons]
      omega
  | case5 depth first after _ _ ih =>
      have := ih found
      simp only [List.length_cons]
      omega

theorem length_lt_of_afterScript? {lexemes rest : List Lexeme}
    (found : afterScript? lexemes = some rest) : rest.length < lexemes.length := by
  have skipped := length_fromOperand_le lexemes
  simp only [afterScript?] at found
  split at found
  · cases found
  · rename_i first after isOperand
    rw [isOperand, List.length_cons] at skipped
    split at found
    · have := length_lt_of_afterBrace? found
      omega
    · cases found
      omega

/-- The lexemes from the first operand on that is not a script of what stands before
the list.  There is no answer when a script has no end. -/
def fromBase? (lexemes : List Lexeme) : Option (List Lexeme) :=
  match _operand : fromOperand lexemes with
  | [] => some []
  | first :: rest =>
      if first.token.isScript then
        match _script : afterScript? rest with
        | some after => fromBase? after
        | none => none
      else
        some (first :: rest)
termination_by lexemes.length
decreasing_by
  have skipped := length_fromOperand_le lexemes
  have passed := length_lt_of_afterScript? _script
  rw [_operand, List.length_cons] at skipped
  omega

end Lexeme

end TexCalc
