import TexCalc.Options
import TexCalc.Tex.Command
import TexCalc.Tex.Control

/-!
# Renaming commands

Every command with a target form becomes that form, names with a blank on either side
so that they touch nothing.  Unknown words stay as they are, except that outside strict
mode a function or constant at the start of a fused word is split off.
-/

namespace TexCalc

namespace Command

/-- The target form of the command that is written `source`. -/
def target (options : Options) (source : Text) : Command → Text
  | structural => source
  | function name => ' ' :: name ++ [' ']
  | reciprocal ratio => ' ' :: Parked.name ⟨ratio, false⟩ ++ [' ']
  | constant name => ' ' :: name ++ [' ']
  | operator sign => [sign]
  | plusMinus => [options.plusMinus.char]
  | minusPlus => [options.plusMinus.opposite.char]
  | log => ' ' :: options.logBase.function ++ [' ']
  | spacing => [' ']

/-- The target form of the control sequence with the given name. -/
def rename (options : Options) (name : Text) : Text :=
  match named? name with
  | some command => command.target options ('\\' :: name)
  | none =>
      match if options.strict then none else fused? name with
      | some (key, command) =>
          command.target options ('\\' :: key) ++ name.drop key.length
      | none => '\\' :: name

end Command

namespace Piece

/-- A control sequence in its target form.  A plain character stays as it is. -/
def rename (options : Options) : Piece → Text
  | control name => Command.rename options name
  | plain c => [c]

end Piece

namespace Text

/-- The text with all commands in their target form. -/
def renameCommands (options : Options) (text : Text) : Text :=
  text.pieces.flatMap (Piece.rename options)

end Text

end TexCalc
