import TexCalc.Tex.Token

/-!
# Delimiters

Five kinds of delimiter come in pairs: braces, escaped braces, parentheses, square
brackets, and the sized delimiters that stand after `\left` and `\right`.  A sized
delimiter need not match its partner in shape, as in `\left( x \right]`.
-/

namespace TexCalc

/-- The kinds of delimiter that come in pairs. -/
inductive Delimiter where
  | brace
  | escapedBrace
  | parenthesis
  | bracket
  | sized
  deriving DecidableEq, Repr

namespace Delimiter

/-- How an opening delimiter of this kind is written. -/
def opener : Delimiter → Text
  | brace => ['\x7b']
  | escapedBrace => ['\\', '\x7b']
  | parenthesis => ['(']
  | bracket => ['[']
  | sized => "\\left".toList

end Delimiter

/-- The two words that take a delimiter. -/
inductive Side where
  | left
  | right
  deriving DecidableEq, Repr

namespace Side

def word : Side → Text
  | left => "left".toList
  | right => "right".toList

end Side

namespace Token

/-- The side named by a `\left` or `\right`. -/
def side? : Token → Option Side
  | control name =>
      if name = Side.left.word then some .left
      else if name = Side.right.word then some .right
      else none
  | _ => none

/-- The delimiter that a token gives to a `\left` or `\right` before it. -/
def sizedDelimiter? : Token → Option Char
  | char c => if c ∈ ['(', ')', '[', ']', '|', '.'] then some c else none
  | control name =>
      if name = ['\x7b'] then some '\x7b'
      else if name = ['\x7d'] then some '\x7d'
      else none
  | _ => none

end Token

end TexCalc
