import TexCalc.Tex.Command
import TexCalc.Tex.Delimiter

/-!
# Normal text

The normal text of a formula has no dollar signs, comments, spacing commands or
sized delimiters any more.  Every delimiter has become a plain parenthesis, except
for vertical bars, which are the only delimiters with a meaning: between `\left|`
and `\right|`, or between an odd and an even bare bar, stands the argument of `abs`.
The mark of parked names is dropped, so that no formula can spell one.
-/

namespace TexCalc

/-- What a sized delimiter becomes. -/
def Side.normal : Side → (delimiter : Char) → Text
  | left, '|' => "abs(".toList
  | left, _ => ['(']
  | right, _ => [')']

namespace Token

/-- What a token becomes that is neither a bar nor a `\left` or `\right`. -/
def normal : Token → Text
  | mathShift => []
  | comment _ => []
  | blank => [' ']
  | tie => [' ']
  | char c => if c = Parked.mark then [] else [c]
  | control ['\x7b'] => ['(']
  | control ['\x7d'] => [')']
  | control name => if Command.named? name = some .spacing then [' '] else '\\' :: name
  | token => token.print

/-- What a control sequence becomes, case by case. -/
theorem normal_control (name : Text) :
    (control name).normal =
      if name = ['\x7b'] then ['(']
      else if name = ['\x7d'] then [')']
      else if Command.named? name = some .spacing then [' ']
      else '\\' :: name := by
  by_cases opener : name = ['\x7b']
  · rw [opener]
    rfl
  · by_cases closer : name = ['\x7d']
    · rw [closer]
      rfl
    · simp only [normal, if_neg opener, if_neg closer]

end Token

namespace Text

/-- The normal text of a list of tokens, `isOpen` telling whether a bare bar in front
of them waits for its partner. -/
def ofTokens (isOpen : Bool) : List Token → Text
  | [] => []
  | token :: rest =>
      match token.side? with
      | some side =>
          match _after : rest.dropWhile Token.isBlank with
          | next :: later =>
              match next.sizedDelimiter? with
              | some delimiter => side.normal delimiter ++ ofTokens isOpen later
              | none => ofTokens isOpen rest
          | [] => ofTokens isOpen rest
      | none =>
          if token = .char '|' then
            (if isOpen then "))".toList else "(abs(".toList) ++ ofTokens (!isOpen) rest
          else
            token.normal ++ ofTokens isOpen rest
termination_by tokens => tokens.length
decreasing_by
  · have := length_dropWhile_le Token.isBlank rest
    rw [_after, List.length_cons] at this
    simp only [List.length_cons]
    omega
  all_goals simp

/-- The normal text of a formula. -/
def normal (text : Text) : Text :=
  ofTokens false (text.trim.lexemes.map Lexeme.token)

end Text

end TexCalc
