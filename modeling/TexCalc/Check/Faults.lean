import TexCalc.Check.Focus
import TexCalc.Issue
import TexCalc.Tex.Argument
import TexCalc.Text.Numeral

/-!
# Faults of single lexemes

A command lacks an argument, a power lacks its base or its exponent, a subscript or a
character has no form in the target language: each of these faults is seen at one
lexeme and its surroundings.  A group that is never closed is not reported here, since
the opening delimiter is at fault and not the command in front of it.
-/

namespace TexCalc

/-- What is found where a command expects an argument. -/
inductive Probe where
  | present (rest : Text)
  /-- A group with nothing but blanks in it. -/
  | blank
  | missing
  /-- A group that is never closed. -/
  | unclosed
  deriving DecidableEq, Repr

namespace Probe

/-- Look for an argument at the start of a text. -/
def ofText (text : Text) : Probe :=
  match Argument.read? text with
  | some argument =>
      if argument.grouped && argument.text.isAllBlank then blank else present argument.rest
  | none => if text.skipBlanks.head? = some '\x7b' then unclosed else missing

end Probe

namespace Malformation

/-- What is wrong with the next `count` of the two arguments of a fraction. -/
def ofFraction? (command : Text) : (count : Nat) → Text → Option Malformation
  | 0, _ => none
  | count + 1, text =>
      match Probe.ofText text with
      | .present rest => ofFraction? command count rest
      | .blank => some (.emptyArgument command)
      | .missing => some (.missingArguments command)
      | .unclosed => none

/-- What is wrong with the radicand at the start of a text. -/
def ofRadicand? (command text : Text) : Option Malformation :=
  match Probe.ofText text with
  | .blank => some (.emptyArgument command)
  | .missing => some (.missingArgument command)
  | .present _ | .unclosed => none

/-- What is wrong with the index and the radicand of a root. -/
def ofRoot? (command text : Text) : Option Malformation :=
  if text.skipBlanks.head? = some '[' then
    match Argument.readOptional? text with
    | some index =>
        if index.text.isAllBlank then some .emptyIndex else ofRadicand? command index.rest
    | none => none
  else
    ofRadicand? command text

end Malformation

namespace Lexeme

/-- Whether a list of lexemes that starts with an operand can be the argument of a
function. -/
def beginsArgument : List Lexeme → Bool
  | [] => false
  | first :: rest =>
      match first.token with
      | .char c => isWordChar c || c ∈ ['(', '[', '|', '.']
      | .openBrace =>
          match fromOperand rest with
          | [] => false
          | inner :: _ => inner.token != .closeBrace
      | .control name =>
          match Command.named? name with
          | some (.operator _) => false
          | some .structural => name != Side.right.word && name != ['\x7d']
          | _ => true
      | _ => false

/-- Whether the lexemes after a function have no argument for it.  Scripts of the
function and one sign are passed over; a script without an end is not judged. -/
def lacksArgument (lexemes : List Lexeme) : Bool :=
  match fromBase? lexemes with
  | none => false
  | some [] => true
  | some (first :: rest) =>
      if first.token.isSign then !beginsArgument (fromOperand rest)
      else !beginsArgument (first :: rest)

end Lexeme

namespace Token

/-- Control words that are not blanks. -/
def isVisibleWord (token : Token) : Bool :=
  token.isControlWord && token.command? != some .spacing

/-- What can be raised to a power. -/
def isBase : Token → Bool
  | char c => isWordChar c || c ∈ [')', ']', '|', '.', '\x27', '!']
  | closeBrace => true
  | token => token.isVisibleWord

/-- What can begin an exponent. -/
def beginsExponent : Token → Bool
  | char c => isWordChar c || c == '('
  | openBrace => true
  | token => token.isVisibleWord

/-- Characters that the target language can take over. -/
def isCarried (c : Char) : Bool :=
  c.isAlphanum || c ∈ ['.', '+', '-', '*', '/', '(', ')', '[', ']', '|', ',']

end Token

namespace Focus

/-- The fault of a control sequence. -/
def controlFault? (focus : Focus) (name : Text) : Option Fault :=
  match focus.here.token.side? with
  | some side =>
      if focus.sizedDelimiter?.isSome then none else some (.malformed (.unsized side))
  | none =>
      if Command.isFraction name then
        (Malformation.ofFraction? name 2 focus.following).map .malformed
      else if Command.isRoot name then
        (Malformation.ofRoot? name focus.following).map .malformed
      else
        match Command.named? name with
        | none => some (.unknown name)
        | some command =>
            if command.takesArgument && Lexeme.lacksArgument focus.after then
              some (.malformed (.missingArgument name))
            else
              none

/-- Whether the lexemes after a `^` begin an exponent.  An empty group is none. -/
def hasExponent (focus : Focus) : Bool :=
  match focus.after.dropWhile (!·.token.isSignificant) with
  | [] => false
  | next :: rest =>
      if next.token = .openBrace then
        (rest.find? (·.token.isSignificant)).any (·.token != .closeBrace)
      else
        next.token.beginsExponent

/-- The source from the nearest significant lexeme before the focus to the nearest one
after it, or less where there is none. -/
def neighbourhood (focus : Focus) : Text :=
  let isGap (lexeme : Lexeme) : Bool := !lexeme.token.isSignificant
  let left :=
    match focus.before.dropWhile isGap with
    | [] => []
    | previous :: _ => previous :: (focus.before.takeWhile isGap).reverse
  let right :=
    match focus.after.dropWhile isGap with
    | [] => []
    | next :: _ => focus.after.takeWhile isGap ++ [next]
  Text.ofLexemes (left ++ focus.here :: right)

/-- The fault of a `^`. -/
def exponentFault? (focus : Focus) : Option Fault :=
  if focus.previous?.any (·.token.isBase) && focus.hasExponent then
    none
  else
    some (.exponent focus.neighbourhood)

/-- The fault of a `_`.  Only the base of a logarithm has a target form. -/
def subscriptFault? (focus : Focus) : Option Fault :=
  if focus.previous?.any (·.token.command? == some .log) then
    match Probe.ofText focus.following with
    | .blank | .missing => some (.malformed .missingBase)
    | .present _ | .unclosed => none
  else
    let taken : Text :=
      match Argument.read? focus.following with
      | some argument => focus.following.before argument.rest
      | none => []
    some (.unsupported (focus.here.source ++ taken))

/-- The fault of the lexeme in focus, delimiters and bars apart. -/
def fault? (focus : Focus) : Option Fault :=
  match focus.here.token with
  | .control name => focus.controlFault? name
  | .superscript => focus.exponentFault?
  | .subscript => focus.subscriptFault?
  | .char c =>
      if c = '\\' then some (.unknown [])
      else if Token.isCarried c then none
      else some (.unsupported [c])
  | _ => none

/-- The issue of the lexeme in focus, delimiters and bars apart. -/
def issue? (focus : Focus) : Option Issue :=
  focus.fault?.map fun fault => ⟨focus.here.offset, fault⟩

end Focus

end TexCalc
