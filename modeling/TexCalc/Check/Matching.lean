import TexCalc.Check.Focus
import TexCalc.Issue

/-!
# Matching delimiters

The delimiters of a formula open and close pairs of five kinds.  A closing delimiter
ends the nearest open pair of its own kind; what was opened inside that pair and is
still open is given up.  A closing delimiter of a kind that is not open at all closes
nothing.
-/

namespace TexCalc

/-- An opening or closing delimiter and its place in a formula. -/
structure DelimiterEvent where
  offset : Nat
  delimiter : Delimiter
  opens : Bool
  /-- The delimiter as it is written. -/
  source : Text
  deriving DecidableEq, Repr

namespace DelimiterEvent

/-- The issue of an opening delimiter that is given up. -/
def unclosed (event : DelimiterEvent) : Issue :=
  ⟨event.offset, .malformed (.unclosed event.delimiter)⟩

/-- The issue of a closing delimiter that closes nothing. -/
def unopened (event : DelimiterEvent) : Issue :=
  ⟨event.offset, .malformed (.unopened event.source)⟩

/-- The issues of a list of delimiters, `stack` being the open delimiters in front of
the list, nearest first. -/
def unmatchedIn (stack : List DelimiterEvent) : List DelimiterEvent → List Issue
  | [] => stack.map unclosed
  | event :: rest =>
      if event.opens then
        unmatchedIn (event :: stack) rest
      else
        let isPartner (opened : DelimiterEvent) : Bool :=
          opened.delimiter == event.delimiter
        if stack.any isPartner then
          (stack.takeWhile (!isPartner ·)).map unclosed ++
            unmatchedIn (stack.dropWhile (!isPartner ·)).tail rest
        else
          event.unopened :: unmatchedIn stack rest

/-- The issues of the delimiters of a formula. -/
def unmatched (events : List DelimiterEvent) : List Issue :=
  unmatchedIn [] events

end DelimiterEvent

namespace Token

/-- The pair that a token opens or closes by itself. -/
def delimiter? : Token → Option (Delimiter × Bool)
  | openBrace => some (.brace, true)
  | closeBrace => some (.brace, false)
  | control ['\x7b'] => some (.escapedBrace, true)
  | control ['\x7d'] => some (.escapedBrace, false)
  | char '(' => some (.parenthesis, true)
  | char ')' => some (.parenthesis, false)
  | char '[' => some (.bracket, true)
  | char ']' => some (.bracket, false)
  | _ => none

end Token

namespace Focus

/-- What the lexeme in focus opens or closes.  A sized delimiter counts with the
`\left` or `\right` that it belongs to, and not by itself. -/
def event? (focus : Focus) : Option DelimiterEvent :=
  match focus.here.token.side? with
  | some side =>
      focus.sizedDelimiter?.map fun delimiter =>
        ⟨focus.here.offset, .sized, side == .left,
          focus.here.token.print ++ delimiter.token.print⟩
  | none =>
      if focus.sizedBy?.isSome then
        none
      else
        focus.here.token.delimiter?.map fun (delimiter, opens) =>
          ⟨focus.here.offset, delimiter, opens, focus.here.token.print⟩

/-- Whether the lexeme in focus is a bar that stands by itself. -/
def isBar (focus : Focus) : Bool :=
  focus.here.token == .char '|' && focus.sizedBy?.isNone

end Focus

/-- The delimiters of a list of lexemes. -/
def DelimiterEvent.ofLexemes (lexemes : List Lexeme) : List DelimiterEvent :=
  (Focus.all lexemes).filterMap Focus.event?

/-- The issue of the last bar, when the number of bars is odd. -/
def Issue.oddBars? (lexemes : List Lexeme) : Option Issue :=
  let bars := (Focus.all lexemes).filter Focus.isBar
  if bars.length % 2 = 1 then
    bars.getLast?.map fun last => ⟨last.here.offset, .malformed .oddBars⟩
  else
    none

end TexCalc
