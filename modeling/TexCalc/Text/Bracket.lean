import TexCalc.Text.Blank

/-!
# Brackets and groups

The group that an opening bracket begins ends at the partner of that bracket.
Only brackets of the same kind are counted on the way, and a backslash hides the
character after it, so `\{` neither opens nor closes anything.
-/

namespace TexCalc

/-- The kinds of bracket that come in pairs. -/
inductive Bracket where
  | round
  | square
  | curly
  deriving DecidableEq, Repr

/-- The text between a bracket and its partner, and the text after the partner. -/
structure Group where
  inside : Text
  rest : Text
  deriving DecidableEq, Repr

namespace Group

/-- The same group with more text at the start of its inside. -/
def extend (lead : Text) (group : Group) : Group :=
  { group with inside := lead ++ group.inside }

end Group

namespace Bracket

def opener : Bracket → Char
  | round => '('
  | square => '['
  | curly => '\x7b'

def closer : Bracket → Char
  | round => ')'
  | square => ']'
  | curly => '\x7d'

/-- The kind of bracket that a character opens. -/
def ofOpener? (c : Char) : Option Bracket :=
  [round, square, curly].find? (·.opener == c)

theorem opener_of_ofOpener? {c : Char} {bracket : Bracket} (opens : ofOpener? c = some bracket) :
    bracket.opener = c := by
  simpa using List.find?_some opens

/-- The kind of bracket that a character opens around the argument of a function or
an exponent: a brace or a parenthesis. -/
def ofArgument? (c : Char) : Option Bracket :=
  [round, curly].find? (·.opener == c)

/-- The group whose opening bracket was just read, when `depth` brackets of the
same kind were opened in it and are still to be closed. -/
def groupFrom? (bracket : Bracket) : (depth : Nat) → Text → Option Group
  | _, [] => none
  | depth, '\\' :: hidden :: rest =>
      (bracket.groupFrom? depth rest).map (Group.extend ['\\', hidden])
  | depth, c :: rest =>
      if c = bracket.opener then
        (bracket.groupFrom? (depth + 1) rest).map (Group.extend [c])
      else if c = bracket.closer then
        match depth with
        | 0 => some ⟨[], rest⟩
        | depth + 1 => (bracket.groupFrom? depth rest).map (Group.extend [c])
      else
        (bracket.groupFrom? depth rest).map (Group.extend [c])

/-- The group whose opening bracket was just read, if it is ever closed. -/
def group? (bracket : Bracket) (text : Text) : Option Group :=
  bracket.groupFrom? 0 text

/-- Inside, closing bracket and rest give back the text that was read. -/
theorem eq_of_groupFrom? {bracket : Bracket} {depth : Nat} {text : Text} {group : Group}
    (found : bracket.groupFrom? depth text = some group) :
    text = group.inside ++ bracket.closer :: group.rest := by
  fun_induction groupFrom? bracket depth text generalizing group with
  | case1 => simp at found
  | case2 depth hidden rest ih =>
      obtain ⟨inner, read, rfl⟩ := Option.map_eq_some_iff.1 found
      simp [Group.extend, ← ih read]
  | case3 depth rest _ ih =>
      obtain ⟨inner, read, rfl⟩ := Option.map_eq_some_iff.1 found
      simp [Group.extend, ← ih read]
  | case4 =>
      cases found
      simp
  | case5 rest _ _ depth ih =>
      obtain ⟨inner, read, rfl⟩ := Option.map_eq_some_iff.1 found
      simp [Group.extend, ← ih read]
  | case6 depth c rest _ _ _ ih =>
      obtain ⟨inner, read, rfl⟩ := Option.map_eq_some_iff.1 found
      simp [Group.extend, ← ih read]

theorem eq_of_group? {bracket : Bracket} {text : Text} {group : Group}
    (found : bracket.group? text = some group) :
    text = group.inside ++ bracket.closer :: group.rest :=
  eq_of_groupFrom? found

/-- Inside and rest together are shorter than the text they were read from. -/
theorem length_lt_of_group? {bracket : Bracket} {text : Text} {group : Group}
    (found : bracket.group? text = some group) :
    group.inside.length + group.rest.length < text.length := by
  rw [eq_of_group? found]
  simp

end Bracket

namespace Text

/-- Whether a text, blanks at its ends apart, is one group in parentheses:
`(a+b)` is and `(a)+(b)` is not. -/
def isEnclosed (text : Text) : Bool :=
  match text.trim with
  | '(' :: rest =>
      match Bracket.round.group? rest with
      | some group => group.rest.isEmpty
      | none => false
  | _ => false

/-- The trimmed text in parentheses, unless it is one group in parentheses
already. -/
def wrap (text : Text) : Text :=
  if text.isEnclosed then text.trim else text.trim.parenthesized

end Text

end TexCalc
