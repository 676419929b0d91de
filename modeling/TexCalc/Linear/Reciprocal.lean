import TexCalc.Text.Bracket
import TexCalc.Tex.Command

/-!
# Writing out parked functions

A parked name is written through the target function on which it rests: around its
argument, when a group follows it, and bare otherwise.  The last parked name is written
out first, so that the argument of a parked function holds no parked name any more.
-/

namespace TexCalc

namespace Parked

/-- The parked function of an argument. -/
def applied (parked : Parked) (argument : Text) : Text :=
  if parked.inverse then
    parked.target ++ Text.parenthesized ("1/".toList ++ argument.wrap)
  else
    Text.parenthesized ("1/".toList ++ parked.target ++ argument.parenthesized)

/-- The parked function without an argument. -/
def bare (parked : Parked) : Text :=
  if parked.inverse then parked.target
  else Text.parenthesized ("1/".toList ++ parked.target)

/-- The parked function with the text after it, from which a group is taken as its
argument. -/
def writtenOut (parked : Parked) (text : Text) : Text :=
  let group? : Option Group :=
    match text.skipBlanks with
    | [] => none
    | c :: rest => (Bracket.ofArgument? c).bind fun bracket => bracket.group? rest
  match group? with
  | some group => parked.applied group.inside ++ group.rest
  | none => parked.bare ++ text

/-- The text with its last parked name written out. -/
def writeOutLast? : Text → Option Text
  | [] => none
  | c :: rest =>
      match writeOutLast? rest with
      | some written => some (c :: written)
      | none => (read? (c :: rest)).map fun (parked, after) => parked.writtenOut after

/-- The number of parked names in a text. -/
def count : Text → Nat
  | [] => 0
  | c :: rest => (if (read? (c :: rest)).isSome then 1 else 0) + count rest

/-- The text after at most the given number of parked names has been written out. -/
def writeOutUpTo : (rounds : Nat) → Text → Text
  | 0, text => text
  | rounds + 1, text =>
      match writeOutLast? text with
      | some written => writeOutUpTo rounds written
      | none => text

/-- A parked name takes the group after it as its argument, or is written out bare. -/
theorem writtenOut_cases (parked : Parked) (text : Text) :
    parked.writtenOut text = parked.bare ++ text ∨
      ∃ (bracket : Bracket) (rest : Text) (group : Group),
        text.skipBlanks = bracket.opener :: rest ∧
          Bracket.ofArgument? bracket.opener = some bracket ∧ bracket.group? rest = some group ∧
            parked.writtenOut text = parked.applied group.inside ++ group.rest := by
  cases start : text.skipBlanks with
  | nil =>
      left
      simp only [writtenOut, start]
  | cons c rest =>
      cases found : (Bracket.ofArgument? c).bind fun bracket => bracket.group? rest with
      | none =>
          left
          simp only [writtenOut, start, found]
      | some group =>
          right
          obtain ⟨bracket, opens, isGroup⟩ := Option.bind_eq_some_iff.1 found
          have isOpener : bracket.opener = c := by simpa using List.find?_some opens
          subst isOpener
          refine ⟨bracket, rest, group, rfl, opens, isGroup, ?_⟩
          simp only [writtenOut, start, found]

/-- The last parked name is searched for behind every character. -/
theorem writeOutLast?_induct {motive : Text → Text → Prop}
    (here : ∀ (parked : Parked) (after : Text),
      motive (parked.name ++ after) (parked.writtenOut after))
    (behind : ∀ c rest written, writeOutLast? rest = some written → motive rest written →
      motive (c :: rest) (c :: written))
    {text written : Text} (found : writeOutLast? text = some written) : motive text written := by
  induction text generalizing written with
  | nil => cases found
  | cons c rest ih =>
      simp only [writeOutLast?] at found
      split at found
      · rename_i later isLater
        cases found
        exact behind c rest later isLater (ih isLater)
      · obtain ⟨⟨parked, after⟩, isParked, rfl⟩ := Option.map_eq_some_iff.1 found
        rw [read?_eq_some_iff.1 isParked]
        exact here parked after

/-- What writing out one name keeps is kept in the end. -/
theorem writeOutUpTo_induct {motive : Text → Prop}
    (step : ∀ text written, writeOutLast? text = some written → motive text → motive written)
    (rounds : Nat) {text : Text} (kept : motive text) : motive (writeOutUpTo rounds text) := by
  induction rounds generalizing text with
  | zero => exact kept
  | succ rounds ih =>
      simp only [writeOutUpTo]
      split
      · rename_i written found
        exact ih (step text written found kept)
      · exact kept

end Parked

namespace Text

/-- The text with all parked names written out. -/
def expandParked (text : Text) : Text :=
  Parked.writeOutUpTo (Parked.count text) text

end Text

end TexCalc
