import TexCalc.Tex.Argument
import TexCalc.Tex.Command

/-!
# Fractions and roots

A command for a fraction or a root becomes a quotient, a call of `sqrt` or a power,
around the texts of its arguments.  Commands are replaced one at a time, the last one
that can be read first, so that what stands inside an argument has been replaced
before.  A command whose arguments cannot be read is left as it is.  It may become
readable later, when a command after it has been replaced; therefore the search begins
anew after each replacement.
-/

namespace TexCalc

/-- A fraction or a root with the texts of its arguments. -/
inductive Structure where
  | fraction (numerator denominator : Text)
  | root (radicand : Text)
  | indexedRoot (index radicand : Text)
  deriving DecidableEq, Repr

namespace Structure

/-- The structure on one line. -/
def linear : Structure → Text
  | fraction numerator denominator =>
      Text.parenthesized (numerator.wrap ++ '/' :: denominator.wrap)
  | root radicand =>
      Text.parenthesized ("sqrt".toList ++ Text.parenthesized radicand.trim)
  | indexedRoot index radicand =>
      Text.parenthesized
        (radicand.wrap ++ '^' :: Text.parenthesized ("1/".toList ++ index.wrap))

/-- The fraction whose command was just read, and the text after it. -/
def readFraction? (text : Text) : Option (Structure × Text) :=
  (Argument.read? text).bind fun numerator =>
    (Argument.read? numerator.rest).map fun denominator =>
      (fraction numerator.text denominator.text, denominator.rest)

/-- The root whose command was just read, and the text after it. -/
def readRoot? (text : Text) : Option (Structure × Text) :=
  if text.skipBlanks.head? = some '[' then
    (Argument.readOptional? text).bind fun index =>
      (Argument.read? index.rest).map fun radicand =>
        (indexedRoot index.text radicand.text, radicand.rest)
  else
    (Argument.read? text).map fun radicand => (root radicand.text, radicand.rest)

/-- The structure whose command was just read, and the text after it. -/
def read? (name text : Text) : Option (Structure × Text) :=
  if Command.isFraction name then readFraction? text
  else if Command.isRoot name then readRoot? text
  else none

/-- The text with its last readable command replaced. -/
def resolveLast? : List Piece → Option Text
  | [] => none
  | piece :: rest =>
      match resolveLast? rest with
      | some resolved => some (piece.source ++ resolved)
      | none =>
          match piece with
          | .plain _ => none
          | .control name =>
              (read? name (Text.ofPieces rest)).map fun (found, after) =>
                found.linear ++ after

/-- The number of commands for structures. -/
def count (pieces : List Piece) : Nat :=
  pieces.countP fun
    | .control name => Command.isFraction name || Command.isRoot name
    | .plain _ => false

/-- The text after at most the given number of replacements. -/
def resolveUpTo : (rounds : Nat) → Text → Text
  | 0, text => text
  | rounds + 1, text =>
      match resolveLast? text.pieces with
      | some resolved => resolveUpTo rounds resolved
      | none => text

/-- The last readable command is searched for behind every control sequence and character. -/
theorem resolveLast?_induct {motive : Text → Text → Prop}
    (here : ∀ (rest : Text) (control : Control) (found : Structure) (after : Text),
      Control.read? rest = some control → read? control.name control.rest = some (found, after) →
        motive ('\\' :: rest) (found.linear ++ after))
    (word : ∀ (rest : Text) (control : Control) (resolved : Text),
      Control.read? rest = some control → motive control.rest resolved →
        motive ('\\' :: rest) ('\\' :: (control.name ++ resolved)))
    (plain : ∀ (c : Char) (rest resolved : Text), c ≠ '\\' → motive rest resolved →
      motive (c :: rest) (c :: resolved))
    {text resolved : Text} (found : resolveLast? text.pieces = some resolved) :
    motive text resolved := by
  fun_induction Text.pieces text generalizing resolved with
  | case1 => cases found
  | case2 rest control isControl ih =>
      simp only [resolveLast?] at found
      split at found
      · rename_i inner isInner
        cases found
        exact word rest control inner isControl (ih isInner)
      · obtain ⟨⟨structured, after⟩, isRead, rfl⟩ := Option.map_eq_some_iff.1 found
        rw [Text.ofPieces_pieces] at isRead
        exact here rest control structured after isControl isRead
  | case3 => simp [resolveLast?] at found
  | case4 c rest other ih =>
      simp only [resolveLast?] at found
      split at found
      · rename_i inner isInner
        cases found
        exact plain c rest inner other (ih isInner)
      · cases found

/-- What one replacement keeps is kept in the end. -/
theorem resolveUpTo_induct {motive : Text → Prop}
    (step : ∀ text resolved, resolveLast? text.pieces = some resolved → motive text →
      motive resolved)
    (rounds : Nat) {text : Text} (kept : motive text) : motive (resolveUpTo rounds text) := by
  induction rounds generalizing text with
  | zero => exact kept
  | succ rounds ih =>
      simp only [resolveUpTo]
      split
      · rename_i resolved found
        exact ih (step text resolved found kept)
      · exact kept

end Structure

namespace Text

/-- The text with all fractions and roots replaced that can be.  Every replacement
removes a command, so there are at most as many as there are commands. -/
def resolveStructures (text : Text) : Text :=
  Structure.resolveUpTo (Structure.count text.pieces) text

end Text

end TexCalc
