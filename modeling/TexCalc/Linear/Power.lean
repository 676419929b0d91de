import TexCalc.Linear.Operand

/-!
# Powers

A power written as a run of letters, digits and points with an exponent becomes a
group, and a power of `e` becomes a call of `exp`.  What stands after a `^` is brought
into its final form before the exponent is read from it, so that towers associate to
the right.  A `^` after a closing bracket already has a group for its base and is left
alone.
-/

namespace TexCalc

/-- Characters of which the base of a power is made. -/
def isBaseChar (c : Char) : Bool :=
  c.isAlphanum || c == '.'

namespace Text

/-- The base without its final `e`, when that letter is Euler's number: when it stands
alone or after a digit. -/
def beforeEuler? (base : Text) : Option Text :=
  match base.getLast? with
  | some 'e' =>
      if base.dropLast.getLast?.all Char.isDigit then some base.dropLast else none
  | _ => none

/-- The exponential of an exponent. -/
def exponential (exponent : Text) : Text :=
  "exp".toList ++ if exponent.isEnclosed then exponent else exponent.parenthesized

/-- A base raised to an exponent. -/
def power (base exponent : Text) : Text :=
  match base.beforeEuler? with
  | some coefficient => coefficient ++ exponent.exponential
  | none => Text.parenthesized (base ++ '^' :: exponent)

/-- The text with its powers in their final form. -/
def resolveExponents (vocabulary : Vocabulary) (text : Text) : Text :=
  let base : Text := text.takeWhile isBaseChar
  match _rest : text.dropWhile isBaseChar with
  | [] => base
  | c :: rest =>
      match _script : skipBlanks (c :: rest) with
      | '^' :: script =>
          let raised := resolveExponents vocabulary script
          let gap := Text.before (c :: rest) ('^' :: script)
          match if base.isEmpty then none else raised.exponent? vocabulary with
          | some exponent => power base exponent.text ++ exponent.rest
          | none => base ++ gap ++ '^' :: raised
      | _ => base ++ c :: resolveExponents vocabulary rest
termination_by text.length
decreasing_by
  all_goals
    have left := length_dropWhile_le isBaseChar text
    rw [_rest, List.length_cons] at left
  · have gap := length_skipBlanks_le (c :: rest)
    rw [_script, List.length_cons, List.length_cons] at gap
    omega
  · omega

/-- Powers are formed run by run.  A run of base characters ends the text, has an exponent, or is
passed over together with the `^` or the character behind it. -/
theorem resolveExponents_induct (vocabulary : Vocabulary) {motive : Text → Text → Prop}
    (ends : ∀ run : Text, run.all isBaseChar = true → motive run run)
    (power : ∀ (run gap script : Text) (exponent : Cut), run.all isBaseChar = true →
      gap.all isAsciiBlank = true →
        (script.resolveExponents vocabulary).exponent? vocabulary = some exponent →
          motive script (script.resolveExponents vocabulary) →
            motive (run ++ (gap ++ '^' :: script)) (run.power exponent.text ++ exponent.rest))
    (caret : ∀ run gap script : Text, run.all isBaseChar = true → gap.all isAsciiBlank = true →
      motive script (script.resolveExponents vocabulary) →
        motive (run ++ (gap ++ '^' :: script))
          (run ++ (gap ++ '^' :: script.resolveExponents vocabulary)))
    (passed : ∀ (run : Text) (c : Char) (rest : Text), run.all isBaseChar = true →
      motive rest (rest.resolveExponents vocabulary) →
        motive (run ++ c :: rest) (run ++ c :: rest.resolveExponents vocabulary))
    (text : Text) : motive text (text.resolveExponents vocabulary) := by
  have whole (text : Text) : text.takeWhile isBaseChar ++ text.dropWhile isBaseChar = text :=
    List.takeWhile_append_dropWhile
  have exists_gap {text script : Text} (isScript : text.skipBlanks = '^' :: script) :
      ∃ gap : Text, gap.all isAsciiBlank = true ∧ text = gap ++ '^' :: script := by
    refine ⟨text.takeWhile isAsciiBlank, List.all_takeWhile, ?_⟩
    rw [← isScript]
    exact List.takeWhile_append_dropWhile.symm
  fun_induction resolveExponents vocabulary text with
  | case1 text base rest =>
      have same := whole text
      rw [rest, List.append_nil] at same
      have ended := ends base List.all_takeWhile
      rwa [show base = text from same] at ended ⊢
  | case2 text base c rest shape script isScript raised exponent found ih =>
      have isExponent : raised.exponent? vocabulary = some exponent := by
        split at found
        · cases found
        · exact found
      obtain ⟨gap, blank, split⟩ := exists_gap isScript
      have formed := power base gap script exponent List.all_takeWhile blank isExponent ih
      rwa [← split, ← shape, whole] at formed
  | case3 text base c rest shape script isScript raised gap _ ih =>
      obtain ⟨blanks, blank, split⟩ := exists_gap isScript
      have isGap : gap = blanks := by
        simp only [gap, split, before_append]
      have kept := caret base blanks script List.all_takeWhile blank ih
      rw [← split, ← shape, whole] at kept
      rwa [isGap, List.append_assoc]
  | case4 text base c rest shape noScript ih =>
      have kept := passed base c rest List.all_takeWhile ih
      rwa [← shape, whole] at kept

end Text

end TexCalc
