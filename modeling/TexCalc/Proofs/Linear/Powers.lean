import TexCalc.Linear.Power
import TexCalc.Proofs.Tex.Arguments
import TexCalc.Proofs.Text.Characters
import TexCalc.Proofs.Text.Runs

/-!
# Powers, run by run

What cannot be part of a base is passed over, and so is a run that has no exponent.  A run with
an exponent is a power, its exponent being read when what stands behind the `^` has its final
form.
-/

namespace TexCalc

namespace Text

variable {vocabulary : Vocabulary} {run gap rest script : Text}

/-- Whether a text goes on with an exponent. -/
def beginsScript (text : Text) : Bool :=
  text.skipBlanks.head? == some '^'

theorem exists_of_beginsScript (begins : rest.beginsScript = true) :
    ∃ gap script, gap.all isAsciiBlank = true ∧ rest = gap ++ '^' :: script := by
  have script := eq_of_beq begins
  cases skipped : rest.skipBlanks with
  | nil =>
      rw [skipped] at script
      cases script
  | cons c script' =>
      rw [skipped] at script
      cases script
      refine ⟨rest.takeWhile isAsciiBlank, script', List.all_takeWhile, ?_⟩
      rw [← skipped]
      exact List.takeWhile_append_dropWhile.symm

/-- A run that has no exponent, and the character behind it, stay as they are. -/
theorem resolveExponents_append_cons {c : Char} (all : run.all isBaseChar = true)
    (other : isBaseChar c = false) (noScript : Text.beginsScript (c :: rest) = false) :
    resolveExponents vocabulary (run ++ c :: rest) =
      run ++ c :: resolveExponents vocabulary rest := by
  have ends : endsRun isBaseChar (c :: rest) = true := by simp [endsRun, other]
  rw [resolveExponents, takeWhile_append_of_endsRun all ends]
  split
  · rename_i nothing
    rw [dropWhile_append_of_endsRun all ends] at nothing
    cases nothing
  · rename_i same
    rw [dropWhile_append_of_endsRun all ends] at same
    cases same
    split
    · rename_i script isScript
      simp [beginsScript, isScript] at noScript
    · rfl

/-- A `^` with a run or without one in front of it. -/
theorem resolveExponents_script (all : run.all isBaseChar = true)
    (blank : gap.all isAsciiBlank = true) :
    resolveExponents vocabulary (run ++ (gap ++ '^' :: script)) =
      match if run.isEmpty then none
          else (resolveExponents vocabulary script).exponent? vocabulary with
      | some exponent => power run exponent.text ++ exponent.rest
      | none => run ++ gap ++ '^' :: resolveExponents vocabulary script := by
  have skipped : skipBlanks (gap ++ '^' :: script) = '^' :: script := by
    rw [skipBlanks, List.dropWhile_append_of_pos (List.all_eq_true.1 blank)]
    rfl
  have ends : endsRun isBaseChar (gap ++ '^' :: script) = true := by
    cases gap with
    | nil => rfl
    | cons c gap =>
        rw [List.all_cons, Bool.and_eq_true] at blank
        cases base : isBaseChar c with
        | false => simp [endsRun, base]
        | true =>
            have visible := isBlank_eq_false_of_isBaseChar base
            rw [isBlank_of_isAsciiBlank blank.1] at visible
            cases visible
  rw [resolveExponents, takeWhile_append_of_endsRun all ends]
  split
  · rename_i nothing
    rw [dropWhile_append_of_endsRun all ends] at nothing
    simp at nothing
  · rename_i c rest same
    rw [dropWhile_append_of_endsRun all ends] at same
    have isGap : before (c :: rest) ('^' :: script) = gap := by rw [← same, before_append]
    rw [same] at skipped
    split
    · rename_i isScript
      rw [skipped] at isScript
      cases isScript
      change (match if run.isEmpty then none
          else (resolveExponents vocabulary script).exponent? vocabulary with
        | some exponent => power run exponent.text ++ exponent.rest
        | none => run ++ before (c :: rest) ('^' :: script) ++
            '^' :: resolveExponents vocabulary script) = _
      rw [isGap]
    · rename_i noScript
      exact absurd skipped (noScript script)

/-- A character that is part of no base is passed over. -/
theorem resolveExponents_cons {c : Char} (other : isBaseChar c = false) (rest : Text) :
    resolveExponents vocabulary (c :: rest) = c :: resolveExponents vocabulary rest := by
  cases begins : Text.beginsScript (c :: rest) with
  | false =>
      have noRun : ([] : Text).all isBaseChar = true := rfl
      exact resolveExponents_append_cons noRun other begins
  | true =>
      obtain ⟨gap, script, blank, whole⟩ := exists_of_beginsScript begins
      have passed {gap : Text} (blank : gap.all isAsciiBlank = true) :
          resolveExponents vocabulary (gap ++ '^' :: script) =
            gap ++ '^' :: resolveExponents vocabulary script :=
        @resolveExponents_script vocabulary [] gap script rfl blank
      rw [whole, passed blank]
      cases gap with
      | nil =>
          cases whole
          rfl
      | cons d gap =>
          cases whole
          rw [List.all_cons, Bool.and_eq_true] at blank
          exact congrArg (c :: ·) (passed blank.2).symm

/-- The text becomes the result when its powers have their final form. -/
def Raises (vocabulary : Vocabulary) (text result : Text) : Prop :=
  text.resolveExponents vocabulary = result

namespace Raises

variable {result : Text}

theorem nil : Raises vocabulary [] [] := by
  rw [Raises, resolveExponents]
  rfl

theorem cons {c : Char} (other : isBaseChar c = false) (raises : Raises vocabulary rest result) :
    Raises vocabulary (c :: rest) (c :: result) := by
  rw [Raises, resolveExponents_cons other, raises]

/-- A run that has no exponent is passed over. -/
theorem append (all : run.all isBaseChar = true) (ends : rest.endsRun isBaseChar = true)
    (noScript : rest.beginsScript = false) (raises : Raises vocabulary rest result) :
    Raises vocabulary (run ++ rest) (run ++ result) := by
  cases rest with
  | nil =>
      cases nil.symm.trans raises
      rw [Raises, resolveExponents, takeWhile_append_of_endsRun all ends]
      split
      · rw [List.append_nil]
      · rename_i same
        rw [dropWhile_append_of_endsRun all ends] at same
        cases same
  | cons c rest =>
      have other : isBaseChar c = false := by simpa [endsRun] using ends
      rw [Raises, resolveExponents_append_cons all other noScript, ← resolveExponents_cons other,
        raises]

/-- A run with an exponent is a power. -/
theorem power {exponent : Cut} (all : run.all isBaseChar = true) (nonempty : run ≠ [])
    (raises : Raises vocabulary script result)
    (isExponent : result.exponent? vocabulary = some exponent) :
    Raises vocabulary (run ++ '^' :: script) (Text.power run exponent.text ++ exponent.rest) := by
  have raised := @resolveExponents_script vocabulary run [] script all rfl
  have some : run.isEmpty = false := by simpa using nonempty
  rw [List.nil_append, some, if_neg Bool.false_ne_true, raises, isExponent] at raised
  exact raised

end Raises

end Text

end TexCalc
