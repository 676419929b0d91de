import TexCalc.Text.Basic

/-!
# Rewriting until nothing is left to rewrite

Some steps of the translation rewrite the last place of a text again and again.  What stands in
front of a text then waits until the text has come to rest, and only then is rewritten itself.
-/

namespace TexCalc

/-- A text comes to rest as the given result, in at most the given number of rounds. -/
inductive Settles (step? : Text → Option Text) : (rounds : Nat) → Text → Text → Prop where
  | rest {rounds : Nat} {text : Text} (still : step? text = none) :
      Settles step? rounds text text
  | step {rounds : Nat} {text next result : Text} (moves : step? text = some next)
      (later : Settles step? rounds next result) : Settles step? (rounds + 1) text result

namespace Settles

variable {step? : Text → Option Text} {rounds : Nat} {text result : Text}

theorem still (settles : Settles step? rounds text result) : step? result = none := by
  induction settles with
  | rest still => exact still
  | step _ _ ih => exact ih

section

/-- More rounds change nothing where fewer are enough. -/
theorem within {more : Nat} (settles : Settles step? rounds text result) (fewer : rounds ≤ more) :
    Settles step? more text result := by
  induction settles generalizing more with
  | rest still => exact .rest still
  | step moves _ ih =>
      cases more with
      | zero => cases fewer
      | succ more => exact .step moves (ih (Nat.le_of_succ_le_succ fewer))

variable (front : Text) (keeps : Text → Prop) (settles : Settles step? rounds text result)
  (moves : ∀ text next, keeps text → step? text = some next →
    step? (front ++ text) = some (front ++ next) ∧ keeps next)
  (start : keeps text)

include settles moves start

/-- What every step keeps is kept. -/
theorem keeps_result : keeps result := by
  induction settles with
  | rest => exact start
  | step isNext _ ih => exact ih (moves _ _ start isNext).2

/-- What stands in front and is no place to rewrite stays in front. -/
theorem behind (still : ∀ text, keeps text → step? text = none → step? (front ++ text) = none) :
    Settles step? rounds (front ++ text) (front ++ result) := by
  induction settles with
  | rest isStill => exact .rest (still _ start isStill)
  | step isNext _ ih =>
      obtain ⟨isMoved, kept⟩ := moves _ _ start isNext
      exact .step isMoved (ih kept)

/-- What stands in front and can be rewritten is rewritten last. -/
theorem last {whole : Text} (final : step? (front ++ result) = some whole)
    (still : step? whole = none) : Settles step? (rounds + 1) (front ++ text) whole := by
  induction settles with
  | rest => exact .step final (.rest still)
  | step isNext _ ih =>
      obtain ⟨isMoved, kept⟩ := moves _ _ start isNext
      exact .step isMoved (ih kept final)

end

end Settles

end TexCalc
