import TexCalc.Linear.BareArgument

/-!
# Inverse functions

A trigonometric command with the exponent `-1` in braces is an inverse function.  It is
replaced before commands are renamed, together with the argument after it, which is
taken over as it is written.  The command is looked for at every backslash, and letters
right before its `^` end it.
-/

namespace TexCalc

namespace Text

/-- What follows `^{-1}` at the start of a text, with blanks anywhere in it. -/
def afterMinusOne? (text : Text) : Option Text :=
  ['^', '\x7b', '-', '1', '\x7d'].foldlM (fun rest c => dropLead? rest.trimStart [c]) text

/-- The six commands with an inverse. -/
def trigonometric : List Text :=
  ["sin".toList, "cos".toList, "tan".toList, "sec".toList, "csc".toList, "cot".toList]

/-- The inverse function whose command follows a backslash at the start of a text, and
what follows its exponent. -/
def inverseMark? : Text → Option Cut
  | '\\' :: text =>
      trigonometric.findSome? fun name =>
        (dropLead? text name).bind fun rest =>
          (afterMinusOne? rest).bind fun after =>
            (Command.inverse? name).map fun inverse => ⟨inverse, after⟩
  | _ => none

theorem length_le_of_afterMinusOne? {text rest : Text}
    (found : text.afterMinusOne? = some rest) : rest.length ≤ text.length := by
  suffices shrinks : ∀ (marks : List Char) (text : Text),
      marks.foldlM (fun rest c => dropLead? (trimStart rest) [c]) text = some rest →
        rest.length ≤ text.length from shrinks _ text found
  intro marks
  induction marks with
  | nil =>
      intro text same
      cases same
      exact Nat.le_refl _
  | cons mark marks ih =>
      intro text steps
      rw [List.foldlM_cons] at steps
      obtain ⟨after, isAfter, isRest⟩ := Option.bind_eq_some_iff.1 steps
      have trimmed := text.length_trimStart_le
      have dropped := length_eq_of_dropLead? isAfter
      have := ih after isRest
      omega

/-- An inverse function is a trigonometric command and its exponent, as they are written. -/
theorem exists_of_inverseMark? {text : Text} {mark : Cut}
    (found : text.inverseMark? = some mark) :
    ∃ name ∈ trigonometric, ∃ rest : Text, text = '\\' :: (name ++ rest) ∧
      rest.afterMinusOne? = some mark.rest ∧ Command.inverse? name = some mark.text := by
  unfold inverseMark? at found
  split at found
  · obtain ⟨name, isName, matched⟩ := List.exists_of_findSome?_eq_some found
    obtain ⟨rest, isRest, matched⟩ := Option.bind_eq_some_iff.1 matched
    obtain ⟨after, isAfter, matched⟩ := Option.bind_eq_some_iff.1 matched
    obtain ⟨inverse, isInverse, rfl⟩ := Option.map_eq_some_iff.1 matched
    exact ⟨name, isName, rest, by rw [dropLead?_eq_some_iff.1 isRest], isAfter, isInverse⟩
  · cases found

theorem length_lt_of_inverseMark? {text : Text} {mark : Cut}
    (found : text.inverseMark? = some mark) : mark.rest.length < text.length := by
  obtain ⟨name, _, rest, rfl, isAfter, _⟩ := exists_of_inverseMark? found
  have := length_le_of_afterMinusOne? isAfter
  simp only [List.length_cons, List.length_append]
  omega

/-- The text with the inverse functions called by name.  One without a readable
argument stands alone. -/
def resolveInverses (vocabulary : Vocabulary) (text : Text) : Text :=
  match text with
  | [] => []
  | c :: rest =>
      match _mark : inverseMark? (c :: rest) with
      | none => c :: resolveInverses vocabulary rest
      | some mark =>
          match _argument : mark.rest.bareArgument? vocabulary with
          | some argument =>
              ' ' :: mark.text ++ argument.text.parenthesized ++
                resolveInverses vocabulary argument.rest
          | none => ' ' :: mark.text ++ ' ' :: resolveInverses vocabulary mark.rest
termination_by text.length
decreasing_by
  · simp
  · have marked := length_lt_of_inverseMark? _mark
    have := length_le_of_bareArgument? _argument
    omega
  · exact length_lt_of_inverseMark? _mark

end Text

end TexCalc
