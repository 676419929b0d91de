import TexCalc.Linear.Operand

/-!
# Arguments in front of the renaming

The argument of `\sin^{-1}` and of `\log_{2}` is read while commands still stand as
they were written.  A group gives its inside; everything else, signs and function
commands with their own arguments included, is taken over as it is written.
-/

namespace TexCalc

namespace Text

/-- What follows the argument at the start of a text, ASCII blanks apart. -/
def afterBareArgument? (vocabulary : Vocabulary) (text : Text) : Option Text :=
  match _start : text.skipBlanks with
  | [] => none
  | c :: rest =>
      match Bracket.ofArgument? c with
      | some bracket => (bracket.group? rest).map Group.rest
      | none =>
          if c = '-' ∨ c = '+' then
            afterBareArgument? vocabulary rest
          else if c.isDigit then
            some (afterCoefficient vocabulary (c :: rest))
          else if c.isAlpha then
            some (afterLetterRun vocabulary (c :: rest))
          else if c = '\\' then
            match _control : Control.read? rest with
            | none => none
            | some control =>
                match Command.named? control.name with
                | none => none
                | some (.constant _) => some control.rest
                | some command =>
                    if command.takesArgument then
                      match _operand : afterExponent? vocabulary control.rest with
                      | some operand => afterBareArgument? vocabulary operand
                      | none => none
                    else
                      none
          else
            none
termination_by text.length
decreasing_by
  all_goals
    have skipped := text.length_skipBlanks_le
    rw [_start, List.length_cons] at skipped
  · omega
  · have taken := Control.length_lt_of_read? _control
    have := length_le_of_afterExponent? _operand
    omega

/-- The argument at the start of a text, ASCII blanks apart. -/
def bareArgument? (vocabulary : Vocabulary) (text : Text) : Option Cut :=
  match text.skipBlanks with
  | [] => none
  | c :: rest =>
      match Bracket.ofArgument? c with
      | some bracket => (bracket.group? rest).map fun group => ⟨group.inside, group.rest⟩
      | none =>
          let operand : Text := c :: rest
          (operand.afterBareArgument? vocabulary).map (Cut.upTo operand)

theorem length_le_of_afterBareArgument? {vocabulary : Vocabulary} {text rest : Text}
    (found : text.afterBareArgument? vocabulary = some rest) :
    rest.length ≤ text.length := by
  fun_induction afterBareArgument? vocabulary text with
  | case2 text c after start bracket _ =>
      have skipped := length_skipBlanks_le text
      rw [start, List.length_cons] at skipped
      obtain ⟨group, isGroup, rfl⟩ := Option.map_eq_some_iff.1 found
      have := Bracket.length_lt_of_group? isGroup
      omega
  | case3 text c after start _ _ ih =>
      have skipped := length_skipBlanks_le text
      rw [start, List.length_cons] at skipped
      have := ih found
      omega
  | case4 text c after start _ _ _ =>
      have skipped := length_skipBlanks_le text
      rw [start] at skipped
      cases found
      have := length_afterCoefficient_le vocabulary (c :: after)
      omega
  | case5 text c after start _ _ _ _ =>
      have skipped := length_skipBlanks_le text
      rw [start] at skipped
      cases found
      have := length_afterLetterRun_le vocabulary (c :: after)
      omega
  | case8 text after control isControl _ _ start =>
      have skipped := length_skipBlanks_le text
      rw [start, List.length_cons] at skipped
      have := Control.length_lt_of_read? isControl
      cases found
      omega
  | case9 text after control isControl _ _ _ _ operand isOperand start _ _ _ _ ih =>
      have skipped := length_skipBlanks_le text
      rw [start, List.length_cons] at skipped
      have := Control.length_lt_of_read? isControl
      have := length_le_of_afterExponent? isOperand
      have := ih found
      omega
  | _ => cases found

theorem length_le_of_bareArgument? {vocabulary : Vocabulary} {text : Text} {argument : Cut}
    (found : text.bareArgument? vocabulary = some argument) :
    argument.rest.length ≤ text.length := by
  have skipped := text.length_skipBlanks_le
  simp only [bareArgument?] at found
  split at found
  · cases found
  · rename_i c rest start
    rw [start] at skipped
    split at found
    · obtain ⟨group, isGroup, rfl⟩ := Option.map_eq_some_iff.1 found
      have := Bracket.length_lt_of_group? isGroup
      simp only [List.length_cons] at *
      omega
    · obtain ⟨after, isAfter, rfl⟩ := Option.map_eq_some_iff.1 found
      have := length_le_of_afterBareArgument? isAfter
      simp only [Cut.upTo]
      omega

end Text

end TexCalc
