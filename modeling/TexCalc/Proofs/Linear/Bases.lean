import TexCalc.Linear.LogBase

/-!
# The bases of logarithms

The bases are read where no other base and no argument of a logarithm with a base has been read.
-/

namespace TexCalc

namespace Text

/-- The bases that are read when logarithms are replaced, in order. -/
def logBases (vocabulary : Vocabulary) (text : Text) : List Text :=
  match text with
  | [] => []
  | c :: rest =>
      match _mark : (afterLogMark? (c :: rest)).bind Argument.read? with
      | none => logBases vocabulary rest
      | some base =>
          match _argument : base.rest.bareArgument? vocabulary with
          | some argument => base.text.trim :: logBases vocabulary argument.rest
          | none => base.text.trim :: logBases vocabulary base.rest
termination_by text.length
decreasing_by
  · simp
  all_goals
    obtain ⟨after, isAfter, isBase⟩ := Option.bind_eq_some_iff.1 _mark
    have marked := length_lt_of_afterLogMark? isAfter
    have read := Argument.length_lt_of_read? isBase
  · have := length_le_of_bareArgument? _argument
    omega
  · omega

section

variable {vocabulary : Vocabulary} {c : Char} {rest : Text} {base : Argument}

theorem logBases_cons_of_none (isNone : (afterLogMark? (c :: rest)).bind Argument.read? = none) :
    logBases vocabulary (c :: rest) = logBases vocabulary rest := by
  rw [logBases]
  split
  · rfl
  · rename_i isBase
    rw [isNone] at isBase
    cases isBase

variable (isBase : (afterLogMark? (c :: rest)).bind Argument.read? = some base)

include isBase

theorem logBases_cons_of_argument {argument : Cut}
    (isArgument : base.rest.bareArgument? vocabulary = some argument) :
    logBases vocabulary (c :: rest) = base.text.trim :: logBases vocabulary argument.rest := by
  rw [logBases]
  split
  · rename_i isNone
    rw [isBase] at isNone
    cases isNone
  · rename_i other isOther
    cases isBase.symm.trans isOther
    split
    · rename_i found isFound
      cases isArgument.symm.trans isFound
      rfl
    · rename_i isNone
      rw [isArgument] at isNone
      cases isNone

theorem logBases_cons_of_bare (noArgument : base.rest.bareArgument? vocabulary = none) :
    logBases vocabulary (c :: rest) = base.text.trim :: logBases vocabulary base.rest := by
  rw [logBases]
  split
  · rename_i isNone
    rw [isBase] at isNone
    cases isNone
  · rename_i other isOther
    cases isBase.symm.trans isOther
    split
    · rename_i found isFound
      rw [noArgument] at isFound
      cases isFound
    · rfl

end

/-- A base stands behind `\\log_`, blanks apart. -/
theorem exists_of_logBase? {text : Text} {base : Argument}
    (found : text.afterLogMark?.bind Argument.read? = some base) :
    ∃ blanks after : Text, text = "\\log".toList ++ (blanks ++ '_' :: after) ∧
      blanks.isAllBlank = true ∧ Argument.read? after = some base := by
  obtain ⟨after, isAfter, isBase⟩ := Option.bind_eq_some_iff.1 found
  obtain ⟨script, isScript, isRest⟩ := Option.bind_eq_some_iff.1 isAfter
  refine ⟨script.takeWhile isBlank, after, ?_, List.all_takeWhile, isBase⟩
  have behind : script.trimStart = '_' :: after := dropLead?_eq_some_iff.1 isRest
  rw [← behind, dropLead?_eq_some_iff.1 isScript]
  exact congrArg _ List.takeWhile_append_dropWhile.symm

end Text

end TexCalc
