import TexCalc.Linear.Call
import TexCalc.Linear.LogBase
import TexCalc.Proofs.Linear.Operands

/-!
# What readers leave

Every reader leaves an ending of the text from which it reads.
-/

namespace TexCalc

variable {vocabulary : Vocabulary} {text rest : Text}

theorem Bracket.suffix_of_group? {bracket : Bracket} {group : Group}
    (found : bracket.group? text = some group) : group.rest <:+ text := by
  rw [eq_of_group? found]
  exact (List.suffix_cons _ _).trans (List.suffix_append _ _)

theorem Vocabulary.suffix_of_callableAt? {callable : Callable}
    (found : vocabulary.callableAt? text = some (callable, rest)) : rest <:+ text := by
  rw [eq_of_callableAt? found]
  exact List.suffix_append _ _

theorem Control.suffix_of_read? {control : Control} (found : read? text = some control) :
    control.rest <:+ text := by
  rw [eq_of_read? found]
  exact List.suffix_append _ _

namespace Text

theorem Drops.suffix {accept : Char → Bool} (drops : text.Drops accept rest) : rest <:+ text := by
  obtain ⟨lead, rfl, _⟩ := drops
  exact List.suffix_append lead rest

theorem suffix_skipBlanks (text : Text) : text.skipBlanks <:+ text :=
  List.dropWhile_suffix isAsciiBlank

theorem suffix_of_skipBlanks {c : Char} (start : text.skipBlanks = c :: rest) :
    rest <:+ text :=
  (List.suffix_cons c rest).trans (start ▸ text.suffix_skipBlanks)

theorem suffix_of_dropLead? {lead : Text} (found : text.dropLead? lead = some rest) :
    rest <:+ text := by
  rw [dropLead?_eq_some_iff.1 found]
  exact List.suffix_append _ _

theorem suffix_of_afterLogMark? (found : text.afterLogMark? = some rest) : rest <:+ text := by
  obtain ⟨after, isAfter, isRest⟩ := Option.bind_eq_some_iff.1 found
  exact ((suffix_of_dropLead? isRest).trans (List.dropWhile_suffix isBlank)).trans
    (suffix_of_dropLead? isAfter)

theorem suffix_of_bareArgument? {argument : Cut}
    (found : text.bareArgument? vocabulary = some argument) : argument.rest <:+ text := by
  simp only [bareArgument?] at found
  split at found
  · cases found
  · rename_i c rest start
    split at found
    · obtain ⟨group, isGroup, rfl⟩ := Option.map_eq_some_iff.1 found
      exact (Bracket.suffix_of_group? isGroup).trans (suffix_of_skipBlanks start)
    · obtain ⟨after, isAfter, rfl⟩ := Option.map_eq_some_iff.1 found
      exact (passes_of_afterBareArgument? isAfter).suffix.trans
        (start ▸ text.suffix_skipBlanks)

end Text

theorem Argument.suffix_of_read? {argument : Argument} (found : read? text = some argument) :
    argument.rest <:+ text := by
  simp only [read?] at found
  split at found
  · cases found
  · rename_i c rest start
    have ends := Text.suffix_of_skipBlanks start
    split at found
    · obtain ⟨group, isGroup, rfl⟩ := Option.map_eq_some_iff.1 found
      exact (Bracket.suffix_of_group? isGroup).trans ends
    · split at found
      · obtain ⟨control, isControl, rfl⟩ := Option.map_eq_some_iff.1 found
        exact (Control.suffix_of_read? isControl).trans ends
      · split at found
        · cases found
        · cases found
          exact ends

namespace Application

theorem suffix_of_ofGroupArgument? {application : Application}
    (found : ofGroupArgument? text = some application) : application.rest <:+ text := by
  simp only [ofGroupArgument?] at found
  split at found
  · cases found
  · rename_i c rest start
    obtain ⟨bracket, _, isGroup⟩ := Option.bind_eq_some_iff.1 found
    obtain ⟨group, closed, rfl⟩ := Option.map_eq_some_iff.1 isGroup
    exact (Bracket.suffix_of_group? closed).trans (Text.suffix_of_skipBlanks start)

theorem suffix_of_read? {function? : Option Callable} {application : Application}
    (found : read? vocabulary function? text = some application) : application.rest <:+ text := by
  fun_induction read? vocabulary function? text generalizing application with
  | case2 function text rest exponent isExponent start ih =>
      have passes : Text.Passes false rest exponent.rest := Text.passes_of_exponent? isExponent
      obtain ⟨inner, isInner, rfl⟩ := Option.map_eq_some_iff.1 found
      exact (((ih isInner).trans exponent.rest.suffix_skipBlanks).trans passes.suffix).trans
        (Text.suffix_of_skipBlanks start)
  | case5 function text =>
      cases found
      exact (Text.dropsOperand_afterTouching vocabulary text).suffix
  | case6 function text c rest start _ _ _ ih =>
      obtain ⟨inner, isInner, rfl⟩ := Option.map_eq_some_iff.1 found
      exact (ih isInner).trans (start ▸ text.suffix_skipBlanks)
  | case7 text inner after isCallable ih =>
      have ends := Vocabulary.suffix_of_callableAt? isCallable
      rcases Option.or_eq_some_iff.1 found with isRead | ⟨_, isGroup⟩
      · exact (ih isRead).trans ends
      · obtain ⟨argument, isArgument, rfl⟩ := Option.map_eq_some_iff.1 isGroup
        exact (suffix_of_ofGroupArgument? isArgument).trans ends
  | case9 c rest _ _ ih =>
      obtain ⟨inner, isInner, rfl⟩ := Option.map_eq_some_iff.1 found
      rw [rest_signed]
      exact ((ih isInner).trans (Text.suffix_skipBlanks rest)).trans (List.suffix_cons c rest)
  | case10 c rest _ _ bracket _ =>
      obtain ⟨group, isGroup, rfl⟩ := Option.map_eq_some_iff.1 found
      exact (Bracket.suffix_of_group? isGroup).trans (List.suffix_cons c rest)
  | case11 c rest =>
      cases found
      exact (Text.dropsOperand_afterCoefficient vocabulary (c :: rest)).suffix
  | case12 c rest =>
      obtain ⟨after, isAfter, rfl⟩ := Option.map_eq_some_iff.1 found
      have passes : Text.Passes false (c :: rest) after := Text.passes_of_afterAtom? isAfter
      exact passes.suffix
  | _ => cases found

end Application

end TexCalc
