import TexCalc.Proofs.Words.Cut
import TexCalc.Linear.Call

/-!
# Completing calls keeps the control words

An application moves an exponent behind the argument of its function and adds parentheses.
The control words of a text are the same before and after its calls have been completed,
though their order may have changed.
-/

namespace TexCalc

namespace Callable

/-- The name of a callable holds no control word. -/
theorem not_mem_text (callable : Callable) : '\\' ∉ callable.text := by
  cases callable with
  | function name => exact Text.not_mem_name name
  | parked waiting =>
      rcases waiting with ⟨function, inverse⟩
      cases function <;> cases inverse <;> decide

end Callable

namespace Text

/-- The names in a text that begins with an exponent. -/
theorem words_of_exponent? {vocabulary : Vocabulary} {text : Text} {exponent : Cut}
    (found : text.exponent? vocabulary = some exponent) :
    text.words = exponent.text.words ++ exponent.rest.words := by
  have skipped := (DropsPlain.skipBlanks text).words_eq
  simp only [exponent?] at found
  split at found
  · cases found
  · rename_i c rest start
    rw [start] at skipped
    split at found
    · rename_i bracket opens
      obtain ⟨group, isGroup, rfl⟩ := Option.map_eq_some_iff.1 found
      have other : c ≠ '\\' := opener_of_ofArgument? opens ▸ (not_isAlpha_opener bracket).2
      rw [skipped, words_cons_of_ne other, words_of_group? isGroup, words_wrap]
    · split at found
      · rename_i name after isConstant
        cases found
        rw [skipped, (dropsPlain_of_constantAt? isConstant).words_eq,
          words_of_not_mem (not_mem_name name), List.nil_append]
      · split at found
        · rename_i word
          cases found
          have other := ne_backslash_of_isAlphanum word
          rw [skipped, words_cons_of_ne other, words_cons_of_ne other, words_nil,
            List.nil_append]
        · cases found

theorem cutsAt_of_afterAtom? {vocabulary : Vocabulary} {text rest : Text}
    (found : text.afterAtom? vocabulary = some rest) : text.CutsAt rest :=
  cutsAt_of_passes_false (passes_of_afterAtom? found)

end Text

namespace Application

/-- The words of an application do not depend on its layers alone: whatever has the words of
the core may take its place. -/
def KeepsWords (application : Application) (text : Text) : Prop :=
  ∀ core : Text, core.words.Perm application.core.words →
    ((application.layers.foldr Layer.around core).words ++ application.rest.words).Perm text.words

variable {text : Text} {application : Application}

theorem keepsWords_ofPlain {rest : Text} (cut : text.CutsAt rest) :
    (ofPlain text rest).KeepsWords text := by
  intro core same
  rw [cut.words_eq]
  exact same.append_right _

theorem keepsWords_ofGroup {bracket : Bracket} {group : Group}
    (found : bracket.group? text = some group) : (ofGroup group).KeepsWords text := by
  intro core same
  rw [Text.words_of_group? found]
  exact same.append_right _

theorem KeepsWords.within_call {function : Callable} (keeps : application.KeepsWords text) :
    (application.within (.call function none)).KeepsWords text := by
  intro core same
  have around : ((application.within (.call function none)).layers.foldr Layer.around core).words =
      (application.layers.foldr Layer.around core).words := by
    simp only [within, List.foldr_cons, Layer.around]
    rw [Text.words_append_of_not_mem function.not_mem_text, Text.words_parenthesized]
  rw [around]
  exact keeps core same

theorem KeepsWords.within_brackets (keeps : application.KeepsWords text) :
    (application.within .brackets).KeepsWords text := by
  intro core same
  simp only [within, List.foldr_cons, Layer.around, Text.words_parenthesized]
  exact keeps core same

theorem KeepsWords.within_sign {c : Char} (other : c ≠ '\\')
    (keeps : application.KeepsWords text) :
    (application.within (.sign c)).KeepsWords text := by
  intro core same
  simp only [within, List.foldr_cons, Layer.around, Text.words_cons_of_ne other]
  exact keeps core same

theorem KeepsWords.signed {c : Char} (other : c ≠ '\\') (operand : Text)
    (keeps : application.KeepsWords text) :
    (application.signed c operand).KeepsWords text := by
  unfold Application.signed
  split
  · exact keeps.within_brackets.within_sign other
  · exact keeps.within_sign other

/-- The exponent of a function goes behind the argument. -/
theorem KeepsWords.within_power {function : Callable} {exponent : Text}
    (keeps : application.KeepsWords text) {whole : Text}
    (split : whole.words = exponent.words ++ text.words) :
    (application.within (.call function (some exponent))).KeepsWords whole := by
  intro core same
  have around :
      ((application.within (.call function (some exponent))).layers.foldr Layer.around core).words =
        (application.layers.foldr Layer.around core).words ++ exponent.words := by
    simp only [within, List.foldr_cons, Layer.around]
    rw [Text.words_parenthesized, List.append_assoc,
      Text.words_append_of_not_mem function.not_mem_text, Text.words_parenthesized_append,
      Text.words_cons_of_ne (by decide)]
  rw [around, split, rest_within, List.append_assoc]
  refine List.Perm.trans ?_ ((keeps core same).append_left _)
  exact (List.perm_append_comm_assoc _ _ _)

theorem KeepsWords.of_words_eq {whole : Text} (same : whole.words = text.words)
    (keeps : application.KeepsWords text) : application.KeepsWords whole := by
  intro core isCore
  rw [same]
  exact keeps core isCore

theorem keepsWords_of_ofGroupArgument? (found : ofGroupArgument? text = some application) :
    application.KeepsWords text := by
  have skipped := (Text.DropsPlain.skipBlanks text).words_eq
  simp only [ofGroupArgument?] at found
  split at found
  · cases found
  · rename_i c rest start
    obtain ⟨bracket, opens, isGroup⟩ := Option.bind_eq_some_iff.1 found
    obtain ⟨group, closed, rfl⟩ := Option.map_eq_some_iff.1 isGroup
    have other : c ≠ '\\' :=
      Text.opener_of_ofArgument? opens ▸ (Text.not_isAlpha_opener bracket).2
    rw [start, Text.words_cons_of_ne other] at skipped
    exact (keepsWords_ofGroup closed).of_words_eq skipped

/-- What is read has the control words of the text that it is read from. -/
theorem keepsWords_of_read? {vocabulary : Vocabulary} {function? : Option Callable}
    (found : read? vocabulary function? text = some application) :
    application.KeepsWords text := by
  fun_induction read? vocabulary function? text generalizing application with
  | case2 function text rest exponent isExponent start ih =>
      have skipped := (Text.DropsPlain.skipBlanks text).words_eq
      rw [start, Text.words_cons_of_ne (by decide), Text.words_of_exponent? isExponent,
        (Text.DropsPlain.skipBlanks exponent.rest).words_eq] at skipped
      obtain ⟨inner, isInner, rfl⟩ := Option.map_eq_some_iff.1 found
      exact (ih isInner).within_power skipped
  | case5 function text =>
      cases found
      exact (keepsWords_ofPlain
        (.of_dropsPlain (Text.dropsPlain_afterTouching vocabulary text))).within_call
  | case6 function text c rest start _ _ _ ih =>
      have skipped := (Text.DropsPlain.skipBlanks text).words_eq
      rw [start] at skipped
      obtain ⟨inner, isInner, rfl⟩ := Option.map_eq_some_iff.1 found
      exact (ih isInner).within_call.of_words_eq skipped
  | case7 text inner after isCallable ih =>
      have split : text.words = after.words := by
        rw [Vocabulary.eq_of_callableAt? isCallable,
          Text.words_append_of_not_mem inner.not_mem_text]
      rcases Option.or_eq_some_iff.1 found with isRead | ⟨_, isGroup⟩
      · exact (ih isRead).of_words_eq split
      · obtain ⟨argument, isArgument, rfl⟩ := Option.map_eq_some_iff.1 isGroup
        exact (keepsWords_of_ofGroupArgument? isArgument).within_call.of_words_eq split
  | case9 c rest isNone sign ih =>
      have other : c ≠ '\\' := by rcases sign with rfl | rfl <;> decide
      obtain ⟨inner, isInner, rfl⟩ := Option.map_eq_some_iff.1 found
      apply ((ih isInner).signed other _).of_words_eq
      rw [Text.words_cons_of_ne other, (Text.DropsPlain.skipBlanks rest).words_eq]
  | case10 c rest _ _ bracket opens =>
      have other : c ≠ '\\' :=
        Text.opener_of_ofArgument? opens ▸ (Text.not_isAlpha_opener bracket).2
      obtain ⟨group, isGroup, rfl⟩ := Option.map_eq_some_iff.1 found
      exact (keepsWords_ofGroup isGroup).of_words_eq (Text.words_cons_of_ne other rest)
  | case11 c rest =>
      cases found
      exact keepsWords_ofPlain (.of_dropsPlain (Text.dropsPlain_afterCoefficient vocabulary _))
  | case12 c rest =>
      obtain ⟨after, isAfter, rfl⟩ := Option.map_eq_some_iff.1 found
      exact keepsWords_ofPlain (Text.cutsAt_of_afterAtom? isAfter)
  | _ => cases found

/-- After a function its call is the outermost layer. -/
theorem exists_call_of_read? {vocabulary : Vocabulary} {function : Callable}
    (found : read? vocabulary (some function) text = some application) :
    ∃ exponent? layers, application.layers = Layer.call function exponent? :: layers := by
  unfold read? at found
  split at found
  · cases found
  · split at found
    · split at found
      · obtain ⟨inner, _, rfl⟩ := Option.map_eq_some_iff.1 found
        exact ⟨_, _, rfl⟩
      · cases found
    · split at found
      · cases found
      · split at found
        · cases found
          exact ⟨_, _, rfl⟩
        · obtain ⟨inner, _, rfl⟩ := Option.map_eq_some_iff.1 found
          exact ⟨_, _, rfl⟩

/-- A call ends with a parenthesis. -/
theorem exists_around_eq {vocabulary : Vocabulary} {function : Callable}
    (found : read? vocabulary (some function) text = some application) (core : Text) :
    ∃ front : Text, application.layers.foldr Layer.around core = front ++ [')'] := by
  obtain ⟨exponent?, layers, isCall⟩ := exists_call_of_read? found
  rw [isCall, List.foldr_cons]
  cases exponent? with
  | none =>
      refine ⟨function.text ++ '(' :: layers.foldr Layer.around core, ?_⟩
      rw [Layer.around, Text.parenthesized, List.append_assoc, List.cons_append]
  | some exponent => exact ⟨'(' :: _, rfl⟩

theorem words_around_append_of_read? {vocabulary : Vocabulary} {function : Callable}
    (found : read? vocabulary (some function) text = some application) (core right : Text) :
    (application.layers.foldr Layer.around core ++ right).words =
      (application.layers.foldr Layer.around core).words ++ right.words := by
  obtain ⟨front, ends⟩ := exists_around_eq found core
  rw [ends, List.append_assoc, List.singleton_append,
    Text.words_append_cons (by decide) (by decide), Text.words_append_cons (by decide) (by decide),
    Text.words_nil, List.append_nil]

end Application

namespace Text

theorem words_of_callableAt? {vocabulary : Vocabulary} {insideWord : Bool} {text rest : Text}
    {callable : Callable}
    (found : (if insideWord then none else vocabulary.callableAt? text) = some (callable, rest)) :
    text.words = rest.words := by
  split at found
  · cases found
  · rw [Vocabulary.eq_of_callableAt? found, words_append_of_not_mem callable.not_mem_text]

/-- Where no callable begins, the calls are completed behind the first character. -/
theorem completeCalls_cons {vocabulary : Vocabulary} {insideWord : Bool} {c : Char} {rest : Text}
    (none : insideWord = true ∨ vocabulary.callableAt? (c :: rest) = none) :
    completeCalls vocabulary insideWord (c :: rest) =
      c :: completeCalls vocabulary (c == '\\' || insideWord && c.isAlpha) rest := by
  rw [completeCalls]
  split
  · rfl
  · rename_i found
    split at found
    · cases found
    · rename_i outside
      rw [none.resolve_left outside] at found
      cases found

/-- Letters inside a control word are not touched. -/
theorem takeWhile_completeCalls (vocabulary : Vocabulary) (text : Text) :
    (text.completeCalls vocabulary true).takeWhile Char.isAlpha =
      text.takeWhile Char.isAlpha := by
  induction text with
  | nil => rw [completeCalls]
  | cons c rest ih =>
      rw [completeCalls_cons (.inl rfl)]
      cases letter : c.isAlpha with
      | true => simp only [Bool.true_and, Bool.or_true, List.takeWhile_cons, letter, if_true, ih]
      | false => simp [letter]

/-- Completing calls permutes the control words of a text. -/
theorem words_completeCalls_perm (vocabulary : Vocabulary) (insideWord : Bool) (text : Text) :
    (text.completeCalls vocabulary insideWord).words.Perm text.words := by
  fun_induction completeCalls vocabulary insideWord text with
  | case1 => exact .refl _
  | case2 insideWord c rest _ ih =>
      by_cases back : c = '\\'
      · subst back
        simp only [beq_self_eq_true, Bool.true_or] at ih ⊢
        rw [words_cons_backslash, takeWhile_completeCalls, words_cons_backslash]
        exact ih.cons _
      · rw [words_cons_of_ne back, words_cons_of_ne back]
        exact ih
  | case3 insideWord c rest function after isCallable _ ih =>
      have split := words_of_callableAt? isCallable
      rw [words_append_of_not_mem function.not_mem_text, split]
      exact ih
  | case4 insideWord c rest function after isCallable application isApplication core ihCore ihRest =>
      rw [words_of_callableAt? isCallable,
        Application.words_around_append_of_read? isApplication]
      have sameCore : core.words.Perm application.core.words := by
        cases grouped : application.grouped with
        | true => simpa [core, grouped] using ihCore
        | false => simp [core, grouped]
      have keeps := Application.keepsWords_of_read? isApplication core sameCore
      exact (ihRest.append_left _).trans keeps

/-- In a text in which every backslash is followed by a letter, calls can be completed. -/
theorem hasWordsOnly_attachArguments (vocabulary : Vocabulary) {text : Text}
    (only : text.HasWordsOnly) : (text.attachArguments vocabulary).HasWordsOnly :=
  fun isMember => only ((words_completeCalls_perm vocabulary false text).subset isMember)

theorem count_attachArguments (vocabulary : Vocabulary) (text : Text) :
    (text.attachArguments vocabulary).count '\\' = text.count '\\' := by
  rw [← length_words, ← length_words]
  exact (words_completeCalls_perm vocabulary false text).length_eq

end Text

end TexCalc
