import TexCalc.Proofs.Check.Clean
import TexCalc.Proofs.Words.Cut
import TexCalc.Translator

/-!
# The normal text of an accepted formula

A formula without issues has only control sequences that name a command, and no character
that the target language cannot take over.  In its normal text every backslash is followed
by a letter.  The control words there need not be those of the formula: dollar signs and
comments leave nothing behind, so that letters after them may continue a control word.
-/

namespace TexCalc

namespace Translator

/-- A formula in which no issue is found. -/
def IsAccepted (formula : Text) : Prop :=
  issues formula = []

instance (formula : Text) : Decidable (IsAccepted formula) :=
  inferInstanceAs (Decidable (_ = _))

/-- Strict mode has a report exactly on the accepted formulas. -/
theorem report_eq_ok_iff {translator : Translator} (isStrict : translator.options.strict = true)
    {formula : Text} {report : Report} :
    translator.report formula = .ok report ↔
      IsAccepted formula ∧ translator.reportDespite formula [] = report := by
  simp only [Translator.report, isStrict, if_true, IsAccepted]
  split
  · rename_i found
    simp [found]
  · rename_i none
    simp [none]

/-- Outside strict mode an accepted formula has the same form of report. -/
theorem report_of_isAccepted {translator : Translator}
    (isLenient : translator.options.strict = false) {formula : Text}
    (accepted : IsAccepted formula) :
    translator.report formula = .ok (translator.reportDespite formula []) := by
  rw [Translator.report, isLenient, accepted]
  rfl

end Translator

namespace Text

/-- Trimming a formula first does not change its normal text. -/
theorem normal_trim (text : Text) : text.trim.normal = text.normal := by
  rw [normal, normal, trim_trim]

end Text

namespace Focus

theorem exists_focus_of_mem (before : List Lexeme) {lexemes : List Lexeme} {lexeme : Lexeme}
    (isMember : lexeme ∈ lexemes) : ∃ focus ∈ allFrom before lexemes, focus.here = lexeme := by
  rw [← map_here_allFrom before lexemes] at isMember
  exact List.mem_map.1 isMember

end Focus

namespace Token

/-- Whether a token is no fault by itself: a control sequence names a command, and a
character is one that the target language can take over. -/
def isKnown : Token → Bool
  | control name => (Command.named? name).isSome
  | char c => isCarried c
  | _ => true

/-- A control sequence without a fault names a command. -/
theorem isSome_named?_of_controlFault? {focus : Focus} {name : Text}
    (isControl : focus.here.token = control name)
    (faultless : focus.controlFault? name = none) : (Command.named? name).isSome = true := by
  simp only [Focus.controlFault?, isControl] at faultless
  split at faultless
  · rename_i side isSide
    have named (side : Side) : (Command.named? side.word).isSome = true := by
      cases side <;> decide
    simp only [Token.side?] at isSide
    split at isSide
    · rename_i left
      exact left ▸ named .left
    · split at isSide
      · rename_i right
        exact right ▸ named .right
      · cases isSide
  · split at faultless
    · rename_i fraction
      simp only [Command.isFraction, Bool.or_eq_true, decide_eq_true_eq] at fraction
      rcases fraction with (rfl | rfl) | rfl <;> decide
    · split at faultless
      · rename_i root
        simp only [Command.isRoot, decide_eq_true_eq] at root
        subst root
        decide
      · split at faultless
        · cases faultless
        · rename_i found
          simp only [found, Option.isSome_some]

theorem isKnown_of_fault? {focus : Focus} (faultless : focus.fault? = none) :
    focus.here.token.isKnown = true := by
  cases shape : focus.here.token with
  | control name =>
      simp only [Focus.fault?, shape] at faultless
      exact isSome_named?_of_controlFault? shape faultless
  | char c =>
      simp only [Focus.fault?, shape] at faultless
      split at faultless
      · cases faultless
      · split at faultless
        · rename_i carried
          exact carried
        · cases faultless
  | _ => rfl

/-- No lexeme of a formula without issues is a fault by itself. -/
theorem isKnown_of_issues_eq_nil {text : Text} (noIssues : text.issues = [])
    {lexeme : Lexeme} (isMember : lexeme ∈ text.lexemes) : lexeme.token.isKnown = true := by
  have unordered := Issue.ofLexemes_eq_nil noIssues
  simp only [Issue.ofLexemes, List.append_eq_nil_iff, List.filterMap_eq_nil_iff] at unordered
  obtain ⟨focus, isFocus, rfl⟩ := Focus.exists_focus_of_mem [] isMember
  exact isKnown_of_fault? (Option.map_eq_none_iff.1 (unordered.1.1 focus isFocus))

/-- A command that leaves a control sequence in normal text has a name of letters. -/
theorem isAlpha_of_named? {name : Text} {command : Command}
    (found : Command.named? name = some command) (noSpacing : command ≠ .spacing)
    (noOpener : name ≠ ['\x7b']) (noCloser : name ≠ ['\x7d']) :
    name ≠ [] ∧ name.all Char.isAlpha = true := by
  have inTable : ∀ entry ∈ Command.table,
      entry.2 = .spacing ∨ entry.1 = ['\x7b'] ∨ entry.1 = ['\x7d'] ∨
        entry.1 ≠ [] ∧ entry.1.all Char.isAlpha = true := by
    decide
  rcases inTable _ (Command.mem_table_of_named? found) with spacing | opener | closer | letters
  · exact absurd spacing noSpacing
  · exact absurd opener noOpener
  · exact absurd closer noCloser
  · exact letters

/-- In what becomes of a known token every backslash is followed by a letter. -/
theorem hasWordsOnly_normal {token : Token} (known : token.isKnown = true) :
    token.normal.HasWordsOnly := by
  fun_cases Token.normal token with
  | case6 c =>
      apply Text.hasWordsOnly_of_not_mem
      have other : c ≠ '\\' := by
        rintro rfl
        exact absurd known (by decide)
      simpa using Ne.symm other
  | case10 name noOpener noCloser noSpacing =>
      obtain ⟨command, found⟩ := Option.isSome_iff_exists.1 known
      obtain ⟨nonempty, letters⟩ := isAlpha_of_named? found
        (fun spacing => noSpacing (spacing ▸ found)) noOpener noCloser
      have words : Text.words ('\\' :: name) = [name] := by
        rw [Text.words_cons_backslash, Text.takeWhile_of_all_isAlpha letters,
          Text.words_of_not_mem (Text.not_mem_of_all_isAlpha letters)]
      simpa [Text.HasWordsOnly, words] using Ne.symm nonempty
  | case11 token noShift noComment noBlank noTie noChar _ _ noControl =>
      cases token with
      | mathShift => exact absurd rfl noShift
      | comment text => exact absurd rfl (noComment text)
      | char c => exact absurd rfl (noChar c)
      | control name => exact absurd rfl (noControl name)
      | _ => decide
  | _ => decide

end Token

namespace Text

/-- In the normal text of known tokens every backslash is followed by a letter. -/
theorem hasWordsOnly_ofTokens {tokens : List Token}
    (known : ∀ token ∈ tokens, token.isKnown = true) (isOpen : Bool) :
    (ofTokens isOpen tokens).HasWordsOnly := by
  fun_induction ofTokens isOpen tokens with
  | case1 => decide
  | case2 isOpen token rest side _ next later after delimiter _ ih =>
      have plain : '\\' ∉ side.normal delimiter := by
        fun_cases Side.normal side delimiter <;> decide
      have within : ∀ token ∈ later, token.isKnown = true := fun token isMember =>
        known token (List.mem_cons_of_mem _ ((List.dropWhile_sublist Token.isBlank).subset
          (after ▸ List.mem_cons_of_mem _ isMember)))
      exact (hasWordsOnly_of_not_mem plain).append (ih within)
  | case3 _ _ _ _ _ _ _ _ _ ih | case4 _ _ _ _ _ _ ih =>
      exact ih fun token isMember => known token (List.mem_cons_of_mem _ isMember)
  | case5 isOpen rest _ ih =>
      have plain : HasWordsOnly (if isOpen then "))".toList else "(abs(".toList) := by
        cases isOpen <;> decide
      exact plain.append (ih fun token isMember => known token (List.mem_cons_of_mem _ isMember))
  | case6 isOpen token rest _ _ ih =>
      exact (Token.hasWordsOnly_normal (known token List.mem_cons_self)).append
        (ih fun token isMember => known token (List.mem_cons_of_mem _ isMember))

/-- In the normal text of an accepted formula every backslash is followed by a letter. -/
theorem hasWordsOnly_normal_of_isAccepted {formula : Text}
    (accepted : Translator.IsAccepted formula) : formula.normal.HasWordsOnly := by
  apply hasWordsOnly_ofTokens
  intro token isMember
  obtain ⟨lexeme, isLexeme, rfl⟩ := List.mem_map.1 isMember
  exact Token.isKnown_of_issues_eq_nil (List.map_eq_nil_iff.1 accepted) isLexeme

end Text

end TexCalc
