import TexCalc.Linear.BareArgument
import TexCalc.Proofs.Linear.Operands
import TexCalc.Proofs.Words.Basic

/-!
# Readers stop between control words

Every reader of operands and arguments takes a part from the front of a text.  A part
without a backslash cuts no control word in two, nor does a whole group or a whole control
word, and cuts can be made one after the other.  The names in a text are therefore those
in the part that was read and those in the rest.
-/

namespace TexCalc

namespace Text

/-- `rest` is what follows a part without a backslash at the front of `text`. -/
def DropsPlain (text rest : Text) : Prop :=
  ∃ lead, text = lead ++ rest ∧ '\\' ∉ lead

/-- `rest` is an ending of `text` at which no control word is cut in two. -/
def CutsAt (text rest : Text) : Prop :=
  ∃ lead, text = lead ++ rest ∧ (insideWord false lead = true → rest.endsWord = true)

namespace DropsPlain

theorem refl (text : Text) : text.DropsPlain text :=
  ⟨[], rfl, List.not_mem_nil⟩

theorem trans {text middle rest : Text} (first : text.DropsPlain middle)
    (second : middle.DropsPlain rest) : text.DropsPlain rest := by
  obtain ⟨lead, rfl, leadPlain⟩ := first
  obtain ⟨next, rfl, nextPlain⟩ := second
  exact ⟨lead ++ next, by rw [List.append_assoc], by simp [leadPlain, nextPlain]⟩

theorem cons {c : Char} {text rest : Text} (other : c ≠ '\\') (drops : text.DropsPlain rest) :
    DropsPlain (c :: text) rest := by
  obtain ⟨lead, rfl, plain⟩ := drops
  exact ⟨c :: lead, rfl, by simp [plain, Ne.symm other]⟩

theorem dropWhile {accept : Char → Bool} (refuses : accept '\\' = false) (text : Text) :
    DropsPlain text (text.dropWhile accept) := by
  refine ⟨text.takeWhile accept, List.takeWhile_append_dropWhile.symm, ?_⟩
  intro isMember
  have accepted := List.all_eq_true.1 List.all_takeWhile _ isMember
  rw [refuses] at accepted
  cases accepted

theorem skipBlanks (text : Text) : text.DropsPlain text.skipBlanks :=
  dropWhile (by decide) text

theorem words_eq {text rest : Text} (drops : text.DropsPlain rest) :
    text.words = rest.words := by
  obtain ⟨lead, rfl, plain⟩ := drops
  exact words_append_of_not_mem plain rest

end DropsPlain

namespace CutsAt

theorem refl (text : Text) : text.CutsAt text :=
  ⟨[], rfl, fun inside => absurd inside (by decide)⟩

theorem of_dropsPlain {text rest : Text} (drops : text.DropsPlain rest) : text.CutsAt rest := by
  obtain ⟨lead, split, plain⟩ := drops
  exact ⟨lead, split, by simp [insideWord_of_not_mem plain]⟩

theorem of_endsWord {lead rest : Text} (ends : rest.endsWord = true) :
    CutsAt (lead ++ rest) rest :=
  ⟨lead, rfl, fun _ => ends⟩

/-- A cut may be made right after a character that belongs to no control word. -/
theorem of_last {lead rest : Text} {c : Char} (noLetter : c.isAlpha = false)
    (other : c ≠ '\\') : CutsAt (lead ++ c :: rest) rest := by
  refine ⟨lead ++ [c], by simp, ?_⟩
  have notBack : (c == '\\') = false := by simpa using other
  simp [insideWord, noLetter, notBack]

theorem cons {c : Char} {text rest : Text} (other : c ≠ '\\') (cut : text.CutsAt rest) :
    CutsAt (c :: text) rest := by
  obtain ⟨lead, rfl, seam⟩ := cut
  refine ⟨c :: lead, rfl, ?_⟩
  have notBack : (c == '\\') = false := by simpa using other
  simpa [insideWord, notBack] using seam

theorem trans {text middle rest : Text} (first : text.CutsAt middle)
    (second : middle.CutsAt rest) : text.CutsAt rest := by
  obtain ⟨lead, rfl, seam⟩ := first
  obtain ⟨next, rfl, nextSeam⟩ := second
  refine ⟨lead ++ next, by rw [List.append_assoc], ?_⟩
  rw [insideWord_append]
  intro inside
  cases open' : insideWord false lead with
  | false => exact nextSeam (open' ▸ inside)
  | true =>
      have ends := seam open'
      cases next with
      | nil => simpa using ends
      | cons c next =>
          simp only [List.cons_append, endsWord, endsRun, List.head?_cons, Option.all_some,
            Bool.not_eq_true'] at ends
          apply nextSeam
          rw [open'] at inside
          simpa [insideWord, ends] using inside

theorem words_eq {text rest : Text} (cut : text.CutsAt rest) :
    text.words = (text.before rest).words ++ rest.words := by
  obtain ⟨lead, rfl, seam⟩ := cut
  rw [before_append, words_append seam]

end CutsAt

/-! ## Groups and control words -/

theorem not_isAlpha_closer (bracket : Bracket) :
    bracket.closer.isAlpha = false ∧ bracket.closer ≠ '\\' := by
  cases bracket <;> decide

theorem not_isAlpha_opener (bracket : Bracket) :
    bracket.opener.isAlpha = false ∧ bracket.opener ≠ '\\' := by
  cases bracket <;> decide

/-- The names in a text that begins with the inside of a group. -/
theorem words_of_group? {bracket : Bracket} {text : Text} {group : Group}
    (found : bracket.group? text = some group) :
    text.words = group.inside.words ++ group.rest.words := by
  have closer := not_isAlpha_closer bracket
  rw [Bracket.eq_of_group? found, words_append_cons closer.1 closer.2]

theorem cutsAt_of_group? {bracket : Bracket} {text : Text} {group : Group}
    (found : bracket.group? text = some group) : text.CutsAt group.rest := by
  have closer := not_isAlpha_closer bracket
  have cut : CutsAt (group.inside ++ bracket.closer :: group.rest) group.rest :=
    .of_last closer.1 closer.2
  rwa [← Bracket.eq_of_group? found] at cut

theorem HasWordsOnly.tail {c : Char} {text : Text} (only : HasWordsOnly (c :: text)) :
    text.HasWordsOnly := by
  by_cases back : c = '\\'
  · subst back
    exact fun isMember => only (List.mem_cons_of_mem _ isMember)
  · rwa [HasWordsOnly, words_cons_of_ne back] at only

theorem HasWordsOnly.of_append_right {lead text : Text} (only : HasWordsOnly (lead ++ text)) :
    text.HasWordsOnly := by
  induction lead with
  | nil => exact only
  | cons c lead ih => exact ih only.tail

theorem HasWordsOnly.skipBlanks {text : Text} (only : text.HasWordsOnly) :
    text.skipBlanks.HasWordsOnly := by
  rwa [HasWordsOnly, ← (DropsPlain.skipBlanks text).words_eq]

/-- In a text with control words only, what follows a backslash is a whole control word. -/
theorem read?_of_hasWordsOnly {text : Text} (only : HasWordsOnly ('\\' :: text)) :
    Control.read? text =
      some ⟨text.takeWhile Char.isAlpha, text.dropWhile Char.isAlpha⟩ := by
  cases text with
  | nil => exact absurd List.mem_cons_self only
  | cons c rest =>
      cases letter : c.isAlpha with
      | true => simp [Control.read?, letter]
      | false =>
          refine absurd ?_ only
          simp [letter]

/-- The rest of a control word ends it, and its name has letters only. -/
theorem control_of_hasWordsOnly {text : Text} {control : Control}
    (only : HasWordsOnly ('\\' :: text)) (found : Control.read? text = some control) :
    text = control.name ++ control.rest ∧ control.name.all Char.isAlpha = true ∧
      control.rest.endsWord = true ∧ text.takeWhile Char.isAlpha = control.name := by
  refine ⟨Control.eq_of_read? found, ?_⟩
  rw [read?_of_hasWordsOnly only] at found
  cases found
  exact ⟨List.all_takeWhile, endsWord_dropWhile text, rfl⟩

theorem words_of_all_isAlpha {letters : Text} (all : letters.all Char.isAlpha = true)
    (right : Text) : words (letters ++ right) = words right :=
  words_append_of_not_mem (not_mem_of_all_isAlpha all) right

/-- The names in a text that begins with a control word of the given name. -/
theorem words_word {name rest : Text} (letters : name.all Char.isAlpha = true)
    (ends : rest.endsWord = true) : words ('\\' :: (name ++ rest)) = name :: rest.words := by
  rw [words_cons_backslash, takeWhile_append_of_endsRun letters ends,
    words_of_all_isAlpha letters]

/-- The names in a text that begins with a control word. -/
theorem words_of_control {text : Text} {control : Control}
    (only : HasWordsOnly ('\\' :: text)) (found : Control.read? text = some control) :
    words ('\\' :: text) = control.name :: control.rest.words := by
  obtain ⟨split, letters, _, name⟩ := control_of_hasWordsOnly only found
  rw [words_cons_backslash, name]
  conv => lhs; rw [split, words_of_all_isAlpha letters]

theorem HasWordsOnly.of_control {text : Text} {control : Control}
    (only : HasWordsOnly ('\\' :: text)) (found : Control.read? text = some control) :
    control.rest.HasWordsOnly :=
  fun isMember => only (words_of_control only found ▸ List.mem_cons_of_mem _ isMember)

theorem cutsAt_of_control {text : Text} {control : Control}
    (only : HasWordsOnly ('\\' :: text)) (found : Control.read? text = some control) :
    CutsAt ('\\' :: text) control.rest := by
  obtain ⟨split, _, ends, _⟩ := control_of_hasWordsOnly only found
  have cut : CutsAt (('\\' :: control.name) ++ control.rest) control.rest := .of_endsWord ends
  rwa [List.cons_append, ← split] at cut

/-! ## Operands -/

theorem not_mem_name (name : Name) : '\\' ∉ name.text := by
  intro isMember
  have letterOrDigit := List.all_eq_true.1 name.all_isAlphanum _ isMember
  exact absurd letterOrDigit (by decide)

theorem dropsPlain_of_constantAt? {vocabulary : Vocabulary} {text rest : Text} {name : Name}
    (found : vocabulary.constantAt? text = some (name, rest)) : text.DropsPlain rest :=
  ⟨name.text, Vocabulary.eq_of_constantAt? found, not_mem_name name⟩

theorem dropsPlain_of_dropsOperand {text rest : Text} (drops : text.Drops isOperandChar rest) :
    text.DropsPlain rest := by
  obtain ⟨lead, split, all⟩ := drops
  refine ⟨lead, split, fun isMember => ?_⟩
  exact absurd (List.all_eq_true.1 all _ isMember) (by decide +kernel)

theorem dropsPlain_afterTouching (vocabulary : Vocabulary) (text : Text) :
    text.DropsPlain (text.afterTouching vocabulary) :=
  dropsPlain_of_dropsOperand (dropsOperand_afterTouching vocabulary text)

theorem dropsPlain_afterCoefficient (vocabulary : Vocabulary) (text : Text) :
    text.DropsPlain (text.afterCoefficient vocabulary) :=
  dropsPlain_of_dropsOperand (dropsOperand_afterCoefficient vocabulary text)

theorem ne_backslash_of_isAlphanum {c : Char} (word : c.isAlphanum = true) : c ≠ '\\' := by
  rintro rfl
  exact absurd word (by decide)

theorem HasWordsOnly.of_cutsAt {text rest : Text} (only : text.HasWordsOnly)
    (cut : text.CutsAt rest) : rest.HasWordsOnly := by
  obtain ⟨lead, rfl, _⟩ := cut
  exact only.of_append_right

/-- Plain characters, whole groups and whole control words cut no control word in two. -/
theorem cutsAt_of_passes {withCommands : Bool} {text rest : Text}
    (only : withCommands = true → text.HasWordsOnly) (passes : Passes withCommands text rest) :
    text.CutsAt rest := by
  induction passes with
  | done => exact .refl _
  | @char c text rest plain _ ih =>
      have other : c ≠ '\\' := by
        rintro rfl
        rcases plain with operand | listed
        · exact absurd operand (by decide +kernel)
        · exact absurd listed (by decide)
      exact (ih fun allowed => (only allowed).tail).cons other
  | @group bracket text rest group _ found _ ih =>
      have cut := (cutsAt_of_group? found).cons (not_isAlpha_opener bracket).2
      exact cut.trans (ih fun allowed => (only allowed).of_cutsAt cut)
  | control allowed found _ ih =>
      have cut := cutsAt_of_control (only allowed) found
      exact cut.trans (ih fun _ => (only allowed).of_cutsAt cut)

/-- After the renaming no control word can be cut in two. -/
theorem cutsAt_of_passes_false {text rest : Text} (passes : Passes false text rest) :
    text.CutsAt rest :=
  cutsAt_of_passes (fun allowed => absurd allowed Bool.false_ne_true) passes

/-- Reading an argument in front of the renaming cuts no control word in two. -/
theorem cutsAt_of_afterBareArgument? {vocabulary : Vocabulary} {text rest : Text}
    (only : text.HasWordsOnly) (found : text.afterBareArgument? vocabulary = some rest) :
    text.CutsAt rest :=
  cutsAt_of_passes (fun _ => only) (passes_of_afterBareArgument? found)

/-- The names in a text that begins with an argument: those in the argument, then those
in the rest. -/
theorem words_of_bareArgument? {vocabulary : Vocabulary} {text : Text} {argument : Cut}
    (only : text.HasWordsOnly) (found : text.bareArgument? vocabulary = some argument) :
    text.words = argument.text.words ++ argument.rest.words := by
  have skipped := (DropsPlain.skipBlanks text).words_eq
  have within := only.skipBlanks
  simp only [bareArgument?] at found
  split at found
  · cases found
  · rename_i c rest start
    rw [start] at skipped within
    split at found
    · rename_i bracket opens
      obtain ⟨group, isGroup, rfl⟩ := Option.map_eq_some_iff.1 found
      have other : c ≠ '\\' := opener_of_ofArgument? opens ▸ (not_isAlpha_opener bracket).2
      rw [skipped, words_cons_of_ne other, words_of_group? isGroup]
    · obtain ⟨after, isAfter, rfl⟩ := Option.map_eq_some_iff.1 found
      rw [skipped, (cutsAt_of_afterBareArgument? within isAfter).words_eq]
      rfl

theorem HasWordsOnly.of_bareArgument? {vocabulary : Vocabulary} {text : Text} {argument : Cut}
    (only : text.HasWordsOnly) (found : text.bareArgument? vocabulary = some argument) :
    argument.rest.HasWordsOnly :=
  fun isMember => only (words_of_bareArgument? only found ▸ List.mem_append_right _ isMember)

/-- The names in a text that begins with an argument of a command. -/
theorem words_of_argument {text : Text} {argument : Argument} (only : text.HasWordsOnly)
    (found : Argument.read? text = some argument) :
    text.words = argument.text.words ++ argument.rest.words := by
  have skipped := (DropsPlain.skipBlanks text).words_eq
  have within := only.skipBlanks
  simp only [Argument.read?] at found
  split at found
  · cases found
  · rename_i c rest start
    rw [start] at skipped within
    split at found
    · rename_i brace
      subst brace
      obtain ⟨group, isGroup, rfl⟩ := Option.map_eq_some_iff.1 found
      rw [skipped, words_cons_of_ne (by decide), words_of_group? isGroup]
    · split at found
      · rename_i back
        subst back
        obtain ⟨control, isControl, rfl⟩ := Option.map_eq_some_iff.1 found
        obtain ⟨_, letters, _, _⟩ := control_of_hasWordsOnly within isControl
        have name : control.source.words = [control.name] := by
          rw [Control.source, words_cons_backslash, takeWhile_of_all_isAlpha letters,
            words_of_not_mem (not_mem_of_all_isAlpha letters)]
        rw [skipped, words_of_control within isControl, name]
        rfl
      · rename_i other
        split at found
        · cases found
        · cases found
          rw [skipped, words_cons_of_ne other, words_cons_of_ne other]
          rfl

theorem HasWordsOnly.of_argument {text : Text} {argument : Argument} (only : text.HasWordsOnly)
    (found : Argument.read? text = some argument) : argument.rest.HasWordsOnly :=
  fun isMember => only (words_of_argument only found ▸ List.mem_append_right _ isMember)

theorem words_of_optionalArgument {text : Text} {argument : Argument}
    (found : Argument.readOptional? text = some argument) :
    text.words = argument.text.words ++ argument.rest.words := by
  have skipped := (DropsPlain.skipBlanks text).words_eq
  simp only [Argument.readOptional?] at found
  split at found
  · rename_i rest start
    rw [start] at skipped
    obtain ⟨group, isGroup, rfl⟩ := Option.map_eq_some_iff.1 found
    rw [skipped, words_cons_of_ne (by decide), words_of_group? isGroup]
  · cases found

theorem HasWordsOnly.of_optionalArgument {text : Text} {argument : Argument}
    (only : text.HasWordsOnly) (found : Argument.readOptional? text = some argument) :
    argument.rest.HasWordsOnly :=
  fun isMember => only (words_of_optionalArgument found ▸ List.mem_append_right _ isMember)

end Text

end TexCalc
