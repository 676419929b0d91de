import TexCalc.Linear.BareArgument
import TexCalc.Proofs.Text.Characters

/-!
# What operands are made of

A run of letters, a constant and a coefficient consist of letters, digits, points and blanks.  An
atom may have an exponent, and an argument in front of the renaming may have signs and commands.
What the readers of operands pass over are therefore plain characters, whole groups and whole
control sequences, and whatever holds of these holds of an operand.
-/

namespace TexCalc

/-- The characters of an operand without an exponent. -/
def isOperandChar (c : Char) : Bool :=
  c.isAlphanum || isDecimalDigit c || c == '.' || isAsciiBlank c

theorem isOperandChar_of_isAlphanum {c : Char} (word : c.isAlphanum = true) :
    isOperandChar c = true := by
  simp [isOperandChar, word]

theorem isOperandChar_of_isDecimalDigit {c : Char} (digit : isDecimalDigit c = true) :
    isOperandChar c = true := by
  simp [isOperandChar, digit]

theorem isOperandChar_of_isAsciiBlank {c : Char} (blank : isAsciiBlank c = true) :
    isOperandChar c = true := by
  simp [isOperandChar, blank]

namespace Text

/-- `rest` is what follows a part of accepted characters at the front of `text`. -/
def Drops (accept : Char → Bool) (text rest : Text) : Prop :=
  ∃ lead, text = lead ++ rest ∧ lead.all accept = true

namespace Drops

variable {accept : Char → Bool} {text middle rest : Text}

theorem refl (text : Text) : Drops accept text text :=
  ⟨[], rfl, rfl⟩

theorem trans (first : Drops accept text middle) (second : Drops accept middle rest) :
    Drops accept text rest := by
  obtain ⟨lead, rfl, leadAll⟩ := first
  obtain ⟨next, rfl, nextAll⟩ := second
  exact ⟨lead ++ next, by rw [List.append_assoc], by rw [List.all_append, leadAll, nextAll]; rfl⟩

theorem cons {c : Char} (accepted : accept c = true) (drops : Drops accept text rest) :
    Drops accept (c :: text) rest := by
  obtain ⟨lead, rfl, all⟩ := drops
  exact ⟨c :: lead, rfl, by rw [List.all_cons, accepted, all]; rfl⟩

theorem dropWhile {fewer : Char → Bool} (less : ∀ c, fewer c = true → accept c = true)
    (text : Text) : Drops accept text (text.dropWhile fewer) := by
  refine ⟨text.takeWhile fewer, List.takeWhile_append_dropWhile.symm, List.all_eq_true.2 ?_⟩
  exact fun c isMember => less c (List.all_eq_true.1 List.all_takeWhile c isMember)

end Drops

theorem dropsOperand_skipBlanks (text : Text) : text.Drops isOperandChar text.skipBlanks :=
  .dropWhile (fun _ => isOperandChar_of_isAsciiBlank) text

theorem dropsOperand_of_constantAt? {vocabulary : Vocabulary} {text rest : Text} {name : Name}
    (found : vocabulary.constantAt? text = some (name, rest)) :
    text.Drops isOperandChar rest := by
  refine ⟨name.text, Vocabulary.eq_of_constantAt? found, List.all_eq_true.2 ?_⟩
  exact fun c isMember =>
    isOperandChar_of_isAlphanum (List.all_eq_true.1 name.all_isAlphanum c isMember)

theorem isOperandChar_of_isAlpha {c : Char} (letter : c.isAlpha = true) :
    isOperandChar c = true :=
  isOperandChar_of_isAlphanum (Bool.or_eq_true_iff.2 (.inl letter))

theorem dropsOperand_afterLetters (vocabulary : Vocabulary) (text : Text) :
    text.Drops isOperandChar (text.afterLetters vocabulary) := by
  induction text with
  | nil => exact .refl _
  | cons c rest ih =>
      simp only [afterLetters]
      split
      · rename_i letter
        simp only [Bool.and_eq_true] at letter
        exact ih.cons (isOperandChar_of_isAlpha letter.1)
      · exact .refl _

theorem dropsOperand_afterLetterRun (vocabulary : Vocabulary) (text : Text) :
    text.Drops isOperandChar (text.afterLetterRun vocabulary) := by
  cases text with
  | nil => exact .refl _
  | cons c rest =>
      simp only [afterLetterRun]
      split
      · rename_i letter
        exact (dropsOperand_afterLetters vocabulary rest).cons (isOperandChar_of_isAlpha letter)
      · exact .refl _

theorem dropsOperand_afterTouching (vocabulary : Vocabulary) (text : Text) :
    text.Drops isOperandChar (text.afterTouching vocabulary) := by
  simp only [afterTouching]
  split
  · rename_i found
    exact dropsOperand_of_constantAt? found
  · exact dropsOperand_afterLetterRun vocabulary text

theorem dropsOperand_afterNumeral (text : Text) :
    text.Drops isOperandChar text.afterNumeral := by
  have digits (text : Text) : text.Drops isOperandChar (text.dropWhile isDecimalDigit) :=
    .dropWhile (fun _ => isOperandChar_of_isDecimalDigit) text
  have whole := digits text
  simp only [afterNumeral]
  split
  · rename_i point digit after shape
    split
    · rw [shape] at whole ⊢
      exact whole.trans ((digits (digit :: after)).cons (by decide))
    · exact whole
  · exact whole

theorem dropsOperand_afterCoefficient (vocabulary : Vocabulary) (text : Text) :
    text.Drops isOperandChar (text.afterCoefficient vocabulary) := by
  have numeral := dropsOperand_afterNumeral text
  have factor := numeral.trans (dropsOperand_skipBlanks _)
  simp only [afterCoefficient]
  split
  · rename_i found
    exact factor.trans (dropsOperand_of_constantAt? found)
  · split
    · exact factor.trans (dropsOperand_afterLetterRun vocabulary _)
    · exact numeral

/-! ## Passing over -/

/-- `rest` is what follows plain characters, groups and, where commands are still in the text,
control sequences at the front of `text`. -/
inductive Passes (withCommands : Bool) : Text → Text → Prop where
  | done (text : Text) : Passes withCommands text text
  | char {c : Char} {text rest : Text} (plain : isOperandChar c = true ∨ c ∈ ['^', '-', '+'])
      (later : Passes withCommands text rest) : Passes withCommands (c :: text) rest
  | group {bracket : Bracket} {text rest : Text} {group : Group} (fixed : bracket ≠ .square)
      (found : bracket.group? text = some group) (later : Passes withCommands group.rest rest) :
      Passes withCommands (bracket.opener :: text) rest
  | control {text rest : Text} {control : Control} (allowed : withCommands = true)
      (found : Control.read? text = some control)
      (later : Passes withCommands control.rest rest) : Passes withCommands ('\\' :: text) rest

theorem opener_of_ofArgument? {c : Char} {bracket : Bracket}
    (opens : Bracket.ofArgument? c = some bracket) : bracket.opener = c := by
  simpa using List.find?_some opens

theorem ne_square_of_ofArgument? {c : Char} {bracket : Bracket}
    (opens : Bracket.ofArgument? c = some bracket) : bracket ≠ .square := by
  have listed := List.mem_of_find?_eq_some opens
  rintro rfl
  exact absurd listed (by decide)

namespace Passes

variable {withCommands : Bool} {text middle rest : Text}

theorem trans (first : Passes withCommands text middle)
    (second : Passes withCommands middle rest) : Passes withCommands text rest := by
  induction first with
  | done => exact second
  | char plain _ ih => exact .char plain (ih second)
  | group fixed found _ ih => exact .group fixed found (ih second)
  | control allowed found _ ih => exact .control allowed found (ih second)

/-- What is passed over stands in front of the rest. -/
theorem suffix (passes : Passes withCommands text rest) : rest <:+ text := by
  induction passes with
  | done text => exact List.suffix_refl text
  | @char c _ _ _ _ ih => exact ih.trans (List.suffix_cons c _)
  | @group bracket _ _ _ _ found _ ih =>
      rw [Bracket.eq_of_group? found]
      exact ((ih.trans (List.suffix_cons _ _)).trans (List.suffix_append _ _)).trans
        (List.suffix_cons _ _)
  | control _ found _ ih =>
      rw [Control.eq_of_read? found]
      exact (ih.trans (List.suffix_append _ _)).trans (List.suffix_cons _ _)

theorem of_drops (drops : text.Drops isOperandChar rest) : Passes withCommands text rest := by
  obtain ⟨lead, rfl, all⟩ := drops
  induction lead with
  | nil => exact .done rest
  | cons c lead ih =>
      rw [List.all_cons, Bool.and_eq_true] at all
      exact .char (.inl all.1) (ih all.2)

theorem of_skipBlanks (later : Passes withCommands text.skipBlanks rest) :
    Passes withCommands text rest :=
  (of_drops (dropsOperand_skipBlanks text)).trans later

/-- A group that may be an argument. -/
theorem of_group? {c : Char} {bracket : Bracket} {group : Group}
    (opens : Bracket.ofArgument? c = some bracket) (found : bracket.group? text = some group) :
    Passes withCommands (c :: text) group.rest := by
  rw [← opener_of_ofArgument? opens]
  exact .group (ne_square_of_ofArgument? opens) found (.done _)

end Passes

variable {withCommands : Bool} {vocabulary : Vocabulary} {text rest : Text}

theorem passes_of_exponent? {exponent : Cut} (found : text.exponent? vocabulary = some exponent) :
    Passes withCommands text exponent.rest := by
  apply Passes.of_skipBlanks
  simp only [exponent?] at found
  split at found
  · cases found
  · rename_i c rest start
    rw [start]
    split at found
    · rename_i bracket opens
      obtain ⟨group, isGroup, rfl⟩ := Option.map_eq_some_iff.1 found
      exact .of_group? opens isGroup
    · split at found
      · rename_i isConstant
        cases found
        exact .of_drops (dropsOperand_of_constantAt? isConstant)
      · split at found
        · rename_i word
          cases found
          exact .char (.inl (isOperandChar_of_isAlphanum word)) (.done rest)
        · cases found

theorem passes_of_afterExponent? (found : text.afterExponent? vocabulary = some rest) :
    Passes withCommands text rest := by
  apply Passes.of_skipBlanks
  simp only [afterExponent?] at found
  split at found
  · rename_i script isScript
    obtain ⟨exponent, isExponent, rfl⟩ := Option.map_eq_some_iff.1 found
    rw [isScript]
    exact .char (.inr (by decide)) (passes_of_exponent? isExponent)
  · cases found
    exact .done _

theorem passes_of_afterAtom? (found : text.afterAtom? vocabulary = some rest) :
    Passes withCommands text rest := by
  simp only [afterAtom?] at found
  split at found
  · rename_i isConstant
    cases found
    exact .of_drops (dropsOperand_of_constantAt? isConstant)
  · split at found
    · cases found
    · rename_i c after _
      split at found
      · rename_i letter
        simp only [Bool.and_eq_true] at letter
        refine .char (.inl (isOperandChar_of_isAlpha letter.1)) ?_
        split at found
        · rename_i script isScript
          split at found
          · rename_i exponent isExponent
            cases found
            apply Passes.of_skipBlanks
            rw [isScript]
            exact .char (.inr (by decide)) (passes_of_exponent? isExponent)
          · cases found
            exact .done _
        · cases found
          exact .done _
      · cases found

/-- An argument in front of the renaming. -/
theorem passes_of_afterBareArgument? (found : text.afterBareArgument? vocabulary = some rest) :
    Passes true text rest := by
  fun_induction afterBareArgument? vocabulary text with
  | case2 text c after start bracket opens =>
      obtain ⟨group, isGroup, rfl⟩ := Option.map_eq_some_iff.1 found
      apply Passes.of_skipBlanks
      rw [start]
      exact .of_group? opens isGroup
  | case3 text c after start _ sign ih =>
      apply Passes.of_skipBlanks
      rw [start]
      exact .char (.inr (by rcases sign with rfl | rfl <;> decide)) (ih found)
  | case4 text c after start _ _ _ =>
      cases found
      apply Passes.of_skipBlanks
      rw [start]
      exact .of_drops (dropsOperand_afterCoefficient vocabulary _)
  | case5 text c after start _ _ _ _ =>
      cases found
      apply Passes.of_skipBlanks
      rw [start]
      exact .of_drops (dropsOperand_afterLetterRun vocabulary _)
  | case8 text after control isControl _ _ start =>
      cases found
      apply Passes.of_skipBlanks
      rw [start]
      exact .control rfl isControl (.done _)
  | case9 text after control isControl _ _ _ _ operand isOperand start _ _ _ _ ih =>
      apply Passes.of_skipBlanks
      rw [start]
      exact .control rfl isControl ((passes_of_afterExponent? isOperand).trans (ih found))
  | _ => cases found

end Text

end TexCalc
