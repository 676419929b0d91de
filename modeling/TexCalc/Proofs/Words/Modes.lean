import TexCalc.Proofs.Words.Leftover

/-!
# Strict mode and removed control sequences

Strict mode finds issues on the source of a formula, but commands are renamed in its normal
text.  A dollar sign, a comment or a sized bar between a command and a letter leaves nothing
between them there, so that an accepted formula can have control words in its normal text
that it did not have before.  Such a word is removed with a warning, though strict mode
reports no issue; where it begins with the name of a function or a constant, the other mode
splits that name off instead.
-/

namespace TexCalc

namespace Text

/-- Every control word of the text names a command. -/
def HasNamedWords (text : Text) : Prop :=
  ∀ word ∈ text.words, Command.named? word ≠ none

/-- Every command for a fraction or a root finds its arguments in the text. -/
def HasReadableStructures (text : Text) : Prop :=
  ∀ word ∈ text.resolveStructures.words, Command.named? word ≠ some .structural

/-- Some control word of the text names no command but begins with the name of a function or
a constant. -/
def HasFusedWord (text : Text) : Prop :=
  ∃ word ∈ text.words, Command.named? word = none ∧ Command.fused? word ≠ none

instance (text : Text) : Decidable text.HasNamedWords :=
  inferInstanceAs (Decidable (∀ word ∈ text.words, _))

instance (text : Text) : Decidable text.HasReadableStructures :=
  inferInstanceAs (Decidable (∀ word ∈ text.resolveStructures.words, _))

instance (text : Text) : Decidable text.HasFusedWord :=
  inferInstanceAs (Decidable (∃ word ∈ text.words, _))

/-- The commands that the first steps replace have names. -/
theorem named?_of_isName {name : Text} (isName : Structure.IsName name) :
    Command.named? name = some .structural := by
  simp only [Structure.IsName, Command.isFraction, Command.isRoot, Bool.or_eq_true,
    decide_eq_true_eq] at isName
  rcases isName with ((rfl | rfl) | rfl) | rfl <;> rfl

theorem named?_of_isReplaced {name : Text}
    (isReplaced : name ∈ trigonometric ∨ name = "log".toList) :
    Command.named? name ≠ none ∧ Command.named? name ≠ some .structural := by
  have functions : ∀ name ∈ trigonometric,
      Command.named? name ≠ none ∧ Command.named? name ≠ some .structural := by
    decide
  rcases isReplaced with isMember | rfl
  · exact functions name isMember
  · decide

variable {text : Text} {vocabulary : Vocabulary}

theorem mem_of_mem_beforeRenaming (only : text.HasWordsOnly) {word : Text}
    (isMember : word ∈ (text.beforeRenaming vocabulary).words) :
    word ∈ text.resolveStructures.words ∧ word ∈ text.words := by
  have resolved := (keepsWords_beforeRenaming vocabulary only).old word isMember
  exact ⟨resolved, (keepsWords_resolveStructures only).old word resolved⟩

/-- A control word without a meaning is still there when commands are renamed. -/
theorem mem_beforeRenaming_of_named?_eq_none (vocabulary : Vocabulary)
    (only : text.HasWordsOnly) {word : Text} (isMember : word ∈ text.words)
    (unknown : Command.named? word = none) :
    word ∈ (text.beforeRenaming vocabulary).words := by
  apply (keepsWords_beforeRenaming vocabulary only).kept word
  · apply (keepsWords_resolveStructures only).kept word isMember
    intro isName
    rw [named?_of_isName isName] at unknown
    cases unknown
  · exact fun isReplaced => (named?_of_isReplaced isReplaced).1 unknown

/-- In strict mode nothing is left exactly when all control words have a meaning and all
structures have been replaced. -/
theorem countP_isLeft_eq_zero_iff (only : text.HasWordsOnly) {options : Options}
    (isStrict : options.strict = true) :
    (text.beforeRenaming vocabulary).words.countP (Command.isLeft options) = 0 ↔
      text.HasNamedWords ∧ text.HasReadableStructures := by
  rw [List.countP_eq_zero]
  constructor
  · intro noneLeft
    constructor
    · intro word isMember unknown
      apply noneLeft word (mem_beforeRenaming_of_named?_eq_none vocabulary only isMember unknown)
      simp only [Command.isLeft, unknown, isStrict, Bool.true_or]
    · intro word isMember structural
      have stays : word ∈ (text.beforeRenaming vocabulary).words :=
        (keepsWords_beforeRenaming vocabulary only).kept word isMember fun isReplaced =>
          (named?_of_isReplaced isReplaced).2 structural
      apply noneLeft word stays
      simp only [Command.isLeft, structural, beq_self_eq_true]
  · rintro ⟨named, readable⟩ word isMember isLeft
    obtain ⟨inResolved, inText⟩ := mem_of_mem_beforeRenaming only isMember
    cases found : Command.named? word with
    | none => exact named word inText found
    | some command =>
        simp only [Command.isLeft, found, beq_iff_eq] at isLeft
        exact readable word inResolved (isLeft ▸ found)

/-- The two modes rename a text in the same way when it has no fused words. -/
theorem renameCommands_eq_of_modes (options : Options) (only : text.HasWordsOnly)
    (noFused : ¬ text.HasFusedWord) :
    text.renameCommands { options with strict := false } =
      text.renameCommands { options with strict := true } := by
  apply congrArg List.flatten
  apply List.map_congr_left
  rintro (name | c) isMember
  · have inWords := mem_words_of_mem_pieces only isMember
    simp only [Piece.rename, Command.rename]
    cases found : Command.named? name with
    | some command => cases command <;> rfl
    | none =>
        have unfused : Command.fused? name = none := by
          cases fused : Command.fused? name with
          | none => rfl
          | some parts => exact absurd ⟨name, inWords, found, by simp [fused]⟩ noFused
        simp only [unfused, ite_self]
  · rfl

/-- The modes differ on a fused word. -/
example :
    renameCommands ⟨true, .plus, .common⟩ "\\sinabs(x)".toList = "\\sinabs(x)".toList ∧
      renameCommands ⟨false, .plus, .common⟩ "\\sinabs(x)".toList = " sin abs(x)".toList := by
  decide +kernel

/-- Strict mode leaves more control words than the other mode when one of them is fused. -/
theorem countP_isLeft_lt (options : Options) {words : List Text} {fused : Text}
    (isMember : fused ∈ words) (unknown : Command.named? fused = none)
    (isFused : Command.fused? fused ≠ none) :
    words.countP (Command.isLeft { options with strict := false }) <
      words.countP (Command.isLeft { options with strict := true }) := by
  have weaker (word : Text) (isLeft : Command.isLeft { options with strict := false } word = true) :
      Command.isLeft { options with strict := true } word = true := by
    cases found : Command.named? word with
    | none => simp only [Command.isLeft, found, Bool.true_or]
    | some command =>
        simp only [Command.isLeft, found] at isLeft ⊢
        exact isLeft
  have split : Command.isLeft { options with strict := false } fused = false ∧
      Command.isLeft { options with strict := true } fused = true := by
    simp only [Command.isLeft, unknown, Bool.false_or, Bool.true_or, and_true]
    simpa [Option.isSome_iff_ne_none] using isFused
  induction words with
  | nil => cases isMember
  | cons word words ih =>
      rw [List.countP_cons, List.countP_cons]
      rcases List.mem_cons.1 isMember with rfl | later
      · have others := List.countP_mono_left (l := words) fun word _ => weaker word
        simp only [split, Bool.false_eq_true, if_false, if_true]
        omega
      · have fewer := ih later
        have first := weaker word
        cases lenient : Command.isLeft { options with strict := false } word with
        | true =>
            simp only [first lenient, if_true]
            omega
        | false =>
            simp only [Bool.false_eq_true, if_false]
            omega

end Text

namespace Translator

variable {translator : Translator} {formula : Text} {report : Report}

theorem length_warnings_reportDespite (translator : Translator) (accepted : IsAccepted formula) :
    (translator.reportDespite formula []).warnings.length =
      (formula.normal.beforeRenaming translator.vocabulary).words.countP
        (Command.isLeft translator.options) := by
  have only := Text.hasWordsOnly_normal_of_isAccepted accepted
  simp only [reportDespite, Report.ofSymbols, List.map_nil, List.nil_append, List.length_map,
    symbols, Text.normal_trim]
  exact Text.length_leftovers translator.vocabulary translator.options only

/-- A report in strict mode is without warnings exactly when, in the normal text, all control
words have a meaning and all commands for structures find their arguments. -/
theorem warnings_eq_nil_iff (isStrict : translator.options.strict = true)
    (reported : translator.report formula = .ok report) :
    report.warnings = [] ↔
      formula.normal.HasNamedWords ∧ formula.normal.HasReadableStructures := by
  obtain ⟨accepted, rfl⟩ := (report_eq_ok_iff isStrict).1 reported
  have only := Text.hasWordsOnly_normal_of_isAccepted accepted
  rw [← List.length_eq_zero_iff, length_warnings_reportDespite translator accepted,
    Text.countP_isLeft_eq_zero_iff only isStrict]

theorem eq_ok_of_toOption {result : Except Issue Report}
    (found : result.toOption = some report) : result = .ok report := by
  cases result with
  | error issue => cases found
  | ok _ => exact congrArg _ (Option.some.inj found)

theorem warnings_eq_nil_iff_of_sine :
    Translator.report {} "\\sin\\left(x\\right)".toList = .ok ⟨"sin(x)".toList, []⟩ ∧
      (([] : List Warning) = [] ↔
        Text.HasNamedWords (Text.normal "\\sin\\left(x\\right)".toList) ∧
          Text.HasReadableStructures (Text.normal "\\sin\\left(x\\right)".toList)) :=
  have reported : Translator.report {} "\\sin\\left(x\\right)".toList =
      .ok ⟨"sin(x)".toList, []⟩ :=
    eq_ok_of_toOption (by decide +kernel)
  ⟨reported, warnings_eq_nil_iff rfl reported⟩

/-- The bar after the command becomes `abs`, and the word `sinabs` has no meaning. -/
theorem warnings_ne_nil_on_sine_of_bars :
    ∃ report, Translator.report {} "\\sin\\left|x\\right|".toList = .ok report ∧
      report.warnings ≠ [] :=
  ⟨⟨"(x)".toList, [.removed "sinabs".toList]⟩, eq_ok_of_toOption (by decide +kernel), by simp⟩

/-- What strict mode accepts is accepted without it, and the two reports are the same exactly
when the normal text has no control word that fuses a command with the letters after it. -/
theorem exists_lenient_report (isStrict : translator.options.strict = true)
    (reported : translator.report formula = .ok report) :
    ∃ lenient,
      Translator.report { translator with options.strict := false } formula = .ok lenient ∧
        (lenient = report ↔ ¬ formula.normal.HasFusedWord) := by
  obtain ⟨accepted, rfl⟩ := (report_eq_ok_iff isStrict).1 reported
  have only := Text.hasWordsOnly_normal_of_isAccepted accepted
  have based := Text.hasWordsOnly_beforeRenaming translator.vocabulary only
  obtain ⟨⟨strict, plusMinus, logBase⟩, vocabulary⟩ := translator
  cases isStrict
  refine ⟨_, report_of_isAccepted rfl accepted, ?_, ?_⟩
  · rintro same ⟨word, isMember, unknown, isFused⟩
    have inBased :=
      Text.mem_beforeRenaming_of_named?_eq_none vocabulary only isMember unknown
    have fewer := Text.countP_isLeft_lt ⟨true, plusMinus, logBase⟩ inBased unknown isFused
    have counts := congrArg (·.warnings.length) same
    simp only [length_warnings_reportDespite _ accepted] at counts
    exact Nat.ne_of_lt fewer counts
  · intro noFused
    have stillNone : ¬ (formula.normal.beforeRenaming vocabulary).HasFusedWord := by
      rintro ⟨word, isMember, isFused⟩
      exact noFused ⟨word, (Text.mem_of_mem_beforeRenaming only isMember).2, isFused⟩
    have renamed := Text.renameCommands_eq_of_modes ⟨true, plusMinus, logBase⟩ based stillNone
    have linear : formula.normal.linear vocabulary ⟨false, plusMinus, logBase⟩ =
        formula.normal.linear vocabulary ⟨true, plusMinus, logBase⟩ :=
      congrArg (fun renamed => ((renamed.attachArguments vocabulary).expandParked.resolveExponents
        vocabulary).flatten) renamed
    simp only [reportDespite, symbols, Text.normal_trim, linear]

theorem exists_lenient_report_of_root :
    ∃ lenient, Translator.report ⟨.lenient, .standard⟩ "\\sqrt{2x}".toList = .ok lenient ∧
      (lenient = ⟨"(sqrt(2*x))".toList, []⟩ ↔
        ¬ Text.HasFusedWord (Text.normal "\\sqrt{2x}".toList)) :=
  have reported : Translator.report {} "\\sqrt{2x}".toList = .ok ⟨"(sqrt(2*x))".toList, []⟩ :=
    eq_ok_of_toOption (by decide +kernel)
  exists_lenient_report rfl reported

/-- Without strict mode the word `sinabs` is split, and the two expressions differ. -/
theorem modes_differ_on_sine_of_bars :
    ∃ strict lenient,
      Translator.report {} "\\sin\\left|x\\right|".toList = .ok strict ∧
        Translator.report ⟨.lenient, .standard⟩ "\\sin\\left|x\\right|".toList = .ok lenient ∧
          lenient.expression ≠ strict.expression :=
  ⟨⟨"(x)".toList, [.removed "sinabs".toList]⟩, ⟨"sin(abs(x))".toList, []⟩,
    eq_ok_of_toOption (by decide +kernel), eq_ok_of_toOption (by decide +kernel), by decide⟩

end Translator

end TexCalc
