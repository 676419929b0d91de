import TexCalc.Proofs.Alphabet.Expression
import TexCalc.Proofs.Residue.Completed
import TexCalc.Proofs.Residue.Replaced
import TexCalc.Proofs.Tex.Lexemes
import TexCalc.Tex.Normal

/-!
# Expressions without residue

Normal text has residue only as the names of control symbols, and so has the text on one line.
There a control symbol is left over and removed, and blanks, backslashes and brackets other than
parentheses are gone as well.  That holds for every formula that has a report at all, whatever is
wrong with it.
-/

namespace TexCalc

open Text (Conceals CutsOpenly hidesNext)

/-! ## Normal text -/

namespace Token

/-- Unless it is a bar, the token hides its own residue and nothing behind it. -/
def IsContained (token : Token) : Prop :=
  token ≠ .char '|' → Conceals false token.normal ∧ hidesNext false token.normal = false

theorem isContained_of_clean {token : Token} (clean : token.normal.all isClean = true) :
    token.IsContained :=
  fun _ => ⟨.of_clean clean, Text.hidesNext_of_clean clean⟩

theorem isContained_control {name : Text} (isName : Command.IsNameOfControl name) :
    (control name).IsContained := by
  intro _
  rw [normal_control]
  split
  · exact ⟨.of_clean rfl, rfl⟩
  · split
    · exact ⟨.of_clean rfl, rfl⟩
    · split
      · exact ⟨.of_clean rfl, rfl⟩
      · exact Command.conceals_source isName

theorem isContained_char {c : Char} (plain : c ≠ '\\') (other : c ∉ ['$', '%', '~']) :
    (char c).IsContained := by
  intro noBar
  have clean : isClean c = true := by
    refine isClean_of_ne ?_ plain
    have bar : c ≠ '|' := by simpa using noBar
    simp only [List.mem_cons, List.not_mem_nil, or_false, not_or] at other
    simp [isResidue, other, bar]
  have written : (char c).normal = if c = Parked.mark then [] else [c] := rfl
  have cleanText : (char c).normal.all isClean = true := by
    rw [written]
    split
    · rfl
    · exact List.all_eq_true.2 fun d isMember => List.mem_singleton.1 isMember ▸ clean
  exact isContained_of_clean cleanText noBar

/-- What is read from a formula contains its residue, but for a backslash that ends the formula. -/
theorem isContained_read (c : Char) (rest : Text) :
    (read c rest).token.IsContained ∨
      (read c rest).token = .char '\\' ∧ (read c rest).rest = [] := by
  fun_cases read c rest with
  | case1 found isFound => exact .inl (isContained_control (Command.isNameOfControl isFound))
  | case2 isNone => exact .inr ⟨rfl, Control.read?_eq_none_iff.1 isNone⟩
  | case11 =>
      rename_i back percent _ _ dollar _ _ tie _
      have other : c ∉ ['$', '%', '~'] := by
        simp only [List.mem_cons, List.not_mem_nil, or_false, not_or]
        exact ⟨dollar, percent, tie⟩
      exact .inl (isContained_char back other)
  | _ => exact .inl (isContained_of_clean rfl)

end Token

namespace Text

variable {text : Text}

/-- Only a backslash that ends a list of tokens hides anything behind it. -/
def AreContained (tokens : List Token) : Prop :=
  ∀ token later, token :: later <:+ tokens →
    token.IsContained ∨ token = .char '\\' ∧ later = []

theorem AreContained.of_suffix {tokens later : List Token} (contained : AreContained tokens)
    (ending : later <:+ tokens) : AreContained later :=
  fun token behind isEnding => contained token behind (isEnding.trans ending)

theorem areContained_lexemesFrom (offset : Nat) (text : Text) :
    AreContained ((text.lexemesFrom offset).map Lexeme.token) := by
  intro token later ending
  refine forall_suffix_lexemesFrom (motive := fun token later =>
    token.IsContained ∨ token = .char '\\' ∧ later = []) (fun c rest => ?_) offset text ending
  refine (Token.isContained_read c rest).imp_right fun isBackslash => ⟨isBackslash.1, ?_⟩
  rw [isBackslash.2, lexemes, lexemesFrom, List.map_nil]

theorem clean_side (side : Side) (delimiter : Char) :
    (side.normal delimiter).all isClean = true := by
  fun_cases Side.normal side delimiter <;> decide

theorem conceals_ofTokens {tokens : List Token} (contained : AreContained tokens)
    (isOpen : Bool) : Conceals false (ofTokens isOpen tokens) := by
  fun_induction ofTokens isOpen tokens with
  | case1 => trivial
  | case2 isOpen token rest side _ next later after delimiter _ ih =>
      have ending : later <:+ token :: rest := by
        have behind : next :: later <:+ rest := after ▸ List.dropWhile_suffix Token.isBlank
        exact ((List.suffix_cons next later).trans behind).trans (List.suffix_cons token rest)
      exact .clean_append (clean_side side delimiter) (ih (contained.of_suffix ending))
  | case3 _ token rest | case4 _ token rest =>
      rename_i ih
      exact ih (contained.of_suffix (List.suffix_cons token rest))
  | case5 isOpen rest _ ih =>
      have clean : List.all (if isOpen then "))".toList else "(abs(".toList) isClean = true := by
        cases isOpen <;> decide
      exact .clean_append clean (ih (contained.of_suffix (List.suffix_cons _ rest)))
  | case6 isOpen token rest _ noBar ih =>
      have later := ih (contained.of_suffix (List.suffix_cons token rest))
      rcases contained token rest (List.suffix_refl _) with isContained | ⟨rfl, rfl⟩
      · obtain ⟨first, opens⟩ := isContained noBar
        refine first.append ?_
        rw [opens]
        exact later
      · rw [ofTokens]
        exact ⟨fun residue => absurd residue (by decide), trivial⟩

theorem conceals_normal (text : Text) : Conceals false text.normal :=
  conceals_ofTokens (areContained_lexemesFrom 0 text.trim) false

/-- On one line every residue is still the name of a control symbol. -/
theorem conceals_linear (vocabulary : Vocabulary) (options : Options)
    (conceals : Conceals false text) : Conceals false (text.linear vocabulary options) := by
  have resolved := conceals_resolveStructures conceals
  have based :=
    conceals_resolveLogBases vocabulary (conceals_resolveInverses vocabulary resolved)
  have called := conceals_attachArguments vocabulary (conceals_renameCommands options based)
  exact conceals_flatten (conceals_resolveExponents vocabulary (conceals_expandParked called))

/-! ## Symbols -/

/-- A printed character is no residue, since control sequences are removed. -/
theorem isResidue_eq_false_of_mem_printed {vocabulary : Vocabulary} {d : Char}
    (conceals : Conceals false text)
    (isMember : d ∈ ofSymbols (Symbol.printed (text.symbols vocabulary))) :
    isResidue d = false := by
  have ofAll {accept : Char → Bool} (clean : ∀ c, accept c = true → isClean c = true) {run : Text}
      (all : run.all accept = true) (isMember : d ∈ run) : isResidue d = false :=
    isResidue_eq_false (clean d (List.all_eq_true.1 all d isMember))
  have numeral (c : Char) (isNumeral : isNumeralChar c = true) : isClean c = true :=
    isClean_of_accept rfl isNumeral
  fun_induction symbols vocabulary text with
  | case1 => cases isMember
  | case2 c rest begins ih =>
      rw [Symbol.ofSymbols_printed_cons rfl, List.mem_append] at isMember
      have first := isNumeralChar_of_mem begins List.mem_cons_self
      have plain := ne_backslash_of_isClean (numeral c first)
      rcases isMember with here | later
      · exact isResidue_eq_false (numeral d (isNumeralChar_of_mem begins here))
      · exact ih ((conceals.tail plain).dropWhile (by decide)) later
  | case3 c rest _ _ entry after found ih =>
      rw [Symbol.ofSymbols_printed_cons (Symbol.leftover?_ofEntry entry), Symbol.print_ofEntry,
        List.mem_append] at isMember
      rw [Vocabulary.eq_of_entryAt? found] at conceals
      rcases isMember with here | later
      · exact ofAll (fun _ => isClean_of_isAlphanum) entry.name.all_isAlphanum here
      · exact ih ((Callable.function entry.name).conceals_of_append conceals) later
  | case4 c rest _ letter _ ih =>
      rw [Symbol.ofSymbols_printed_cons rfl, List.mem_append] at isMember
      have clean : isClean c = true := isClean_of_accept (by decide +kernel) letter
      rcases isMember with here | later
      · rw [List.mem_singleton.1 here, isResidue_eq_false clean]
      · exact ih (conceals.tail (ne_backslash_of_isClean clean)) later
  | case5 rest control found _ _ ih =>
      rw [Symbol.printed_leftover_cons] at isMember
      exact ih ((CutsOpenly.of_control found).conceals conceals).2 isMember
  | case6 => cases isMember
  | case7 c rest _ _ _ blank ih =>
      exact ih (conceals.tail (ne_backslash_of_isClean (isClean_of_isBlank blank))) isMember
  | case8 c rest _ _ other _ ih =>
      rw [Symbol.ofSymbols_printed_cons (Symbol.leftover?_ofPunctuation c),
        Symbol.print_ofPunctuation, List.mem_append] at isMember
      rcases isMember with here | later
      · rw [List.mem_singleton.1 here]
        cases residue : isResidue c with
        | false => rfl
        | true => cases conceals.1 residue
      · exact ih (conceals.tail other) later

end Text

namespace Translator

variable {translator : Translator} {formula : Text} {report : Report} {c : Char}

/-- Without strict mode every formula has a report. -/
theorem report_eq_ok_of_lenient (translator : Translator)
    (isLenient : translator.options.strict = false) (formula : Text) :
    translator.report formula = .ok (translator.reportDespite formula (issues formula)) := by
  rw [Translator.report, isLenient]
  rfl

/-- In both modes the expression is printed from the symbols of the trimmed formula. -/
theorem expression_eq (reported : translator.report formula = .ok report) :
    report.expression = Text.ofSymbols (Symbol.finished (translator.symbols formula.trim)) := by
  simp only [Translator.report] at reported
  split at reported
  · split at reported
    · cases reported
    · cases reported
      rfl
  · cases reported
    rfl

/-- What is printed stands on one line, and it is no blank, no backslash and no residue. -/
theorem mem_linear_of_mem_expression (reported : translator.report formula = .ok report)
    (isMember : c ∈ report.expression) :
    c = '*' ∨ c ∈ formula.normal.linear translator.vocabulary translator.options ∧
      isBlank c = false ∧ c ≠ '\\' ∧ isResidue c = false := by
  have printed : Symbol.finished (translator.symbols formula.trim) =
      Symbol.printed (Symbol.multiplyAfter Symbol.isJuxtaposed none
        (Symbol.printed (translator.symbols formula.trim))) :=
    (Symbol.printed_multiplyAfter_printed _ _ _).symm
  rw [expression_eq reported, printed] at isMember
  rcases Symbol.mem_printed_multiplyAfter isMember with sign | isMember
  · exact .inl sign
  rw [Symbol.printed_printed] at isMember
  rcases Symbol.mem_printed_multiplyAfter isMember with sign | isMember
  · exact .inl sign
  right
  rw [Text.normal_trim] at isMember
  have hidden := Text.conceals_linear translator.vocabulary translator.options
    (Text.conceals_normal formula)
  obtain ⟨inText, visible, other⟩ := Text.mem_of_mem_printed isMember
  exact ⟨inText, visible, other, Text.isResidue_eq_false_of_mem_printed hidden isMember⟩

/-- An expression has no blanks, no backslashes, no brackets other than parentheses and no dollar
or percent signs, ties or bars: whatever the formula, with any vocabulary and in both modes. -/
theorem forall_mem_expression_not_residue (reported : translator.report formula = .ok report) :
    ∀ c ∈ report.expression,
      isBlank c = false ∧ c ∉ ['\\', '\x7b', '\x7d', '[', ']', '$', '%', '~', '|'] := by
  intro c isMember
  rcases mem_linear_of_mem_expression reported isMember with rfl | ⟨inText, visible, other, clean⟩
  · decide
  · have noBracket := Text.isFlattened_of_mem_flatten inText
    refine ⟨visible, ?_⟩
    simp only [Text.isFlattened, isResidue, decide_eq_false_iff_not, List.mem_cons,
      List.not_mem_nil, or_false, not_or] at noBracket clean ⊢
    obtain ⟨square, squareEnd, curly, curlyEnd⟩ := noBracket
    exact ⟨other, curly, curlyEnd, square, squareEnd, clean⟩

/-- Without strict mode every one of these characters may be in the formula. -/
theorem forall_mem_expression_of_lenient :
    ∃ report, Translator.report ⟨.lenient, .standard⟩
        "[\\$|2x|]\\|$~3% y\n\\ \t\x7bz\x7d\\".toList = .ok report ∧
      report.expression ≠ [] ∧ ∀ c ∈ report.expression,
        isBlank c = false ∧ c ∉ ['\\', '\x7b', '\x7d', '[', ']', '$', '%', '~', '|'] := by
  have reported := report_eq_ok_of_lenient ⟨.lenient, .standard⟩ rfl
    "[\\$|2x|]\\|$~3% y\n\\ \t\x7bz\x7d\\".toList
  exact ⟨_, reported, by decide +kernel, forall_mem_expression_not_residue reported⟩

end Translator

end TexCalc
