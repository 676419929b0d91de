import TexCalc.Proofs.Linear.Steps
import TexCalc.Proofs.Vocabulary.Lookup
import TexCalc.Translator

/-!
# A vocabulary is its kinds

A translation asks its vocabulary three questions only: which entry, which constant and which
callable begins a text.  Vocabularies that answer them alike therefore give the same reports, and
those that give the same names the same kinds do answer them alike.
-/

namespace TexCalc

namespace Vocabulary.Agrees

variable {left right : Vocabulary} (agree : left.Agrees right)
include agree

/-! ## Operands -/

theorem afterLetters (text : Text) : text.afterLetters left = text.afterLetters right := by
  induction text with
  | nil => rfl
  | cons c rest ih => simp only [Text.afterLetters, agree.callableAt?, ih]

theorem afterLetterRun (text : Text) : text.afterLetterRun left = text.afterLetterRun right := by
  cases text with
  | nil => rfl
  | cons c rest => simp only [Text.afterLetterRun, agree.afterLetters]

theorem afterTouching (text : Text) : text.afterTouching left = text.afterTouching right := by
  simp only [Text.afterTouching, agree.constantAt?, agree.afterLetterRun]

theorem afterCoefficient (text : Text) :
    text.afterCoefficient left = text.afterCoefficient right := by
  simp only [Text.afterCoefficient, agree.constantAt?, agree.afterLetterRun]

theorem exponent? (text : Text) : text.exponent? left = text.exponent? right := by
  simp only [Text.exponent?, agree.constantAt?]

theorem afterExponent? (text : Text) : text.afterExponent? left = text.afterExponent? right := by
  simp only [Text.afterExponent?, agree.exponent?]

theorem afterAtom? (text : Text) : text.afterAtom? left = text.afterAtom? right := by
  simp only [Text.afterAtom?, agree.constantAt?, agree.callableAt?, agree.exponent?]

theorem afterBareArgument? (text : Text) :
    text.afterBareArgument? left = text.afterBareArgument? right := by
  fun_induction Text.afterBareArgument? left text with
  | case3 text c rest start noBracket sign ih =>
      rw [Text.afterBareArgument?_eq right text]
      simp only [start, noBracket, sign, if_true, ih]
  | case9 text rest control isControl command isCommand other takes operand isOperand start
      noBracket noSign noDigit noLetter ih =>
      rw [agree.afterExponent?] at isOperand
      rw [Text.afterBareArgument?_eq right text, ih]
      simp_all
  | _ =>
      rw [Text.afterBareArgument?_eq right]
      simp_all [agree.afterCoefficient, agree.afterLetterRun, agree.afterExponent?]

theorem bareArgument? (text : Text) : text.bareArgument? left = text.bareArgument? right := by
  simp only [Text.bareArgument?, agree.afterBareArgument?]

/-! ## Steps -/

theorem resolveInverses (text : Text) :
    text.resolveInverses left = text.resolveInverses right := by
  fun_induction Text.resolveInverses left text with
  | case1 => rw [Text.resolveInverses]
  | case2 c rest noMark ih => simp only [Text.resolveInverses_eq right c, noMark, ih]
  | case3 c rest mark isMark argument isArgument ih =>
      rw [agree.bareArgument?] at isArgument
      simp only [Text.resolveInverses_eq right c, isMark, isArgument, ih]
  | case4 c rest mark isMark noArgument ih =>
      rw [agree.bareArgument?] at noArgument
      simp only [Text.resolveInverses_eq right c, isMark, noArgument, ih]

theorem resolveLogBases (text : Text) :
    text.resolveLogBases left = text.resolveLogBases right := by
  fun_induction Text.resolveLogBases left text with
  | case1 => rw [Text.resolveLogBases]
  | case2 c rest noMark ih => simp only [Text.resolveLogBases_eq right c, noMark, ih]
  | case3 c rest base isBase argument isArgument ih =>
      rw [agree.bareArgument?] at isArgument
      simp only [Text.resolveLogBases_eq right c, isBase, isArgument, ih]
  | case4 c rest base isBase noArgument ih =>
      rw [agree.bareArgument?] at noArgument
      simp only [Text.resolveLogBases_eq right c, isBase, noArgument, ih]

theorem read? (function? : Option Callable) (text : Text) :
    Application.read? left function? text = Application.read? right function? text := by
  fun_induction Application.read? left function? text with
  | case1 | case2 | case3 | case4 | case5 | case6 =>
      rw [Application.read?_function_eq right]
      simp_all [agree.exponent?, agree.callableAt?, agree.afterTouching]
  | _ =>
      rw [Application.read?_operand_eq right]
      simp_all [agree.callableAt?, agree.afterCoefficient, agree.afterAtom?]

theorem callable? (insideWord : Bool) (text : Text) :
    text.callable? left insideWord = text.callable? right insideWord := by
  rw [Text.callable?, Text.callable?, agree.callableAt?]

theorem completeCalls (insideWord : Bool) (text : Text) :
    text.completeCalls left insideWord = text.completeCalls right insideWord := by
  fun_induction Text.completeCalls left insideWord text with
  | case1 => rw [Text.completeCalls]
  | case2 insideWord c rest noCallable ih =>
      have noCallable : Text.callable? left insideWord (c :: rest) = none := noCallable
      rw [agree.callable?] at noCallable
      simp only [Text.completeCalls_eq right, noCallable, ih]
  | case3 insideWord c rest function after found noArgument ih =>
      have found : Text.callable? left insideWord (c :: rest) = some (function, after) := found
      rw [agree.callable?] at found
      rw [agree.read?] at noArgument
      simp only [Text.completeCalls_eq right, found, noArgument, ih]
  | case4 insideWord c rest function after found application isRead core ihCore ihRest =>
      have found : Text.callable? left insideWord (c :: rest) = some (function, after) := found
      rw [agree.callable?] at found
      rw [agree.read?] at isRead
      simp only [Text.completeCalls_eq right, found, isRead, core, ihCore, ihRest, dite_eq_ite]

theorem attachArguments (text : Text) :
    text.attachArguments left = text.attachArguments right :=
  agree.completeCalls false text

theorem resolveExponents (text : Text) :
    text.resolveExponents left = text.resolveExponents right := by
  fun_induction Text.resolveExponents left text with
  | case1 text base rest => simp only [Text.resolveExponents_eq right text, rest, base]
  | case2 text base c rest shape script isScript raised exponent found ih =>
      simp only [raised, ih, agree.exponent?, base, dite_eq_ite] at found
      simp only [Text.resolveExponents_eq right text, shape, isScript, found, base]
  | case3 text base c rest shape script isScript raised gap found ih =>
      simp only [raised, ih, agree.exponent?, base, dite_eq_ite] at found
      simp only [Text.resolveExponents_eq right text, shape, isScript, found, raised, ih, base, gap]
  | case4 text base c rest shape noScript ih =>
      rw [Text.resolveExponents_eq right text, shape]
      simp only [base, ih]

theorem linear (options : Options) (text : Text) :
    text.linear left options = text.linear right options := by
  simp only [Text.linear, agree.resolveInverses, agree.resolveLogBases, agree.attachArguments,
    agree.resolveExponents]

theorem symbols (text : Text) : text.symbols left = text.symbols right := by
  fun_induction Text.symbols left text with
  | case1 => rw [Text.symbols]
  | _ =>
      rw [Text.symbols_eq right]
      simp_all [agree.entryAt?]

theorem classify (text : Text) : text.classify left = text.classify right := by
  rw [Text.classify, Text.classify, agree.symbols]

/-! ## Reports -/

/-- Vocabularies that find the same give the same reports. -/
theorem report (options : Options) (formula : Text) :
    Translator.report ⟨options, left⟩ formula = Translator.report ⟨options, right⟩ formula := by
  simp only [Translator.report, Translator.reportDespite, Translator.symbols, agree.linear,
    agree.classify]

end Vocabulary.Agrees

namespace Translator

/-- A report depends on the vocabulary as a map from names to kinds, whatever the order in which
the names were entered and however often. -/
theorem report_eq_of_kindOf? {left right : List (Text × NameKind)}
    (same : ∀ spelling, (Vocabulary.empty.enterAll left).kindOf? spelling =
      (Vocabulary.empty.enterAll right).kindOf? spelling) (options : Options) (formula : Text) :
    report ⟨options, Vocabulary.empty.enterAll left⟩ formula =
      report ⟨options, Vocabulary.empty.enterAll right⟩ formula := by
  have agree : (Vocabulary.empty.enterAll left).Agrees (Vocabulary.empty.enterAll right) :=
    Vocabulary.agrees_of_kindOf? (Vocabulary.isOrdered_empty.enterAll left)
      (Vocabulary.isOrdered_empty.enterAll right) same
  exact agree.report options formula

/-- Names of equal length change places when one of them is entered again. -/
theorem report_eq_of_reentered :
    let once : List (Text × NameKind) := [("foo".toList, .function), ("bar".toList, .constant)]
    let again := ("foo".toList, .constant) :: once.reverse ++ [("bar".toList, .constant)]
    (∀ spelling, (Vocabulary.empty.enterAll once).kindOf? spelling =
        (Vocabulary.empty.enterAll again).kindOf? spelling) ∧
      report ⟨.standard, Vocabulary.empty.enterAll once⟩ "foo bar".toList =
        report ⟨.standard, Vocabulary.empty.enterAll again⟩ "foo bar".toList := by
  intro once again
  have isFoo : Text.isName ['f', 'o', 'o'] = true := rfl
  have isBar : Text.isName ['b', 'a', 'r'] = true := rfl
  have same (spelling : Text) : (Vocabulary.empty.enterAll once).kindOf? spelling =
      (Vocabulary.empty.enterAll again).kindOf? spelling := by
    simp only [once, again, Vocabulary.enterAll, List.reverse_cons, List.reverse_nil,
      List.nil_append, List.cons_append, List.foldl_cons, List.foldl_nil,
      Vocabulary.kindOf?_enter]
    by_cases foo : spelling = ['f', 'o', 'o']
    · simp [foo, isFoo]
    · by_cases bar : spelling = ['b', 'a', 'r']
      · simp [bar, isBar]
      · simp [foo, bar]
  exact ⟨same, report_eq_of_kindOf? same .standard _⟩

end Translator

end TexCalc
