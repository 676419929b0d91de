import TexCalc.Proofs.Bracketed.Accepted
import TexCalc.Proofs.Bracketed.Symbols
import TexCalc.Proofs.Constants.Untorn
import TexCalc.Proofs.Symbol.Neighbours
import TexCalc.Proofs.Vocabulary.Standard

/-!
# Canonical text

Canonical text is text of the target language that says everything: products have their signs and
arguments their parentheses, and there are neither blanks nor powers.  It is a formula as well, in
which no issue is found and which is its own normal text.

Functions are looked for at every character, and product signs put between neighbours that lack
one.  In canonical text all functions have their arguments and all neighbours their signs, so that
a translation is the formula itself.
-/

namespace TexCalc

/-- The characters of canonical text. -/
def isCanonicalChar (c : Char) : Bool :=
  isBaseChar c || c ∈ ['(', ')', '+', '-', '*', '/']

theorem isBaseChar_or_mem_of_isCanonicalChar {c : Char} (canonical : isCanonicalChar c = true) :
    isBaseChar c = true ∨ c ∈ ['(', ')', '+', '-', '*', '/'] := by
  simpa only [isCanonicalChar, Bool.or_eq_true, decide_eq_true_eq] using canonical

theorem ne_of_isCanonicalChar {c other : Char} (canonical : isCanonicalChar c = true)
    (excluded : isCanonicalChar other = false) : c ≠ other := by
  rintro rfl
  rw [canonical] at excluded
  cases excluded

/-- A character of canonical text is a token by itself. -/
theorem Token.isSingle_of_isCanonicalChar {c : Char} (canonical : isCanonicalChar c = true) :
    Token.isSingle c = true := by
  rcases isBaseChar_or_mem_of_isCanonicalChar canonical with base | isSign
  · simp only [isBaseChar, Bool.or_eq_true, beq_iff_eq] at base
    rcases base with word | rfl
    · exact Token.isSingle_of_isAlphanum word
    · decide
  · simp only [List.mem_cons, List.not_mem_nil, or_false] at isSign
    rcases isSign with rfl | rfl | rfl | rfl | rfl | rfl <;> decide

theorem isBlank_eq_false_of_isCanonicalChar {c : Char} (canonical : isCanonicalChar c = true) :
    isBlank c = false := by
  have single := Token.isSingle_of_isCanonicalChar canonical
  rw [Token.isSingle, Bool.and_eq_true, Bool.not_eq_true'] at single
  exact single.1

theorem Vocabulary.all_isAlphanum_of_mem_functionNames {name : Text}
    (isFunction : name ∈ functionNames) : name.all Char.isAlphanum = true := by
  have all : ∀ name ∈ functionNames, name.all Char.isAlphanum = true := by decide
  exact all name isFunction

namespace Text

/-- Canonical text: numerals, letters, constants and calls of functions, put together with
operators, signs and parentheses. -/
inductive IsCanonical : Text → Prop where
  /-- Digits and points.  One point among the digits makes a decimal numeral, and a numeral is read
  on over further ones. -/
  | numeral {c : Char} {run : Text} (begins : beginsNumeral c run = true)
      (all : run.all isNumeralChar = true) : IsCanonical (c :: run)
  | letter {c : Char} (isAlpha : c.isAlpha = true) : IsCanonical [c]
  | constant {name : Text} (isName : name ∈ constantNames) : IsCanonical name
  | call {name argument : Text} (isFunction : name ∈ Vocabulary.functionNames)
      (canonical : IsCanonical argument) : IsCanonical (name ++ argument.parenthesized)
  | binary {c : Char} {left right : Text} (isOperator : c ∈ ['+', '-', '*', '/'])
      (first : IsCanonical left) (second : IsCanonical right) : IsCanonical (left ++ c :: right)
  | negative {text : Text} (canonical : IsCanonical text) : IsCanonical ('-' :: text)
  | parenthesized {text : Text} (canonical : IsCanonical text) : IsCanonical text.parenthesized

namespace IsCanonical

variable {text rest : Text}

theorem all_isNumeralChar {c : Char} {run : Text} (begins : beginsNumeral c run = true)
    (all : run.all isNumeralChar = true) : (c :: run).all isNumeralChar = true := by
  rw [List.all_cons, isNumeralChar_of_beginsNumeral begins, all, Bool.and_self]

theorem all_isBaseChar_numeral {c : Char} {run : Text} (begins : beginsNumeral c run = true)
    (all : run.all isNumeralChar = true) : (c :: run).all isBaseChar = true :=
  List.all_eq_true.2 fun d isMember => isBaseChar_of_isNumeralChar d
    (List.all_eq_true.1 (all_isNumeralChar begins all) d isMember)

theorem all_isCanonicalChar (canonical : text.IsCanonical) :
    text.all isCanonicalChar = true := by
  have word {name : Text} (all : name.all isBaseChar = true) :
      name.all isCanonicalChar = true := by
    refine List.all_eq_true.2 fun c isMember => ?_
    rw [isCanonicalChar, List.all_eq_true.1 all c isMember, Bool.true_or]
  have group {text : Text} (all : text.all isCanonicalChar = true) :
      text.parenthesized.all isCanonicalChar = true := by
    simp [Text.parenthesized, all, isCanonicalChar]
  induction canonical with
  | numeral begins all => exact word (all_isBaseChar_numeral begins all)
  | @letter c isAlpha => exact word (by simp [isBaseChar_of_isAlpha c isAlpha])
  | constant isName => exact word (all_isBaseChar (isAlphanum_of_mem_constantNames isName))
  | call isFunction _ ih =>
      rw [List.all_append, group ih,
        word (all_isBaseChar (Vocabulary.all_isAlphanum_of_mem_functionNames isFunction)),
        Bool.and_self]
  | @binary c _ _ isOperator _ _ ihLeft ihRight =>
      have isSign : isCanonicalChar c = true := by
        simp only [List.mem_cons, List.not_mem_nil, or_false] at isOperator
        rcases isOperator with rfl | rfl | rfl | rfl <;> rfl
      rw [List.all_append, List.all_cons, ihLeft, ihRight, isSign]
      rfl
  | negative _ ih =>
      rw [List.all_cons, ih]
      rfl
  | parenthesized _ ih => exact group ih

theorem not_mem (canonical : text.IsCanonical) {c : Char}
    (excluded : isCanonicalChar c = false) : c ∉ text := fun isMember =>
  ne_of_isCanonicalChar (List.all_eq_true.1 canonical.all_isCanonicalChar c isMember) excluded rfl

theorem ne_nil (canonical : text.IsCanonical) : text ≠ [] := by
  cases canonical with
  | constant isName =>
      rintro rfl
      revert isName
      decide
  | _ => simp [Text.parenthesized]

/-- Canonical text has no blank that could be trimmed. -/
theorem isTight (canonical : text.IsCanonical) : text.IsTight := by
  refine .of_visible canonical.ne_nil (List.all_eq_true.2 fun c isMember => ?_)
  rw [isBlank_eq_false_of_isCanonicalChar
    (List.all_eq_true.1 canonical.all_isCanonicalChar c isMember)]
  rfl

/-! ## No issues -/

/-- In front of a text without faults canonical text has no faults. -/
theorem isFaultless_append (canonical : text.IsCanonical) {opened : List Delimiter}
    {previous? : Option Token} (later : ∀ last : Token, IsFaultless opened (some last) rest) :
    IsFaultless opened previous? (text ++ rest) := by
  have chars {opened : List Delimiter} {previous? : Option Token} {name rest : Text}
      (all : name.all isBaseChar = true) (nonempty : name ≠ [])
      (later : ∀ last : Token, IsFaultless opened (some last) rest) :
      IsFaultless opened previous? (name ++ rest) := by
    refine .chars (List.all_eq_true.2 fun c isMember => ?_) nonempty later
    have base := List.all_eq_true.1 all c isMember
    simp only [isBaseChar, Bool.or_eq_true, beq_iff_eq] at base
    rcases base with word | rfl
    · simp [Token.isOrdinary, word]
    · decide
  induction canonical generalizing opened previous? rest with
  | numeral begins all => exact chars (all_isBaseChar_numeral begins all) (by simp) later
  | @letter c isAlpha => exact chars (by simp [isBaseChar_of_isAlpha c isAlpha]) (by simp) later
  | constant isName =>
      exact chars (all_isBaseChar (isAlphanum_of_mem_constantNames isName))
        (IsCanonical.constant isName).ne_nil later
  | @call name argument isFunction _ ih =>
      have nonempty : ∀ name ∈ Vocabulary.functionNames, name ≠ [] := by decide
      have letters := all_isBaseChar (Vocabulary.all_isAlphanum_of_mem_functionNames isFunction)
      rw [List.append_assoc]
      refine chars letters (nonempty name isFunction) fun last => ?_
      exact .parenthesized (ih fun _ => .closing .round (later _))
  | @binary c _ _ isOperator _ _ ihLeft ihRight =>
      have ordinary : Token.isOrdinary c = true := by
        simp only [List.mem_cons, List.not_mem_nil, or_false] at isOperator
        rcases isOperator with rfl | rfl | rfl | rfl <;> rfl
      rw [List.append_assoc]
      exact ihLeft fun _ => .char ordinary (ihRight later)
  | negative _ ih => exact .char rfl (ih later)
  | parenthesized _ ih => exact .parenthesized (ih fun _ => .closing .round (later _))

theorem isAccepted (canonical : text.IsCanonical) : Translator.IsAccepted text := by
  have faultless : IsFaultless [] none (text ++ []) :=
    canonical.isFaultless_append fun _ => .nil
  rw [List.append_nil] at faultless
  rw [Translator.IsAccepted, Translator.issues, canonical.isTight.trim,
    issues_eq_nil_of_isFaultless faultless]
  rfl

/-! ## The normal text -/

theorem normalized_of_all (all : text.all isCanonicalChar = true) : text.normalized = text := by
  induction text with
  | nil => exact normalized_nil
  | cons c text ih =>
      rw [List.all_cons, Bool.and_eq_true] at all
      rw [normalized_cons (Token.isSingle_of_isCanonicalChar all.1)
        (ne_of_isCanonicalChar all.1 (by decide)) (ne_of_isCanonicalChar all.1 (by decide)),
        ih all.2]

theorem normal_eq (canonical : text.IsCanonical) : text.normal = text := by
  rw [normal_eq_normalized canonical.isTight.trim, normalized_of_all canonical.all_isCanonicalChar]

end IsCanonical

end Text

namespace Text

variable {text left right : Text} {symbols left' right' : List Symbol}

/-! ## Calls that are complete already -/

theorem completeCalls_function {name : Text} (isFunction : name ∈ Vocabulary.functionNames)
    (rest : Text) :
    completeCalls .standard false (name ++ '(' :: rest) =
      name ++ completeCalls .standard false ('(' :: rest) := by
  obtain ⟨callable, found, rfl⟩ : ∃ callable, Vocabulary.standard.callableAt?
      (name ++ '(' :: rest) = some (callable, '(' :: rest) ∧ callable.text = name := by
    simp only [Vocabulary.functionNames, List.mem_cons, List.not_mem_nil, or_false] at isFunction
    rcases isFunction with rfl | rfl | rfl | rfl | rfl | rfl | rfl | rfl | rfl | rfl | rfl <;>
      exact Vocabulary.exists_callableAt?_eq rfl
  exact completeCalls_group found rfl

theorem completeCalls_sign {c : Char} (isSign : c ∈ ['(', ')', '+', '-', '*', '/']) (rest : Text) :
    completeCalls .standard false (c :: rest) = c :: completeCalls .standard false rest := by
  obtain ⟨noLetter, plain, noMark⟩ : c.isAlpha = false ∧ c ≠ '\\' ∧ c ≠ Parked.mark := by
    simp only [List.mem_cons, List.not_mem_nil, or_false] at isSign
    rcases isSign with rfl | rfl | rfl | rfl | rfl | rfl <;> decide
  exact completeCalls_plain plain (Vocabulary.standard.callableAt?_eq_none noLetter noMark rest)

namespace IsCanonical

/-- No function in canonical text asks for an argument. -/
theorem completeCalls_append (canonical : text.IsCanonical) {rest : Text}
    (ends : rest.endsRun isBaseChar = true) :
    completeCalls .standard false (text ++ rest) =
      text ++ completeCalls .standard false rest := by
  induction canonical generalizing rest with
  | numeral begins all =>
      refine Text.completeCalls_append (fun c isMember => ?_) rest
      have numeral := List.all_eq_true.1 (all_isNumeralChar begins all) c isMember
      simp only [isNumeralChar, Bool.or_eq_true, beq_iff_eq] at numeral
      rcases numeral with digit | rfl
      · have word : c.isAlphanum = true := by simp [Char.isAlphanum, digit]
        exact ⟨isAlpha_eq_false_of_isDigit digit, ne_of_isAlphanum word (by decide),
          ne_of_isAlphanum word (by decide)⟩
      · decide
  | letter isAlpha =>
      exact completeCalls_plain (ne_backslash_of_isAlpha isAlpha)
        (Vocabulary.callableAt?_single (Parked.ne_mark_of_isAlpha isAlpha)
          (endsRun_mono ends isBaseChar_of_isAlpha))
  | constant isName =>
      exact Vocabulary.keepsConstants_standard.completeCalls_name isName List.infix_rfl
        (endsRun_mono ends isBaseChar_of_isAlphanum)
  | call isFunction _ ih =>
      rw [List.append_assoc, parenthesized_append, completeCalls_function isFunction,
        completeCalls_sign (by decide), ih rfl, completeCalls_sign (by decide), List.append_assoc,
        parenthesized_append]
  | @binary c _ _ isOperator _ _ ihLeft ihRight =>
      obtain ⟨isSign, other⟩ : c ∈ ['(', ')', '+', '-', '*', '/'] ∧ isBaseChar c = false := by
        simp only [List.mem_cons, List.not_mem_nil, or_false] at isOperator
        rcases isOperator with rfl | rfl | rfl | rfl <;> decide
      rw [List.append_assoc, List.cons_append, ihLeft (by simp [endsRun, other]),
        completeCalls_sign isSign, ihRight ends, List.append_assoc, List.cons_append]
  | negative _ ih =>
      rw [List.cons_append, completeCalls_sign (by decide), ih ends, List.cons_append]
  | parenthesized _ ih =>
      rw [parenthesized_append, completeCalls_sign (by decide), ih rfl,
        completeCalls_sign (by decide), parenthesized_append]

theorem completeCalls_eq (canonical : text.IsCanonical) :
    text.completeCalls .standard false = text := by
  have whole : completeCalls .standard false (text ++ []) =
      text ++ completeCalls .standard false [] := canonical.completeCalls_append rfl
  rwa [completeCalls, List.append_nil] at whole

/-- On one line canonical text is what it was. -/
theorem linear_normal (canonical : text.IsCanonical) (options : Options) :
    text.normal.linear .standard options = text.flatten := by
  rw [canonical.normal_eq, linear_of_not_mem options (canonical.not_mem (by decide))
    canonical.completeCalls_eq (canonical.not_mem (by decide)),
    resolveExponents_of_not_mem (canonical.not_mem (by decide))]

end IsCanonical

/-! ## Symbols that are printed as they were read -/

/-- Text that is read as symbols which need no further product signs and are printed as the text
again. -/
structure ReadsBack (text : Text) (symbols : List Symbol) : Prop where
  spells : SpellsWithin .standard text symbols
  multiplies : Symbol.MultipliesWithin Symbol.isJoined symbols symbols
  prints : ofSymbols symbols = text

namespace ReadsBack

theorem word {symbol : Symbol} (all : text.all isBaseChar = true)
    (isSymbol : Text.symbols .standard text = [symbol]) (noGap : symbol.isGap = false)
    (prints : symbol.print = text) : ReadsBack text [symbol] where
  spells := Bracketed.spells_name all isSymbol
  multiplies := .single noGap
  prints := by rw [ofSymbols, List.flatMap_singleton, prints]

theorem parenthesized (inside : ReadsBack text symbols) :
    ReadsBack text.parenthesized (Symbol.parenthesized symbols) where
  spells := inside.spells.parenthesized
  multiplies := inside.multiplies.parenthesized Symbol.joinsFactors_isJoined
  prints := by
    have prints := inside.prints
    simp only [ofSymbols] at prints
    simp [ofSymbols, Symbol.parenthesized, Text.parenthesized, Symbol.print, prints]

theorem call {name : Text} (all : name.all isBaseChar = true)
    (isSymbol : Text.symbols .standard name = [.function name])
    (argument : ReadsBack text symbols) :
    ReadsBack (name ++ text.parenthesized) (.function name :: Symbol.parenthesized symbols) where
  spells := Bracketed.spells_call all isSymbol argument.spells
  multiplies :=
    argument.parenthesized.multiplies.call Symbol.joinsFactors_isJoined name
  prints := by
    have prints := argument.parenthesized.prints
    rw [ofSymbols] at prints
    rw [ofSymbols, List.flatMap_cons, prints]
    rfl

theorem binary {c : Char} (sign : SpellsWithin.isSign c = true) (first : ReadsBack left left')
    (second : ReadsBack right right') :
    ReadsBack (left ++ c :: right) (left' ++ .operator c :: right') where
  spells := first.spells.binary sign second.spells
  multiplies := first.multiplies.binary Symbol.joinsFactors_isJoined c second.multiplies
  prints := by
    have prints := first.prints
    have prints' := second.prints
    rw [ofSymbols] at prints prints'
    rw [ofSymbols, List.flatMap_append, List.flatMap_cons, prints, prints']
    rfl

theorem signed {c : Char} (sign : SpellsWithin.isSign c = true) (operand : ReadsBack text symbols) :
    ReadsBack (c :: text) (.operator c :: symbols) where
  spells := operand.spells.sign_append sign
  multiplies := operand.multiplies.signed Symbol.joinsFactors_isJoined c
  prints := by
    have prints := operand.prints
    rw [ofSymbols] at prints
    rw [ofSymbols, List.flatMap_cons, prints]
    rfl

end ReadsBack

theorem IsCanonical.exists_readsBack (canonical : text.IsCanonical) :
    ∃ symbols, ReadsBack text symbols := by
  induction canonical with
  | @numeral c run begins all =>
      have isSymbol : Text.symbols .standard (c :: run) = [.number (c :: run)] := by
        rw [symbols_numeral begins, takeWhile_of_all all, dropWhile_of_all all, Text.symbols]
      exact ⟨_, .word (all_isBaseChar_numeral begins all) isSymbol rfl rfl⟩
  | @letter c isAlpha =>
      have base : [c].all isBaseChar = true := by simp [isBaseChar_of_isAlpha c isAlpha]
      exact ⟨_, .word base (Bracketed.symbols_letter ⟨c, isAlpha⟩) rfl rfl⟩
  | constant isName =>
      exact ⟨_, .word (all_isBaseChar (isAlphanum_of_mem_constantNames isName))
        (Vocabulary.keepsConstants_standard.symbols_name isName) rfl rfl⟩
  | @call name argument isFunction _ ih =>
      obtain ⟨symbols, inside⟩ := ih
      have isSymbol : ∀ name ∈ Vocabulary.functionNames,
          Text.symbols .standard name = [.function name] := by decide +kernel
      exact ⟨_, .call (all_isBaseChar (Vocabulary.all_isAlphanum_of_mem_functionNames isFunction))
        (isSymbol name isFunction) inside⟩
  | @binary c _ _ isOperator _ _ ihLeft ihRight =>
      obtain ⟨first, left⟩ := ihLeft
      obtain ⟨second, right⟩ := ihRight
      have isSign : SpellsWithin.isSign c = true := by
        simp only [List.mem_cons, List.not_mem_nil, or_false] at isOperator
        rcases isOperator with rfl | rfl | rfl | rfl <;> decide
      exact ⟨_, .binary isSign left right⟩
  | negative _ ih =>
      obtain ⟨symbols, operand⟩ := ih
      exact ⟨_, .signed (by decide) operand⟩
  | parenthesized _ ih =>
      obtain ⟨symbols, inside⟩ := ih
      exact ⟨_, inside.parenthesized⟩

end Text

/-! ## Translations -/

/-- In both modes the report on canonical text is the text, without warnings. -/
theorem Translator.report_of_isCanonical (options : Options) {formula : Text}
    (canonical : formula.IsCanonical) :
    Translator.report { options } formula = .ok ⟨formula, []⟩ := by
  obtain ⟨symbols, readsBack⟩ := canonical.exists_readsBack
  have prints : Symbol.Prints none symbols formula :=
    (congrArg Text.ofSymbols readsBack.multiplies.whole).trans readsBack.prints
  exact report_of_prints canonical.isAccepted (canonical.linear_normal options)
    readsBack.spells.whole prints

/-- Canonical text is its own translation. -/
theorem translate_of_isCanonical {formula : String} (canonical : Text.IsCanonical formula.toList) :
    translate formula = .ok formula := by
  rw [translate, Translator.translate, Translator.report_of_isCanonical .standard canonical]
  exact congrArg Except.ok (String.ofList_toList ..)

/-- A signed call is the factor of a product. -/
theorem translate_of_isCanonical_of_call :
    Text.IsCanonical "2.5*-sin((x+pi)/3)".toList ∧
      translate "2.5*-sin((x+pi)/3)" = .ok "2.5*-sin((x+pi)/3)" := by
  have sum : Text.IsCanonical (['x'] ++ '+' :: "pi".toList) :=
    .binary (by decide) (.letter rfl) (.constant (by decide))
  have three : Text.IsCanonical ('3' :: []) := .numeral rfl rfl
  have argument : Text.IsCanonical ("(x+pi)".toList ++ '/' :: ['3']) :=
    .binary (by decide) sum.parenthesized three
  have call : Text.IsCanonical ("sin".toList ++ Text.parenthesized "(x+pi)/3".toList) :=
    .call (by decide) argument
  have coefficient : Text.IsCanonical ('2' :: ".5".toList) := .numeral rfl rfl
  have canonical : Text.IsCanonical ("2.5".toList ++ '*' :: "-sin((x+pi)/3)".toList) :=
    .binary (by decide) coefficient call.negative
  exact ⟨canonical, translate_of_isCanonical canonical⟩

end TexCalc
