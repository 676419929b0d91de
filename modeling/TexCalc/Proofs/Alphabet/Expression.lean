import TexCalc.Proofs.Alphabet.Finished
import TexCalc.Proofs.Alphabet.Followed

/-!
# The characters of an expression

An expression is printed from the symbols of a flat text, which lose the blanks and the control
sequences that nothing has replaced.  What is printed are characters of the target language and the
foreign characters of the flat text, each as often as it occurs there.
-/

namespace TexCalc

namespace Symbol

/-- The symbols of which something is printed. -/
def printed (symbols : List Symbol) : List Symbol :=
  symbols.filter (·.leftover?.isNone)

theorem print_ofPunctuation (c : Char) : (ofPunctuation c).print = [c] := by
  unfold ofPunctuation
  repeat' split
  all_goals first | rfl | subst_vars; rfl

theorem print_ofEntry (entry : Entry) : (ofEntry entry).print = entry.name.text := by
  unfold ofEntry
  split <;> rfl

theorem leftover?_ofPunctuation (c : Char) : (ofPunctuation c).leftover? = none := by
  unfold ofPunctuation
  repeat' split
  all_goals rfl

theorem leftover?_ofEntry (entry : Entry) : (ofEntry entry).leftover? = none := by
  unfold ofEntry
  split <;> rfl

theorem ofSymbols_printed_cons {symbol : Symbol} (stays : symbol.leftover? = none)
    (symbols : List Symbol) :
    Text.ofSymbols (printed (symbol :: symbols)) =
      symbol.print ++ Text.ofSymbols (printed symbols) := by
  have kept : (symbol :: symbols).filter (·.leftover?.isNone) = symbol :: printed symbols :=
    List.filter_cons_of_pos (by simp [stays])
  rw [printed, kept]
  exact List.flatMap_cons

theorem eq_leftover {symbol : Symbol} {name : Text} (left : symbol.leftover? = some name) :
    symbol = .leftover name := by
  cases symbol <;> cases left
  rfl

theorem printed_leftover_cons (name : Text) (symbols : List Symbol) :
    printed (.leftover name :: symbols) = printed symbols :=
  List.filter_cons_of_neg (by simp [leftover?])

theorem printed_printed (symbols : List Symbol) : printed (printed symbols) = printed symbols := by
  simp only [printed, List.filter_filter, Bool.and_self]

/-- Signs between symbols that are all printed are printed, too. -/
theorem printed_multiplyAfter_printed (joins : Symbol → Symbol → Bool) (previous? : Option Symbol)
    (symbols : List Symbol) :
    printed (multiplyAfter joins previous? (printed symbols)) =
      multiplyAfter joins previous? (printed symbols) := by
  have none : (multiplyAfter joins previous? (printed symbols)).filterMap leftover? = [] := by
    rw [filterMap_leftover?_multiplyAfter, List.filterMap_eq_nil_iff]
    intro symbol isMember
    exact Option.isNone_iff_eq_none.1 (List.mem_filter.1 isMember).2
  rw [printed, List.filter_eq_self]
  intro symbol isMember
  rw [List.filterMap_eq_nil_iff.1 none symbol isMember]
  rfl

/-- Nothing but signs is put between symbols. -/
theorem mem_printed_multiplyAfter {joins : Symbol → Symbol → Bool} {previous? : Option Symbol}
    {symbols : List Symbol} {c : Char}
    (isMember : c ∈ Text.ofSymbols (printed (multiplyAfter joins previous? symbols))) :
    c = '*' ∨ c ∈ Text.ofSymbols (printed symbols) := by
  induction symbols generalizing previous? with
  | nil => exact .inr isMember
  | cons symbol symbols ih =>
      have step {previous? : Option Symbol}
          (later : c ∈ Text.ofSymbols (printed (symbol :: multiplyAfter joins previous? symbols))) :
          c = '*' ∨ c ∈ Text.ofSymbols (printed (symbol :: symbols)) := by
        cases left : symbol.leftover? with
        | none =>
            rw [ofSymbols_printed_cons left, List.mem_append] at later ⊢
            exact later.elim (fun here => .inr (.inl here)) fun rest => (ih rest).imp_right .inr
        | some name =>
            rw [eq_leftover left, printed_leftover_cons] at later ⊢
            exact ih later
      simp only [multiplyAfter] at isMember
      split at isMember
      · rw [ofSymbols_printed_cons rfl, List.mem_append] at isMember
        exact isMember.elim (fun here => .inl (List.mem_singleton.1 here)) step
      · exact step isMember

/-- A class of characters without the sign of a product. -/
theorem filter_printed_multiplyAfter {accept : Char → Bool} (noSign : accept '*' = false)
    (joins : Symbol → Symbol → Bool) (previous? : Option Symbol) (symbols : List Symbol) :
    (Text.ofSymbols (printed (multiplyAfter joins previous? symbols))).filter accept =
      (Text.ofSymbols (printed symbols)).filter accept := by
  induction symbols generalizing previous? with
  | nil => rfl
  | cons symbol symbols ih =>
      have step (previous? : Option Symbol) :
          (Text.ofSymbols
              (printed (symbol :: multiplyAfter joins previous? symbols))).filter accept =
            (Text.ofSymbols (printed (symbol :: symbols))).filter accept := by
        cases left : symbol.leftover? with
        | none => rw [ofSymbols_printed_cons left, ofSymbols_printed_cons left, List.filter_append,
            List.filter_append, ih]
        | some name =>
            rw [eq_leftover left, printed_leftover_cons, printed_leftover_cons, ih]
      simp only [multiplyAfter]
      split
      · have none : times.print.filter accept = [] := by
          rw [show times.print = ['*'] from rfl, List.filter_cons_of_neg (by simp [noSign])]
          rfl
        rw [ofSymbols_printed_cons rfl, List.filter_append, none, List.nil_append, step]
      · exact step _

end Symbol

namespace Text

theorem visible_of_isNumeralChar {c : Char} (isNumeral : isNumeralChar c = true) :
    isBlank c = false ∧ c ≠ '\\' := by
  constructor
  · exact isBlank_eq_false_of_isBaseChar (isBaseChar_of_isNumeralChar c isNumeral)
  · rintro rfl
    exact absurd isNumeral (by decide)

theorem visible_of_isLetter {c : Char} (letter : isLetter c = true) :
    isBlank c = false ∧ c ≠ '\\' := by
  constructor
  · cases blank : isBlank c with
    | false => rfl
    | true =>
        rw [isLetter_eq_false_of_isBlank blank] at letter
        cases letter
  · rintro rfl
    rw [isLetter_backslash] at letter
    cases letter

/-- The numeral that is printed where one begins. -/
theorem isNumeralChar_of_mem {c d : Char} {rest : Text} (begins : beginsNumeral c rest = true)
    (isMember : d ∈ c :: rest.takeWhile isNumeralChar) : isNumeralChar d = true := by
  rcases List.mem_cons.1 isMember with rfl | inRun
  · exact isNumeralChar_of_beginsNumeral begins
  · exact List.all_eq_true.1 List.all_takeWhile d inRun

/-- A printed character stands in the text and is no blank and no backslash. -/
theorem mem_of_mem_printed {vocabulary : Vocabulary} {text : Text} {d : Char}
    (isMember : d ∈ ofSymbols (Symbol.printed (text.symbols vocabulary))) :
    d ∈ text ∧ isBlank d = false ∧ d ≠ '\\' := by
  have ofRest {c : Char} {lead rest : Text}
      (later : d ∈ rest ∧ isBlank d = false ∧ d ≠ '\\') :
      d ∈ c :: (lead ++ rest) ∧ isBlank d = false ∧ d ≠ '\\' :=
    ⟨List.mem_cons_of_mem _ (List.mem_append_right _ later.1), later.2⟩
  fun_induction symbols vocabulary text with
  | case1 => cases isMember
  | case2 c rest begins ih =>
      rw [Symbol.ofSymbols_printed_cons rfl, List.mem_append] at isMember
      have split : rest = rest.takeWhile isNumeralChar ++ rest.dropWhile isNumeralChar :=
        List.takeWhile_append_dropWhile.symm
      rcases isMember with here | later
      · refine ⟨?_, visible_of_isNumeralChar (isNumeralChar_of_mem begins here)⟩
        rw [split]
        exact List.mem_append_left _ here
      · rw [split]
        exact ofRest (ih later)
  | case3 c rest _ _ entry after found ih =>
      rw [Symbol.ofSymbols_printed_cons (Symbol.leftover?_ofEntry entry), Symbol.print_ofEntry,
        List.mem_append] at isMember
      rw [Vocabulary.eq_of_entryAt? found]
      rcases isMember with here | later
      · have word := List.all_eq_true.1 entry.name.all_isAlphanum d here
        exact ⟨List.mem_append_left _ here, isBlank_eq_false_of_isAlphanum word,
          ne_backslash_of_isAlphanum word⟩
      · exact ⟨List.mem_append_right _ (ih later).1, (ih later).2⟩
  | case4 c rest _ letter _ ih =>
      rw [Symbol.ofSymbols_printed_cons rfl, List.mem_append] at isMember
      rcases isMember with here | later
      · obtain rfl := List.mem_singleton.1 here
        exact ⟨List.mem_cons_self, visible_of_isLetter letter⟩
      · exact ⟨List.mem_cons_of_mem _ (ih later).1, (ih later).2⟩
  | case5 rest control found _ _ ih =>
      rw [Symbol.printed_leftover_cons] at isMember
      rw [Control.eq_of_read? found]
      exact ofRest (ih isMember)
  | case6 => cases isMember
  | case7 c rest _ _ _ _ ih => exact ⟨List.mem_cons_of_mem _ (ih isMember).1, (ih isMember).2⟩
  | case8 c rest _ _ other visible ih =>
      rw [Symbol.ofSymbols_printed_cons (Symbol.leftover?_ofPunctuation c),
        Symbol.print_ofPunctuation, List.mem_append] at isMember
      rcases isMember with here | later
      · obtain rfl := List.mem_singleton.1 here
        exact ⟨List.mem_cons_self, by simpa using visible, other⟩
      · exact ⟨List.mem_cons_of_mem _ (ih later).1, (ih later).2⟩

/-- A control sequence takes away only characters that may follow a backslash. -/
theorem mayFollow_of_mem_name {text : Text} {control : Control}
    (followed : IsFollowed ('\\' :: text)) (found : Control.read? text = some control) {c : Char}
    (isMember : c ∈ control.name) : mayFollow c = true := by
  have next := followed.1 rfl
  cases text with
  | nil => cases next
  | cons d rest =>
      simp only [Control.read?] at found
      split at found
      · rename_i letter
        cases found
        apply mayFollow_of_isAlpha
        rcases List.mem_cons.1 isMember with rfl | inRun
        · exact letter
        · exact List.all_eq_true.1 List.all_takeWhile c inRun
      · cases found
        rw [List.mem_singleton.1 isMember]
        exact next

/-- All characters of a class are printed when it has no blanks and no backslash, and nothing that a
control sequence takes away. -/
theorem filter_printed {accept : Char → Bool} (visible : ∀ c, isBlank c = true → accept c = false)
    (noControl : accept '\\' = false) (vocabulary : Vocabulary) {text : Text}
    (followed : text.IsFollowed)
    (apart : '\\' ∈ text → ∀ c, mayFollow c = true → accept c = false) :
    (ofSymbols (Symbol.printed (text.symbols vocabulary))).filter accept = text.filter accept := by
  have skips {c : Char} (other : accept c = false) (rest : Text) :
      List.filter accept (c :: rest) = rest.filter accept :=
    List.filter_cons_of_neg (by simp [other])
  have ofRight {lead rest : Text} (apart : '\\' ∈ lead ++ rest →
      ∀ c, mayFollow c = true → accept c = false) (isMember : '\\' ∈ rest) :=
    apart (List.mem_append_right lead isMember)
  fun_induction symbols vocabulary text with
  | case1 => rfl
  | case2 d rest _ ih =>
      have split : rest = rest.takeWhile isNumeralChar ++ rest.dropWhile isNumeralChar :=
        List.takeWhile_append_dropWhile.symm
      have later := followed.2
      rw [split] at later
      have kept := ih later.of_append_right fun isMember => apart (List.mem_cons_of_mem _
        ((List.dropWhile_sublist isNumeralChar).subset isMember))
      rw [Symbol.ofSymbols_printed_cons rfl, List.filter_append, kept, ← List.filter_append]
      exact congrArg (List.filter accept) (congrArg (d :: ·) split.symm)
  | case3 d rest _ _ entry after found ih =>
      have split := Vocabulary.eq_of_entryAt? found
      rw [split] at followed apart
      rw [Symbol.ofSymbols_printed_cons (Symbol.leftover?_ofEntry entry), Symbol.print_ofEntry,
        List.filter_append, ih followed.of_append_right (ofRight apart), split, List.filter_append]
  | case4 d rest _ _ _ ih =>
      rw [Symbol.ofSymbols_printed_cons rfl, List.filter_append,
        ih followed.2 (fun isMember => apart (List.mem_cons_of_mem _ isMember)),
        ← List.filter_append]
      rfl
  | case5 rest control found _ _ ih =>
      have split := Control.eq_of_read? found
      have taken := apart List.mem_cons_self
      have name : control.name.filter accept = [] := by
        rw [List.filter_eq_nil_iff]
        intro c isMember
        rw [taken c (mayFollow_of_mem_name followed found isMember)]
        exact Bool.false_ne_true
      have later := followed.2
      rw [split] at later
      rw [Symbol.printed_leftover_cons, ih later.of_append_right fun _ => taken,
        skips noControl, split, List.filter_append, name, List.nil_append]
  | case6 rest found _ _ =>
      rw [Control.read?_eq_none_iff.1 found, skips noControl]
      rfl
  | case7 d rest _ _ _ blank ih =>
      rw [ih followed.2 (fun isMember => apart (List.mem_cons_of_mem _ isMember)),
        skips (visible d blank)]
  | case8 d rest _ _ _ _ ih =>
      rw [Symbol.ofSymbols_printed_cons (Symbol.leftover?_ofPunctuation d),
        Symbol.print_ofPunctuation, List.filter_append,
        ih followed.2 (fun isMember => apart (List.mem_cons_of_mem _ isMember)),
        ← List.filter_append]
      rfl

/-! ## Brackets -/

/-- The brackets that a flat text has no more. -/
def isFlattened (c : Char) : Bool :=
  c ∈ ['[', ']', '\x7b', '\x7d']

theorem isFlattened_flatBracket (c : Char) : isFlattened (flatBracket c) = false := by
  unfold flatBracket
  split
  · decide
  · split
    · decide
    · rename_i noOpener noCloser
      simp only [not_or] at noOpener noCloser
      simp [isFlattened, noOpener, noCloser]

theorem mem_of_mem_collapseAfter {isBlankBefore : Bool} {text : Text} {c : Char}
    (isMember : c ∈ text.collapseAfter isBlankBefore) : c = ' ' ∨ c ∈ text := by
  fun_induction collapseAfter isBlankBefore text with
  | case1 => cases isMember
  | case2 d rest _ ih => exact (ih isMember).imp_right (List.mem_cons_of_mem _)
  | case3 _ d rest _ _ ih =>
      rcases List.mem_cons.1 isMember with here | later
      · exact .inl here
      · exact (ih later).imp_right (List.mem_cons_of_mem _)
  | case4 _ d rest _ ih =>
      rcases List.mem_cons.1 isMember with here | later
      · exact .inr (here ▸ List.mem_cons_self)
      · exact (ih later).imp_right (List.mem_cons_of_mem _)

theorem isFlattened_of_mem_flatten {text : Text} {c : Char} (isMember : c ∈ text.flatten) :
    isFlattened c = false := by
  have inside : c ∈ collapseBlanks (text.joinGroups.map flatBracket) := by
    obtain ⟨lead, trail, split, _, _⟩ :=
      (collapseBlanks (text.joinGroups.map flatBracket)).exists_trim_eq
    rw [split]
    exact List.mem_append_right _ (List.mem_append_left _ isMember)
  rcases mem_of_mem_collapseAfter inside with rfl | isMapped
  · decide
  · obtain ⟨d, _, rfl⟩ := List.mem_map.1 isMapped
    exact isFlattened_flatBracket d

end Text

namespace Translator

variable {translator : Translator} {formula : Text} {report : Report} {c : Char}

/-- The expression of an accepted formula is printed from the symbols of its linear form. -/
theorem exists_expression_eq (isStrict : translator.options.strict = true)
    (reported : translator.report formula = .ok report) :
    ∃ symbols, report.expression = Text.ofSymbols (Symbol.printed
        (Symbol.multiplyAfter Symbol.isJuxtaposed none (Symbol.printed symbols))) ∧
      symbols = Symbol.multiplyAfter Symbol.joinsNames none
        ((formula.normal.linear translator.vocabulary translator.options).symbols
          translator.vocabulary) := by
  obtain ⟨_, rfl⟩ := (report_eq_ok_iff isStrict).1 reported
  refine ⟨_, ?_, rfl⟩
  rw [Symbol.printed_multiplyAfter_printed]
  simp only [reportDespite, symbols, Text.normal_trim]
  rfl

/-- What is printed are characters of the target language and foreign characters. -/
theorem isOutput_or_isForeign (isStrict : translator.options.strict = true)
    (reported : translator.report formula = .ok report) (isMember : c ∈ report.expression) :
    isOutput c = true ∨ isForeign c = true := by
  obtain ⟨symbols, printed, rfl⟩ := exists_expression_eq isStrict reported
  rw [printed] at isMember
  rcases Symbol.mem_printed_multiplyAfter isMember with rfl | isMember
  · exact .inl (by decide)
  rw [Symbol.printed_printed] at isMember
  rcases Symbol.mem_printed_multiplyAfter isMember with rfl | isMember
  · exact .inl (by decide)
  obtain ⟨inText, visible, other⟩ := Text.mem_of_mem_printed isMember
  have noBracket := Text.isFlattened_of_mem_flatten inText
  cases output : isOutput c with
  | true => exact .inl rfl
  | false =>
      right
      simp only [Text.isFlattened, decide_eq_false_iff_not, List.mem_cons, List.not_mem_nil,
        or_false, not_or] at noBracket
      simp [isForeign, output, visible, noBracket, other]

/-- What is printed of a class of characters that no sign and nothing taken away belongs to. -/
theorem filter_expression {accept : Char → Bool} (isStrict : translator.options.strict = true)
    (reported : translator.report formula = .ok report)
    (visible : ∀ c, isBlank c = true → accept c = false) (noControl : accept '\\' = false)
    (noSign : accept '*' = false)
    (apart : '\\' ∈ formula.normal.linear translator.vocabulary translator.options →
      ∀ c, mayFollow c = true → accept c = false) :
    report.expression.filter accept =
      (formula.normal.linear translator.vocabulary translator.options).filter accept := by
  obtain ⟨accepted, _⟩ := (report_eq_ok_iff isStrict).1 reported
  obtain ⟨symbols, printed, rfl⟩ := exists_expression_eq isStrict reported
  have only := Text.hasWordsOnly_normal_of_isAccepted accepted
  have based := Text.hasWordsOnly_beforeRenaming translator.vocabulary only
  have expanded := Text.hasWordsOnly_expandParked
    (Text.hasWordsOnly_attachArguments translator.vocabulary
      (Text.hasWordsOnly_renameCommands translator.options based))
  have followed := Text.isFollowed_flatten
    (Text.isFollowed_resolveExponents translator.vocabulary expanded)
  rw [printed, Symbol.filter_printed_multiplyAfter noSign, Symbol.printed_printed,
    Symbol.filter_printed_multiplyAfter noSign]
  exact Text.filter_printed visible noControl translator.vocabulary followed apart

/-- Every foreign character of the linear form is printed. -/
theorem count_expression (isStrict : translator.options.strict = true)
    (reported : translator.report formula = .ok report) (foreign : isForeign c = true) :
    report.expression.count c =
      (formula.normal.linear translator.vocabulary translator.options).count c := by
  apply Text.count_eq_of_filter_eq
  have other {d : Char} (known : isForeign d = false) : (d == c) = false :=
    beq_eq_false_iff_ne.2 (ne_of_isForeign foreign known)
  apply filter_expression isStrict reported
  · exact Text.beq_eq_false_of_isBlank (isBlank_eq_false_of_isForeign foreign)
  · exact other (by decide)
  · exact other (by decide)
  · intro _ d follows
    apply other
    rw [mayFollow, Bool.or_eq_true, beq_iff_eq] at follows
    rcases follows with letter | rfl
    · simp [isForeign, isOutput, Char.isAlphanum, letter]
    · decide

end Translator

end TexCalc
