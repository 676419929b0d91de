import TexCalc.Proofs.Alphabet.Expression
import TexCalc.Proofs.Linear.Powers
import TexCalc.Proofs.Marks.Renamed
import TexCalc.Proofs.Marks.WrittenOut
import TexCalc.Proofs.Residue.Expression
import TexCalc.Proofs.Words.Modes

/-!
# Torn marks in an expression

Once parked functions have been written out, powers are formed and brackets made round, which
keeps every mark, and the bracket behind a torn one.  A hidden mark is the name of a control symbol
and is removed with it.  What is printed are therefore the torn marks, one for each base of a
logarithm that has been read as a mark alone.
-/

namespace TexCalc

open Parked (mark)

namespace Text

variable {hidden inside : Bool} {torn more : Nat} {text run exponent right : Text}

/-! ## Powers -/

/-- An exponent can be followed by anything. -/
theorem HasMarks.exponent_append {vocabulary : Vocabulary} {found : Cut}
    (isExponent : text.exponent? vocabulary = some found)
    (raised : HasMarks false false false torn found.text)
    (later : HasMarks false false false more right) :
    HasMarks false false false (torn + more) (found.text ++ right) := by
  have ofWord {word : Text} (all : word.all Char.isAlphanum = true)
      (raised : HasMarks false false false torn word) :
      HasMarks false false false (torn + more) (word ++ right) := by
    have noMark : mark ∉ word := not_mem_of_all (by decide) all
    rw [raised.eq_zero_of_not_mem noMark, Nat.zero_add]
    exact .plain_append noMark (not_mem_of_all (by decide) all) later
  simp only [exponent?] at isExponent
  split at isExponent
  · cases isExponent
  · split at isExponent
    · obtain ⟨group, _, rfl⟩ := Option.map_eq_some_iff.1 isExponent
      obtain ⟨within, shape, _⟩ := exists_wrap_eq group.inside
      have isConcat : group.inside.wrap = ('(' :: within) ++ [')'] := shape
      rw [isConcat] at raised ⊢
      exact raised.concat_append (by decide) (by decide) (by decide) later
    · split at isExponent
      · rename_i name _ _
        cases isExponent
        exact ofWord name.all_isAlphanum raised
      · split at isExponent
        · rename_i c _ _ _ _ word
          cases isExponent
          exact ofWord (by simp [word]) raised
        · cases isExponent

theorem hasMarks_power_append (base : run.all isBaseChar = true)
    (raised : HasMarks false false false torn exponent)
    (goesOn : HasMarks false false false (torn + more) (exponent ++ right))
    (later : HasMarks false false false more right) :
    HasMarks false hidden inside (torn + more) (power run exponent ++ right) := by
  unfold power
  split
  · rename_i coefficient found
    have part : coefficient.all isBaseChar = true := by
      simp only [beforeEuler?] at found
      split at found
      · split at found
        · cases found
          exact List.all_eq_true.2 fun c isMember =>
            List.all_eq_true.1 base c ((List.dropLast_sublist run).subset isMember)
        · cases found
      · cases found
    have name : (coefficient ++ "exp".toList).all isBaseChar = true := by
      rw [List.all_append, part]
      rfl
    have call : HasMarks false false false (torn + more)
        ((if exponent.isEnclosed then exponent else exponent.parenthesized) ++ right) := by
      split
      · exact goesOn
      · exact raised.parenthesized_append later
    rw [exponential, ← List.append_assoc, List.append_assoc]
    exact call.behind (by simp) (not_mem_of_all (by decide) name) (not_mem_of_all (by decide) name)
  · have inner : HasMarks false false false torn (run ++ '^' :: exponent) :=
      .plain_append (not_mem_of_all (by decide) base) (not_mem_of_all (by decide) base)
        (.cons (by decide) (by decide) (by decide) raised)
    exact inner.parenthesized_append later

/-- Behind a run without marks, a text may be exchanged for one with the same marks. -/
theorem HasMarks.exchange {left before after : Text} (noMark : mark ∉ left)
    (marks : HasMarks false hidden inside torn (left ++ before))
    (behind : ∀ {hidden inside : Bool}, HasMarks false hidden inside torn before →
      HasMarks false hidden inside torn after) :
    HasMarks false hidden inside torn (left ++ after) := by
  induction left generalizing hidden inside with
  | nil => exact behind marks
  | cons c left ih =>
      rw [List.mem_cons, not_or] at noMark
      cases marks with
      | other other later => exact .other other (ih noMark.2 later)
      | hidden | named | torn => exact absurd rfl noMark.1

/-- A text that begins with a closing bracket still does, whatever powers follow. -/
theorem isShut_resolveExponents (vocabulary : Vocabulary) (shut : text.isShut = true) :
    (text.resolveExponents vocabulary).isShut = true := by
  cases text with
  | nil =>
      have empty : resolveExponents vocabulary [] = [] := Raises.nil
      rw [empty]
      exact shut
  | cons c rest =>
      obtain ⟨bracket, rfl⟩ := exists_closer_of_isShut shut
      have other : isBaseChar bracket.closer = false := by cases bracket <;> decide
      rw [resolveExponents_cons other]
      exact shut

theorem hasMarks_resolveExponents (vocabulary : Vocabulary)
    (marks : HasMarks false hidden inside torn text) :
    HasMarks false hidden inside torn (text.resolveExponents vocabulary) := by
  have behind {run gap script : Text} {hidden inside : Bool} {torn : Nat}
      (base : run.all isBaseChar = true) (blank : gap.all isAsciiBlank = true)
      (marks : HasMarks false hidden inside torn (run ++ (gap ++ '^' :: script))) :
      mark ∉ run ++ gap ∧ HasMarks false false false torn script := by
    have noMark : mark ∉ run ++ gap := by
      rw [List.mem_append, not_or]
      exact ⟨not_mem_of_all (by decide) base, not_mem_of_all (by decide) blank⟩
    rw [← List.append_assoc] at marks
    obtain ⟨before, after, rfl, first, later⟩ :=
      marks.of_append_cons (by decide) (by decide) (by decide)
    rw [first.eq_zero_of_not_mem noMark, Nat.zero_add]
    exact ⟨noMark, later⟩
  revert hidden inside torn
  refine resolveExponents_induct vocabulary (motive := fun text raised =>
    ∀ {hidden inside torn}, HasMarks false hidden inside torn text →
      HasMarks false hidden inside torn raised) ?_ ?_ ?_ ?_ text
  · exact fun run _ _ _ _ marks => marks
  · intro run gap script exponent base blank isExponent ih hidden inside torn marks
    obtain ⟨raised, after, rfl, exponentMarks, later⟩ :=
      (ih (behind base blank marks).2).of_exponent? isExponent
    exact hasMarks_power_append base exponentMarks
      (exponentMarks.exponent_append isExponent later) later
  · intro run gap script base blank ih hidden inside torn marks
    obtain ⟨noMark, later⟩ := behind base blank marks
    rw [← List.append_assoc] at marks ⊢
    exact marks.exchange noMark fun _ => .cons (by decide) (by decide) (by decide) (ih later)
  · intro run c rest base ih hidden inside torn marks
    refine marks.exchange (not_mem_of_all (by decide) base) fun marks => ?_
    cases marks with
    | other other later => exact .other other (ih later)
    | hidden later => exact .hidden (ih later)
    | named allowed => cases allowed
    | torn shut later => exact .torn (isShut_resolveExponents vocabulary shut) (ih later)

/-! ## Flat text -/

theorem isShut_joinGroups (shut : text.isShut = true) : text.joinGroups.isShut = true := by
  cases text with
  | nil =>
      rw [joinGroups]
      exact shut
  | cons c rest =>
      rw [joinGroups]
      split
      · split
        · rfl
        · exact shut
      · exact shut

theorem hasMarks_joinGroups (marks : HasMarks false hidden inside torn text) :
    HasMarks false hidden inside torn text.joinGroups := by
  fun_induction joinGroups text generalizing hidden inside torn with
  | case1 => exact marks
  | case2 rest after next ih =>
      have trimmed : HasMarks false false false torn (trimStart rest) :=
        (marks.tail (by decide) (by decide)).dropWhile (by decide) (by decide)
      rw [next] at trimmed
      have later := ih (trimmed.tail (by decide) (by decide))
      exact later.behind (by decide) (by decide) (by decide)
  | case3 rest _ ih =>
      cases marks with
      | other other later => exact .other other (ih later)
  | case4 _ rest _ ih =>
      cases marks with
      | other other later => exact .other other (ih later)
      | hidden later => exact .hidden (ih later)
      | named allowed => cases allowed
      | torn shut later => exact .torn (isShut_joinGroups shut) (ih later)

theorem isShut_map_flatBracket (shut : text.isShut = true) :
    Text.isShut (text.map flatBracket) = true := by
  cases text with
  | nil => exact shut
  | cons c rest =>
      obtain ⟨bracket, rfl⟩ := exists_closer_of_isShut shut
      have round : flatBracket bracket.closer = ')' := by cases bracket <;> rfl
      rw [List.map_cons, round]
      exact isShut_closer .round _

theorem hasMarks_map_flatBracket (marks : HasMarks false hidden inside torn text) :
    HasMarks false hidden inside torn (text.map flatBracket) := by
  have kept {c : Char} (other : c ∉ ['\x7b', '[', '\x7d', ']']) : flatBracket c = c := by
    simp only [List.mem_cons, List.not_mem_nil, or_false, not_or] at other
    simp [flatBracket, other]
  have brackets {c : Char} (isBracket : c ∈ ['\x7b', '[', '\x7d', ']']) :
      flatBracket c ≠ mark ∧ flatBracket c ≠ '\\' ∧ c ≠ '\\' := by
    simp only [List.mem_cons, List.not_mem_nil, or_false] at isBracket
    rcases isBracket with rfl | rfl | rfl | rfl <;> decide
  induction marks with
  | nil => exact .nil
  | @other hidden inside torn c rest other later ih =>
      rw [List.map_cons]
      by_cases isBracket : c ∈ ['\x7b', '[', '\x7d', ']']
      · obtain ⟨noMark, plain, back⟩ := brackets isBracket
        refine .other noMark ?_
        rw [beq_false_of_ne back, Bool.false_and] at ih
        rw [beq_false_of_ne plain, Bool.false_and]
        exact ih.within_words _
      · rw [kept isBracket]
        exact .other other ih
  | hidden _ ih => exact .hidden ih
  | named allowed => cases allowed
  | torn shut _ ih => exact .torn (isShut_map_flatBracket shut) ih

theorem isShut_collapseAfter (isBlankBefore : Bool) (shut : text.isShut = true) :
    (text.collapseAfter isBlankBefore).isShut = true := by
  cases text with
  | nil => exact shut
  | cons c rest =>
      obtain ⟨bracket, rfl⟩ := exists_closer_of_isShut shut
      have visible : isBlank bracket.closer = false := by cases bracket <;> decide
      rw [collapseAfter, visible]
      exact shut

/-- Nothing is hidden behind a blank. -/
theorem hasMarks_collapseAfter {isBlankBefore : Bool}
    (opens : isBlankBefore = true → hidden = false)
    (marks : HasMarks false hidden inside torn text) :
    HasMarks false hidden inside torn (text.collapseAfter isBlankBefore) := by
  have facts {c : Char} (blank : isBlank c = true) : c ≠ mark ∧ c ≠ '\\' := by
    constructor <;>
    · rintro rfl
      cases blank
  fun_induction collapseAfter isBlankBefore text generalizing hidden inside torn with
  | case1 => exact marks
  | case2 c rest blank ih =>
      obtain ⟨noMark, plain⟩ := facts blank
      rw [opens rfl]
      exact (ih (fun _ => rfl) (marks.tail noMark plain)).within_words inside
  | case3 _ c rest blank _ ih =>
      obtain ⟨noMark, plain⟩ := facts blank
      exact .cons (by decide) (by decide) (by decide)
        (ih (fun _ => rfl) (marks.tail noMark plain))
  | case4 _ c rest _ ih =>
      have before {hidden : Bool} : false = true → hidden = false := fun before => by cases before
      cases marks with
      | other other later => exact .other other (ih before later)
      | hidden later => exact .hidden (ih before later)
      | named allowed => cases allowed
      | torn shut later => exact .torn (isShut_collapseAfter _ shut) (ih before later)

theorem hasMarks_flatten (marks : HasMarks false false inside torn text) :
    HasMarks false false false torn text.flatten := by
  have flat := hasMarks_map_flatBracket (hasMarks_joinGroups marks)
  exact (hasMarks_collapseAfter (fun _ => rfl) flat).trim

/-! ## Symbols -/

/-- The torn marks are printed, and a hidden one goes with its control symbol. -/
theorem count_mark_printed (vocabulary : Vocabulary)
    (marks : HasMarks false false inside torn text) :
    (ofSymbols (Symbol.printed (text.symbols vocabulary))).count mark = torn := by
  fun_induction symbols vocabulary text generalizing inside torn with
  | case1 => exact marks.nil_of_zero.symm
  | case2 c rest begins ih =>
      have noMark {d : Char} (isMember : d ∈ c :: rest.takeWhile isNumeralChar) :
          d ≠ mark ∧ d ≠ '\\' := by
        constructor <;>
        · rintro rfl
          exact absurd (isNumeralChar_of_mem begins isMember) (by decide)
      have numeral : List.count mark (c :: rest.takeWhile isNumeralChar) = 0 :=
        List.count_eq_zero.2 fun isMember => (noMark isMember).1 rfl
      obtain ⟨other, plain⟩ := noMark List.mem_cons_self
      rw [Symbol.ofSymbols_printed_cons rfl, List.count_append, Symbol.print, numeral, Nat.zero_add]
      exact ih ((marks.tail other plain).dropWhile (by decide) (by decide))
  | case3 c rest _ _ entry after found ih =>
      rw [Vocabulary.eq_of_entryAt? found] at marks
      rw [Symbol.ofSymbols_printed_cons (Symbol.leftover?_ofEntry entry), Symbol.print_ofEntry,
        List.count_append, List.count_eq_zero.2 (mark_not_mem_name entry.name), Nat.zero_add]
      exact ih (marks.of_plain_append (mark_not_mem_name entry.name) (not_mem_name entry.name))
  | case4 c rest _ letter _ ih =>
      have other : c ≠ mark := by
        rintro rfl
        exact absurd letter (by decide +kernel)
      rw [Symbol.ofSymbols_printed_cons rfl, List.count_append, Symbol.print,
        List.count_cons_of_ne other, List.count_nil, Nat.zero_add]
      exact ih (marks.tail other (visible_of_isLetter letter).2)
  | case5 rest control found _ _ ih =>
      rw [Control.eq_of_read? found] at marks
      rw [Symbol.printed_leftover_cons]
      exact ih (marks.of_control (Control.isName_of_read? found))
  | case6 rest found =>
      rw [Control.read?_eq_none_iff.1 found] at marks
      cases marks with
      | other _ later => exact later.nil_of_zero.symm
  | case7 c rest _ _ _ blank ih =>
      have other : c ≠ mark := by
        rintro rfl
        cases blank
      exact ih (marks.tail other (not_isAlpha_of_isBlank blank).2)
  | case8 c rest _ _ plain _ ih =>
      rw [Symbol.ofSymbols_printed_cons (Symbol.leftover?_ofPunctuation c),
        Symbol.print_ofPunctuation, List.count_append]
      cases marks with
      | other other later =>
          rw [beq_false_of_ne plain, Bool.false_and] at later
          rw [List.count_cons_of_ne other, List.count_nil, Nat.zero_add]
          exact ih later
      | named allowed => cases allowed
      | torn _ later =>
          rw [List.count_cons_self, List.count_nil, Nat.zero_add, Nat.add_comm, ih later]

end Text

namespace Translator

open Text (HasMarks)

variable {translator : Translator} {formula : Text} {report : Report}

/-- One mark is printed for each base of a logarithm that is read as the mark alone. -/
theorem count_mark_expression_eq (reported : translator.report formula = .ok report) :
    report.expression.count mark =
      ((formula.normal.resolveStructures.resolveInverses translator.vocabulary).logBases
        translator.vocabulary).count [mark] := by
  have called := Text.hasMarks_beforeWritingOut translator.vocabulary translator.options formula
  have linear : HasMarks false false false _
      (formula.normal.linear translator.vocabulary translator.options) :=
    Text.hasMarks_flatten (Text.hasMarks_resolveExponents translator.vocabulary
      (Text.hasMarks_expandParked called))
  have printed : Symbol.finished (translator.symbols formula.trim) =
      Symbol.printed (Symbol.multiplyAfter Symbol.isJuxtaposed none
        (Symbol.printed (translator.symbols formula.trim))) :=
    (Symbol.printed_multiplyAfter_printed _ _ _).symm
  have classified : translator.symbols formula.trim = Symbol.multiplyAfter Symbol.joinsNames none
      ((formula.normal.linear translator.vocabulary translator.options).symbols
        translator.vocabulary) := by
    rw [Translator.symbols, Text.normal_trim]
    rfl
  have noSign : ('*' == mark) = false := by decide
  rw [← Text.count_mark_printed translator.vocabulary linear]
  apply Text.count_eq_of_filter_eq
  rw [expression_eq reported, printed, Symbol.filter_printed_multiplyAfter noSign,
    Symbol.printed_printed, classified, Symbol.filter_printed_multiplyAfter noSign]

/-- When parked functions are written out, every mark still has its name, unless it is the name of a
control symbol that the formula spells, or is torn because the base of a logarithm has been read as
the mark alone.  The torn marks are in the expression, and no others. -/
theorem count_mark_expression (reported : translator.report formula = .ok report) :
    let bases := (formula.normal.resolveStructures.resolveInverses
      translator.vocabulary).logBases translator.vocabulary
    HasMarks true false false (bases.count [mark])
        (formula.normal.beforeWritingOut translator.vocabulary translator.options) ∧
      report.expression.count mark = bases.count [mark] :=
  ⟨Text.hasMarks_beforeWritingOut translator.vocabulary translator.options formula,
    count_mark_expression_eq reported⟩

theorem count_mark_expression_of_secant :
    Translator.report {} "\\log_2\\sec x".toList = .ok ⟨"(log((1/cos(x)))/log(2))".toList, []⟩ ∧
      HasMarks true false false 0
          ((Text.normal "\\log_2\\sec x".toList).beforeWritingOut .standard {}) ∧
        "(log((1/cos(x)))/log(2))".toList.count mark = 0 := by
  have reported : Translator.report {} "\\log_2\\sec x".toList =
      .ok ⟨"(log((1/cos(x)))/log(2))".toList, []⟩ :=
    eq_ok_of_toOption (by decide +kernel)
  have bases : (((Text.normal "\\log_2\\sec x".toList).resolveStructures.resolveInverses
      .standard).logBases .standard).count [mark] = 0 := by
    decide +kernel
  have counted := count_mark_expression reported
  simp only at counted
  rw [bases] at counted
  exact ⟨reported, counted⟩

/-- The mark of the inverse secant is taken as the base, and its letters as the argument. -/
theorem mark_mem_expression_of_inverse_base :
    ∃ report, Translator.report {} "\\log_\\sec^\x7b-1\x7d x".toList = .ok report ∧
      mark ∈ report.expression :=
  ⟨⟨"(log(a*s*e*c)/log(".toList ++ mark :: "))*(x)".toList, []⟩,
    eq_ok_of_toOption (by decide +kernel), by decide⟩

end Translator

end TexCalc
