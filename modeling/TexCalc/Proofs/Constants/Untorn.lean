import TexCalc.Proofs.Constants.Formula
import TexCalc.Proofs.Vocabulary.Lookup
import TexCalc.Proofs.Vocabulary.Nameless
import TexCalc.Proofs.Words.Modes

/-!
# Constants that are not torn

Functions are looked for at every letter of a formula on one line, and so also inside the names
that the commands of the constants became.  A vocabulary without functions that are spelled inside
these names finds none, and with it arithmetic with constants has the report that it has with the
standard vocabulary.
-/

namespace TexCalc

/-- The names that the commands for constants become. -/
def constantNames : List Text :=
  ["pi".toList, "Infinity".toList]

theorem isAlphanum_of_mem_constantNames {name : Text} (isName : name ∈ constantNames) :
    name.all Char.isAlphanum = true := by
  simp only [constantNames, List.mem_cons, List.not_mem_nil, or_false] at isName
  rcases isName with rfl | rfl <;> decide

namespace Vocabulary

/-- A vocabulary that has the constants, and no function that is spelled inside their names. -/
structure KeepsConstants (vocabulary : Vocabulary) : Prop where
  isConstant : ∀ name ∈ constantNames, vocabulary.kindOf? name = some .constant
  untorn : ∀ function ∈ vocabulary.namesOf .function, ∀ name ∈ constantNames,
    ¬ function.text <:+: name

theorem keepsConstants_standard : standard.KeepsConstants where
  isConstant := by decide +kernel
  untorn := by decide +kernel

namespace KeepsConstants

variable {vocabulary : Vocabulary} (keeps : vocabulary.KeepsConstants)
include keeps

/-- Nothing is called inside the name of a constant. -/
theorem callableAt?_eq_none {c : Char} {run rest name : Text} (isName : name ∈ constantNames)
    (isPart : c :: run <:+: name) (ends : rest.endsRun Char.isAlphanum = true) :
    vocabulary.callableAt? (c :: run ++ rest) = none := by
  have alphanum : (c :: run).all Char.isAlphanum = true := List.all_eq_true.2 fun d isMember =>
    List.all_eq_true.1 (isAlphanum_of_mem_constantNames isName) d (isPart.subset isMember)
  have noMark : c ≠ Parked.mark := by
    rintro rfl
    rw [List.all_cons, Bool.and_eq_true] at alphanum
    cases alphanum.1
  rw [List.cons_append]
  refine callableAt?_eq_none_of_unspelled noMark fun function isFunction spelled => ?_
  rw [← List.cons_append, Text.takeWhile_append_of_endsRun alphanum ends] at spelled
  exact keeps.untorn function isFunction name isName (spelled.trans isPart)

theorem completeCalls_name {run rest name : Text} (isName : name ∈ constantNames)
    (isPart : run <:+: name) (ends : rest.endsRun Char.isAlphanum = true) :
    Text.completeCalls vocabulary false (run ++ rest) =
      run ++ Text.completeCalls vocabulary false rest := by
  induction run with
  | nil => rfl
  | cons c run ih =>
      have plain : c ≠ '\\' := by
        rintro rfl
        cases List.all_eq_true.1 (isAlphanum_of_mem_constantNames isName) _
          (isPart.subset List.mem_cons_self)
      have none : vocabulary.callableAt? (c :: (run ++ rest)) = none :=
        keeps.callableAt?_eq_none isName isPart ends
      rw [List.cons_append, Text.completeCalls_plain plain none,
        ih ((List.suffix_cons c run).isInfix.trans isPart), List.cons_append]

/-- The name of a constant is the symbol of the constant. -/
theorem symbols_name {name : Text} (isName : name ∈ constantNames) :
    name.symbols vocabulary = [.constant name] := by
  obtain ⟨entry, found, isConstant⟩ := Option.map_eq_some_iff.1 (keeps.isConstant name isName)
  have isEntry : vocabulary.entryAt? (name ++ []) =
      (vocabulary.entries.find? (·.name.text == name)).map (·, []) :=
    vocabulary.entryAt?_append (isAlphanum_of_mem_constantNames isName) rfl
  have spelled : entry.name.text = name := by simpa using List.find?_some found
  rw [List.append_nil, found, Option.map_some] at isEntry
  have symbol : Symbol.ofEntry entry = .constant name := by
    rw [Symbol.ofEntry, isConstant, spelled]
  simp only [constantNames, List.mem_cons, List.not_mem_nil, or_false] at isName
  rcases isName with rfl | rfl
  all_goals
    refine (Text.symbols_entry (by decide) (by decide) isEntry).trans ?_
    rw [symbol, Text.symbols]

end KeepsConstants

end Vocabulary

/-! ## Arithmetic on one line -/

namespace Text

variable {vocabulary : Vocabulary} {text rest : Text}

/-- Arithmetic on one line, in which the names of constants stand between spaces. -/
inductive IsNamed : Text → Prop where
  | nil : IsNamed []
  | mark {c : Char} {rest : Text} (isMark : (Piece.plain c).isArithmetic = true)
      (named : IsNamed rest) : IsNamed (c :: rest)
  | name {name rest : Text} (isName : name ∈ constantNames) (named : IsNamed rest) :
      IsNamed (' ' :: (name ++ ' ' :: rest))

theorem IsArithmetic.renameCommands (options : Options) (arithmetic : text.IsArithmetic) :
    (text.renameCommands options).IsNamed := by
  induction arithmetic with
  | nil =>
      rw [Text.renameCommands, pieces]
      exact .nil
  | mark isMark _ ih =>
      rw [renameCommands_plain (Piece.ne_of_isArithmetic isMark rfl)]
      exact .mark isMark ih
  | @word name rest isName arithmetic ih =>
      obtain ⟨letters, nonempty⟩ := Piece.word_of_mem isName
      obtain ⟨target, isTarget, renamed⟩ : ∃ target ∈ constantNames,
          Command.rename options name = ' ' :: (target ++ [' ']) := by
        rcases Piece.eq_of_mem isName with rfl | rfl
        · exact ⟨"pi".toList, by decide, rfl⟩
        · exact ⟨"Infinity".toList, by decide, rfl⟩
      rw [renameCommands_word letters nonempty arithmetic.endsRun, renamed, List.cons_append,
        List.append_assoc]
      exact .name isTarget ih

/-- Without a `^` there is no power. -/
theorem resolveExponents_of_not_mem (noScript : '^' ∉ text) :
    text.resolveExponents vocabulary = text := by
  refine resolveExponents_induct vocabulary
    (motive := fun text result => '^' ∉ text → result = text) ?_ ?_ ?_ ?_ text noScript
  · exact fun run _ _ => rfl
  · intro run gap script exponent _ _ _ _ noScript
    exact absurd (by simp) noScript
  · intro run gap script _ _ _ noScript
    exact absurd (by simp) noScript
  · intro run c rest _ ih noScript
    rw [ih fun isMember => noScript (by simp [isMember])]

namespace IsNamed

theorem not_mem {c : Char} (excluded : (Piece.plain c).isArithmetic = false)
    (noLetter : c.isAlphanum = false) (named : text.IsNamed) : c ∉ text := by
  induction named with
  | nil => exact List.not_mem_nil
  | mark isMark _ ih =>
      rw [List.mem_cons, not_or]
      exact ⟨(Piece.ne_of_isArithmetic isMark excluded).symm, ih⟩
  | @name name rest isName _ ih =>
      have space : c ≠ ' ' := by
        rintro rfl
        cases excluded
      have inName : c ∉ name := by
        intro isMember
        have word := List.all_eq_true.1 (isAlphanum_of_mem_constantNames isName) c isMember
        rw [noLetter] at word
        cases word
      simp [space, inName, ih]

theorem completeCalls (keeps : vocabulary.KeepsConstants) (named : text.IsNamed) :
    text.completeCalls vocabulary false = text := by
  have passed {c : Char} {rest : Text} (isMark : (Piece.plain c).isArithmetic = true)
      (completed : Text.completeCalls vocabulary false rest = rest) :
      Text.completeCalls vocabulary false (c :: rest) = c :: rest := by
    have noMark : c ≠ Parked.mark := Piece.ne_of_isArithmetic isMark (by decide)
    rw [completeCalls_plain (Piece.ne_of_isArithmetic isMark rfl)
      (vocabulary.callableAt?_eq_none (Piece.isAlpha_eq_false isMark) noMark rest), completed]
  induction named with
  | nil => rw [Text.completeCalls]
  | mark isMark _ ih => exact passed isMark ih
  | @name name rest isName _ ih =>
      refine passed rfl ?_
      rw [keeps.completeCalls_name isName List.infix_rfl rfl, passed rfl ih]

/-- A digit or a run of digits is a numeral. -/
theorem symbols_digits {digits : Text} (all : digits.all Char.isDigit = true) :
    digits.symbols vocabulary = if digits = [] then [] else [.number digits] := by
  cases digits with
  | nil => rw [symbols, if_pos rfl]
  | cons c digits =>
      rw [List.all_cons, Bool.and_eq_true] at all
      have numeral := all_isNumeralChar_of_isDigit all.2
      have begins : beginsNumeral c digits = true := by simp [beginsNumeral, all.1]
      rw [symbols_numeral begins, takeWhile_of_all numeral, dropWhile_of_all numeral, symbols,
        if_neg (List.cons_ne_nil c digits)]

/-- The symbols of arithmetic do not depend on the vocabulary.  A run of digits may stand in front
of the text, since a numeral is read as a whole. -/
theorem exists_spells (named : text.IsNamed) {digits : Text}
    (all : digits.all Char.isDigit = true) :
    ∃ symbols, ∀ vocabulary : Vocabulary, vocabulary.KeepsConstants →
      Spells vocabulary (digits ++ text) symbols := by
  have base {digits : Text} (all : digits.all Char.isDigit = true) :
      digits.all isBaseChar = true := List.all_eq_true.2 fun c isMember =>
    isBaseChar_of_isAlphanum c (by simp [Char.isAlphanum, List.all_eq_true.1 all c isMember])
  have none : ([] : Text).all Char.isDigit = true := rfl
  induction named generalizing digits with
  | nil =>
      refine ⟨(if digits = [] then [] else [.number digits]) ++ [], fun vocabulary _ => ?_⟩
      rw [← symbols_digits all]
      exact .word (base all) rfl .nil
  | @mark c rest isMark _ ih =>
      obtain ⟨symbols, spells⟩ := ih none
      rcases Piece.isDigit_or_eq_or_mem isMark with digit | rfl | isSign
      · have longer : (digits ++ [c]).all Char.isDigit = true := by simp [all, digit]
        obtain ⟨symbols, spells⟩ := ih longer
        refine ⟨symbols, fun vocabulary keeps => ?_⟩
        rw [List.append_cons]
        exact spells vocabulary keeps
      · refine ⟨(if digits = [] then [] else [.number digits]) ++ symbols,
          fun vocabulary keeps => ?_⟩
        rw [← symbols_digits all]
        exact .word (base all) rfl (spells vocabulary keeps).blank
      · refine ⟨(if digits = [] then [] else [.number digits]) ++
          .ofPunctuation (flatBracket c) :: symbols, fun vocabulary keeps => ?_⟩
        obtain ⟨punctuation, noCloser, other⟩ : Spells.isPunctuation c = true ∧ c ≠ '\x7d' ∧
            isBaseChar c = false := by
          simp only [List.mem_cons, List.not_mem_nil, or_false] at isSign
          rcases isSign with rfl | rfl | rfl | rfl | rfl | rfl <;> decide
        rw [← symbols_digits all]
        refine .word (base all) (by simp [endsRun, other]) ?_
        exact (spells vocabulary keeps).mark punctuation fun closer => absurd closer noCloser
  | @name name rest isName _ ih =>
      obtain ⟨symbols, spells⟩ := ih none
      refine ⟨(if digits = [] then [] else [.number digits]) ++ ([.constant name] ++ symbols),
        fun vocabulary keeps => ?_⟩
      have letters : name.all isBaseChar = true :=
        all_isBaseChar (isAlphanum_of_mem_constantNames isName)
      rw [← symbols_digits all, ← keeps.symbols_name isName]
      exact .word (base all) rfl (.blank (.word letters rfl (spells vocabulary keeps).blank))

end IsNamed

/-- On one line, arithmetic is what its renamed commands say. -/
theorem IsArithmetic.linear (options : Options) (keeps : vocabulary.KeepsConstants)
    (arithmetic : text.IsArithmetic) :
    text.linear vocabulary options = (text.renameCommands options).flatten := by
  have named := arithmetic.renameCommands options
  rw [Text.linear, arithmetic.resolveStructures, arithmetic.resolveInverses,
    arithmetic.resolveLogBases, attachArguments, named.completeCalls keeps,
    expandParked_of_not_mem (named.not_mem (by decide) (by decide)),
    resolveExponents_of_not_mem (named.not_mem (by decide) (by decide))]

end Text

/-! ## Reports -/

namespace Translator

variable {left right : Vocabulary}

theorem symbols_eq_of_keepsConstants (keepsLeft : left.KeepsConstants)
    (keepsRight : right.KeepsConstants) (options : Options) {formula : Text}
    (arithmetic : formula.IsArithmetic) :
    symbols ⟨options, left⟩ formula = symbols ⟨options, right⟩ formula := by
  have normal := arithmetic.normal
  have digits : ([] : Text).all Char.isDigit = true := rfl
  obtain ⟨found, spells⟩ := (normal.renameCommands options).exists_spells digits
  have same {vocabulary : Vocabulary} (keeps : vocabulary.KeepsConstants) :
      (formula.normal.linear vocabulary options).symbols vocabulary = found := by
    rw [normal.linear options keeps]
    exact (spells vocabulary keeps).symbols_flatten
  simp only [symbols, Text.classify, same keepsLeft, same keepsRight]

/-- An extension of the standard vocabulary that leaves the kinds of the standard names and has no
function inside the names of the constants gives arithmetic with constants the same report. -/
theorem report_eq_standard {spellings : List (Text × NameKind)}
    (kept : ∀ entry ∈ Vocabulary.standard.entries,
      (Vocabulary.standard.enterAll spellings).kindOf? entry.name.text = some entry.kind)
    (untorn : ∀ function,
      (Vocabulary.standard.enterAll spellings).kindOf? function = some .function →
        ∀ name ∈ constantNames, ¬ function <:+: name)
    (options : Options) {formula : Text}
    (arithmetic : formula.pieces.all Piece.isArithmetic = true) :
    report ⟨options, Vocabulary.standard.enterAll spellings⟩ formula =
      report ⟨options, Vocabulary.standard⟩ formula := by
  have ordered := Vocabulary.isOrdered_standard.enterAll spellings
  have standardNames : ∀ name ∈ constantNames,
      ∃ entry ∈ Vocabulary.standard.entries, entry.name.text = name ∧ entry.kind = .constant := by
    decide +kernel
  have keeps : (Vocabulary.standard.enterAll spellings).KeepsConstants := by
    constructor
    · intro name isName
      obtain ⟨entry, isEntry, rfl, isConstant⟩ := standardNames name isName
      rw [kept entry isEntry, isConstant]
    · intro function isFunction
      exact untorn function.text (ordered.mem_namesOf_iff.1 isFunction)
  have same := symbols_eq_of_keepsConstants keeps Vocabulary.keepsConstants_standard options
    (Text.isArithmetic_of_pieces arithmetic).trim
  simp only [report, reportDespite, same]

/-- A hyperbolic sine and another constant are spelled in no name of a constant. -/
theorem report_eq_standard_of_sinh :
    let spellings : List (Text × NameKind) := [("sinh".toList, .function), ("tau".toList, .constant)]
    (∀ entry ∈ Vocabulary.standard.entries,
      (Vocabulary.standard.enterAll spellings).kindOf? entry.name.text = some entry.kind) ∧
    (∀ function,
      (Vocabulary.standard.enterAll spellings).kindOf? function = some .function →
        ∀ name ∈ constantNames, ¬ function <:+: name) ∧
    (Text.pieces "2\\pi*(3-\\infty)".toList).all Piece.isArithmetic = true ∧
    report ⟨.standard, Vocabulary.standard.enterAll spellings⟩ "2\\pi*(3-\\infty)".toList =
      report ⟨.standard, Vocabulary.standard⟩ "2\\pi*(3-\\infty)".toList := by
  intro spellings
  have kept : ∀ entry ∈ Vocabulary.standard.entries,
      (Vocabulary.standard.enterAll spellings).kindOf? entry.name.text = some entry.kind := by
    decide +kernel
  have functions : ∀ function ∈ (Vocabulary.standard.enterAll spellings).namesOf .function,
      ∀ name ∈ constantNames, ¬ function.text <:+: name := by decide +kernel
  have untorn : ∀ function,
      (Vocabulary.standard.enterAll spellings).kindOf? function = some .function →
        ∀ name ∈ constantNames, ¬ function <:+: name := by
    intro function isFunction
    obtain ⟨entry, found, isKind⟩ := Option.map_eq_some_iff.1 isFunction
    have spelled : entry.name.text = function := by simpa using List.find?_some found
    subst spelled
    exact functions entry.name
      (List.mem_map.2 ⟨entry, List.mem_filter.2 ⟨List.mem_of_find?_eq_some found, by simp [isKind]⟩, rfl⟩)
  have arithmetic : (Text.pieces "2\\pi*(3-\\infty)".toList).all Piece.isArithmetic = true := by
    decide +kernel
  exact ⟨kept, untorn, arithmetic, report_eq_standard kept untorn .standard arithmetic⟩

/-- A function that is spelled like the first letter of a constant tears the constant. -/
theorem report_ne_standard_of_torn :
    let torn := Vocabulary.standard.enterAll [("I".toList, .function)]
    (∀ entry ∈ Vocabulary.standard.entries, torn.kindOf? entry.name.text = some entry.kind) ∧
    (Text.pieces "\\infty".toList).all Piece.isArithmetic = true ∧
    report ⟨.standard, Vocabulary.standard⟩ "\\infty".toList = .ok ⟨"Infinity".toList, []⟩ ∧
    report ⟨.standard, torn⟩ "\\infty".toList = .ok ⟨"I(n*f*i*n*i*t*y)".toList, []⟩ :=
  ⟨by decide +kernel, by decide +kernel, eq_ok_of_toOption (by decide +kernel),
    eq_ok_of_toOption (by decide +kernel)⟩

end Translator

end TexCalc
