import TexCalc.Proofs.Bracketed.Shape
import TexCalc.Proofs.Linear.Calls
import TexCalc.Proofs.Linear.Commands
import TexCalc.Proofs.Vocabulary.Standard
import TexCalc.Proofs.Words.Basic

/-!
# The commands of a bracketed formula

On one line a bracketed formula has no commands but those for functions, each with a group behind
it, for `\pi` and for products.  Inverse functions and bases of logarithms do not occur, so that
each command only becomes its target form.  Every function then has its argument already.
-/

namespace TexCalc

namespace Bracketed

/-- A text and the same text with its commands renamed, when every function, be it a command or a
name, has a group behind it, and any other letter stands alone. -/
inductive Renames : (text renamed : Text) → Prop where
  | nil : Renames [] []
  | mark {c : Char} {text renamed : Text} (noLetter : c.isAlpha = false) (plain : c ≠ '\\')
      (noMark : c ≠ Parked.mark) (later : Renames text renamed) : Renames (c :: text) (c :: renamed)
  | letter {c : Char} {text renamed : Text} (letter : c.isAlpha = true)
      (ends : text.endsRun Char.isAlpha = true) (later : Renames text renamed) :
      Renames (c :: text) (c :: renamed)
  | call {name text renamed : Text} (isName : name ∈ ["sqrt".toList, "abs".toList])
      (later : Renames ('(' :: text) ('(' :: renamed)) :
      Renames (name ++ '(' :: text) (name ++ '(' :: renamed)
  | command (function : Function) {text renamed : Text}
      (later : Renames ('(' :: text) ('(' :: renamed)) :
      Renames ('\\' :: (function.name ++ '(' :: text))
        (' ' :: (function.renamed ++ ' ' :: '(' :: renamed))
  | pi {text renamed : Text} (ends : text.endsRun Char.isAlpha = true)
      (later : Renames text renamed) :
      Renames ('\\' :: ("pi".toList ++ text)) (' ' :: ("pi".toList ++ ' ' :: renamed))
  | times {text renamed : Text} (later : Renames text renamed) :
      Renames ('\\' :: ("cdot".toList ++ ' ' :: text)) ('*' :: ' ' :: renamed)

namespace Renames

variable {text renamed : Text} {vocabulary : Vocabulary}

theorem not_mem_call {name : Text} (isName : name ∈ ["sqrt".toList, "abs".toList]) :
    '\\' ∉ name := by
  have plain : ∀ name ∈ ["sqrt".toList, "abs".toList], '\\' ∉ name := by decide
  exact plain name isName

/-! ## No inverse functions, no bases -/

theorem resolveInverses_eq (renames : Renames text renamed) :
    text.resolveInverses vocabulary = text := by
  induction renames with
  | nil => rw [Text.resolveInverses]
  | mark _ plain _ _ ih =>
      rw [Text.resolveInverses_plain plain, ih]
  | letter letter _ _ ih =>
      rw [Text.resolveInverses_plain (Text.ne_backslash_of_isAlpha letter), ih]
  | call isName _ ih => rw [Text.resolveInverses_append (not_mem_call isName), ih]
  | @command function text _ _ ih =>
      have none : Text.inverseMark? ('\\' :: (function.name ++ '(' :: text)) = none := by
        cases function <;> rfl
      rw [Text.resolveInverses_cons none,
        Text.resolveInverses_append (Text.not_mem_of_all_isAlpha function.all_isAlpha_name), ih]
  | @pi text _ _ _ ih =>
      have none : Text.inverseMark? ('\\' :: ("pi".toList ++ text)) = none := rfl
      rw [Text.resolveInverses_cons none, Text.resolveInverses_append (by decide), ih]
  | @times text _ _ ih =>
      have none : Text.inverseMark? ('\\' :: ("cdot".toList ++ ' ' :: text)) = none := rfl
      rw [Text.resolveInverses_cons none, Text.resolveInverses_append (by decide),
        Text.resolveInverses_plain (by decide), ih]

theorem resolveLogBases_eq (renames : Renames text renamed) :
    text.resolveLogBases vocabulary = text := by
  induction renames with
  | nil => rw [Text.resolveLogBases]
  | mark _ plain _ _ ih => rw [Text.resolveLogBases_plain plain, ih]
  | letter letter _ _ ih =>
      rw [Text.resolveLogBases_plain (Text.ne_backslash_of_isAlpha letter), ih]
  | call isName _ ih => rw [Text.resolveLogBases_append (not_mem_call isName), ih]
  | @command function text _ _ ih =>
      have none : (Text.afterLogMark? ('\\' :: (function.name ++ '(' :: text))).bind
          Argument.read? = none := by
        cases function <;> rfl
      rw [Text.resolveLogBases_cons none,
        Text.resolveLogBases_append (Text.not_mem_of_all_isAlpha function.all_isAlpha_name), ih]
  | @pi text _ _ _ ih =>
      have none : (Text.afterLogMark? ('\\' :: ("pi".toList ++ text))).bind Argument.read? = none :=
        rfl
      rw [Text.resolveLogBases_cons none, Text.resolveLogBases_append (by decide), ih]
  | @times text _ _ ih =>
      have none : (Text.afterLogMark? ('\\' :: ("cdot".toList ++ ' ' :: text))).bind
          Argument.read? = none := rfl
      rw [Text.resolveLogBases_cons none, Text.resolveLogBases_append (by decide),
        Text.resolveLogBases_plain (by decide), ih]

/-! ## Commands in their target form -/

theorem renameCommands_eq (renames : Renames text renamed) :
    text.renameCommands .standard = renamed := by
  induction renames with
  | nil => rw [Text.renameCommands, Text.pieces]; rfl
  | mark _ plain _ _ ih => rw [Text.renameCommands_plain plain, ih]
  | letter letter _ _ ih => rw [Text.renameCommands_plain (Text.ne_backslash_of_isAlpha letter), ih]
  | call isName _ ih => rw [Text.renameCommands_append (not_mem_call isName), ih]
  | @command function text renamed _ ih =>
      have target :
          Command.rename .standard function.name = ' ' :: (function.renamed ++ [' ']) := by
        cases function <;> decide +kernel
      rw [Text.renameCommands_word function.all_isAlpha_name function.name_ne_nil rfl, ih, target]
      simp
  | @pi text _ ends _ ih =>
      have letters : ("pi".toList).all Char.isAlpha = true := by decide
      have target : Command.rename .standard "pi".toList = ' ' :: ("pi".toList ++ [' ']) := by
        decide +kernel
      rw [Text.renameCommands_word letters (by decide) ends, ih, target]
      simp
  | @times text _ _ ih =>
      have letters : ("cdot".toList).all Char.isAlpha = true := by decide
      have target : Command.rename .standard "cdot".toList = ['*'] := by decide +kernel
      rw [Text.renameCommands_word letters (by decide) rfl, Text.renameCommands_plain (by decide),
        ih, target]
      rfl

/-! ## Functions with their arguments -/

/-- What ends a letter that stands alone also ends it when commands are renamed. -/
theorem endsRun_renamed (renames : Renames text renamed)
    (ends : text.endsRun Char.isAlpha = true) : renamed.endsRun Char.isAlpha = true := by
  cases renames with
  | nil => rfl
  | mark => exact ends
  | letter letter => simp [Text.endsRun, letter] at ends
  | call isName =>
      simp only [List.mem_cons, List.not_mem_nil, or_false] at isName
      rcases isName with rfl | rfl <;> cases ends
  | command | pi | times => rfl

theorem attachArguments_eq (renames : Renames text renamed) :
    renamed.attachArguments .standard = renamed := by
  have pass {c : Char} (noLetter : c.isAlpha = false) (plain : c ≠ '\\') (noMark : c ≠ Parked.mark)
      (rest : Text) : Text.completeCalls .standard false (c :: rest) =
        c :: rest.completeCalls .standard false :=
    Text.completeCalls_plain plain (Vocabulary.callableAt?_eq_none _ noLetter noMark rest)
  rw [Text.attachArguments]
  induction renames with
  | nil => rw [Text.completeCalls]
  | mark noLetter plain noMark _ ih => rw [pass noLetter plain noMark, ih]
  | letter letter ends later ih =>
      have noMark := Parked.ne_mark_of_isAlpha letter
      rw [Text.completeCalls_plain (Text.ne_backslash_of_isAlpha letter)
        (Vocabulary.callableAt?_single noMark (later.endsRun_renamed ends)), ih]
  | @call name text renamed isName later ih =>
      obtain ⟨callable, found, rfl⟩ : ∃ callable, Vocabulary.standard.callableAt?
          (name ++ '(' :: renamed) = some (callable, '(' :: renamed) ∧ callable.text = name := by
        simp only [List.mem_cons, List.not_mem_nil, or_false] at isName
        rcases isName with rfl | rfl <;> exact Vocabulary.exists_callableAt?_eq rfl
      rw [Text.completeCalls_group found rfl, ih]
  | @command function text renamed later ih =>
      obtain ⟨callable, found, same⟩ : ∃ callable, Vocabulary.standard.callableAt?
          (function.renamed ++ ' ' :: '(' :: renamed) = some (callable, ' ' :: '(' :: renamed) ∧
            callable.text = function.renamed := by
        cases function <;> exact Vocabulary.exists_callableAt?_eq rfl
      rw [pass rfl (by decide) (by decide), Text.completeCalls_group found rfl, same,
        pass rfl (by decide) (by decide), ih]
  | @pi text renamed ends later ih =>
      have first : Vocabulary.standard.callableAt? ('p' :: 'i' :: ' ' :: renamed) = none :=
        Vocabulary.callableAt?_eq_none_of_names rfl
      have second : Vocabulary.standard.callableAt? ('i' :: ' ' :: renamed) = none :=
        Vocabulary.callableAt?_single (by decide) rfl
      have name : Text.completeCalls .standard false ("pi".toList ++ ' ' :: renamed) =
          "pi".toList ++ Text.completeCalls .standard false (' ' :: renamed) := by
        change Text.completeCalls .standard false ('p' :: 'i' :: ' ' :: renamed) = _
        rw [Text.completeCalls_plain (by decide) first,
          Text.completeCalls_plain (by decide) second]
        rfl
      rw [pass rfl (by decide) (by decide), name, pass rfl (by decide) (by decide), ih]
  | times later ih =>
      rw [pass rfl (by decide) (by decide), pass rfl (by decide) (by decide), ih]

end Renames

/-! ## A formula on one line -/

section

variable {rest after text renamed : Text}

theorem renames_mark {c : Char}
    (isMark : c ∈ ['(', ')', '\x7b', '\x7d', '+', '-', '/', '^', '1', '.'])
    (later : Renames text renamed) : Renames (c :: text) (c :: renamed) := by
  obtain ⟨noLetter, plain, noMark⟩ : c.isAlpha = false ∧ c ≠ '\\' ∧ c ≠ Parked.mark := by
    simp only [List.mem_cons, List.not_mem_nil, or_false] at isMark
    rcases isMark with rfl | rfl | rfl | rfl | rfl | rfl | rfl | rfl | rfl | rfl <;> decide
  exact .mark noLetter plain noMark later

theorem renames_numeral {digits : Text} (all : digits.all isNumeralChar = true)
    (later : Renames rest after) : Renames (digits ++ rest) (digits ++ after) := by
  induction digits with
  | nil => exact later
  | cons c digits ih =>
      rw [List.all_cons, Bool.and_eq_true] at all
      have numeral := all.1
      simp only [isNumeralChar, Bool.or_eq_true, beq_iff_eq] at numeral
      rcases numeral with digit | rfl
      · refine .mark ?_ ?_ ?_ (ih all.2)
        · cases letter : c.isAlpha with
          | false => rfl
          | true =>
              rw [isDigit_eq_false_of_isAlpha letter] at digit
              cases digit
        · rintro rfl
          cases digit
        · rintro rfl
          cases digit
      · exact renames_mark (by decide) (ih all.2)

theorem renames_parenthesized (inside : Renames (text ++ ')' :: rest) (renamed ++ ')' :: after)) :
    Renames (text.parenthesized ++ rest) (renamed.parenthesized ++ after) := by
  rw [Text.parenthesized_append, Text.parenthesized_append]
  exact renames_mark (by decide) inside

theorem renames_braced
    (inside : Renames (text ++ '\x7d' :: rest) (renamed ++ '\x7d' :: after)) :
    Renames (text.braced ++ rest) (renamed.braced ++ after) := by
  rw [Text.braced_append, Text.braced_append]
  exact renames_mark (by decide) inside

theorem renames_call {name : Text} (isName : name ∈ ["sqrt".toList, "abs".toList])
    (inside : Renames (text ++ ')' :: rest) (renamed ++ ')' :: after)) :
    Renames (name ++ text.parenthesized ++ rest) (name ++ renamed.parenthesized ++ after) := by
  rw [List.append_assoc, List.append_assoc, Text.parenthesized_append, Text.parenthesized_append]
  exact .call isName (renames_mark (by decide) inside)

/-- What can be renamed in front of anything can be renamed as a group. -/
theorem renames_grouped (isGroup : Bool)
    (inside : ∀ {rest after : Text}, rest.endsRun isBaseChar = true → Renames rest after →
      Renames (text ++ rest) (renamed ++ after))
    (ends : rest.endsRun isBaseChar = true) (later : Renames rest after) :
    Renames (grouped isGroup text ++ rest) (grouped isGroup renamed ++ after) := by
  cases isGroup with
  | true => exact inside ends later
  | false => exact renames_parenthesized (inside rfl (renames_mark (by decide) later))

/-- The commands of a formula on one line in front of another text. -/
theorem renames_line (formula : Bracketed) (ends : rest.endsRun isBaseChar = true)
    (later : Renames rest after) :
    Renames (formula.line .linear ++ rest) (formula.line .renamed ++ after) := by
  induction formula generalizing rest after with
  | numeral digits => exact renames_numeral digits.all_isNumeralChar later
  | letter symbol =>
      exact .letter symbol.isAlpha (Text.endsRun_mono ends isBaseChar_of_isAlpha) later
  | pi => exact .pi (Text.endsRun_mono ends isBaseChar_of_isAlpha) later
  | joined joint left right ihLeft ihRight =>
      have closed := renames_mark (c := ')') (by decide) later
      rw [line_joined, line_joined]
      cases joint with
      | sum | difference =>
          refine renames_parenthesized ?_
          rw [List.append_assoc, List.append_assoc]
          exact ihLeft rfl (renames_mark (by decide) (ihRight rfl closed))
      | product =>
          refine renames_parenthesized ?_
          simp only [List.append_assoc]
          exact ihLeft rfl (.times (ihRight rfl closed))
      | juxtaposition =>
          refine renames_parenthesized ?_
          rw [List.append_assoc, List.append_assoc]
          refine renames_parenthesized (ihLeft rfl (renames_mark (by decide) ?_))
          exact renames_parenthesized (ihRight rfl (renames_mark (by decide) closed))
  | fraction numerator denominator ihNumerator ihDenominator =>
      rw [line_fraction, line_fraction]
      refine renames_parenthesized ?_
      rw [List.append_assoc, List.append_assoc]
      refine renames_grouped _ ihNumerator rfl (renames_mark (by decide) ?_)
      exact renames_grouped _ ihDenominator rfl (renames_mark (by decide) later)
  | root radicand ih =>
      rw [line_root, line_root]
      refine renames_parenthesized ?_
      refine renames_call (by decide) (ih rfl (renames_mark (by decide) ?_))
      exact renames_mark (by decide) later
  | indexedRoot index radicand ihIndex ihRadicand =>
      rw [line_indexedRoot, line_indexedRoot]
      refine renames_parenthesized ?_
      rw [List.append_assoc, List.append_assoc]
      refine renames_grouped _ ihRadicand rfl (renames_mark (by decide) ?_)
      refine renames_parenthesized (renames_mark (by decide) (renames_mark (by decide) ?_))
      refine renames_grouped _ ihIndex rfl (renames_mark (by decide) ?_)
      exact renames_mark (by decide) later
  | absolute inside ih =>
      rw [line_absolute, line_absolute]
      exact renames_call (by decide) (ih rfl (renames_mark (by decide) later))
  | application function argument ih =>
      rw [line_application_linear, line_application_renamed]
      simp only [List.cons_append, List.append_assoc, Text.parenthesized_append]
      exact .command function (renames_mark (by decide) (ih rfl (renames_mark (by decide) later)))
  | letterPower base exponent ih =>
      refine .letter base.isAlpha rfl (renames_mark (by decide) ?_)
      exact renames_braced (ih rfl (renames_mark (by decide) later))
  | groupPower base exponent ihBase ihExponent =>
      rw [line_groupPower, line_groupPower, List.append_assoc, List.append_assoc]
      refine renames_parenthesized (ihBase rfl (renames_mark (by decide) ?_))
      refine renames_mark (by decide) ?_
      exact renames_braced (ihExponent rfl (renames_mark (by decide) later))

/-- Inverse functions, bases, commands and arguments of a formula on one line. -/
theorem attachArguments_line (formula : Bracketed) :
    (((((formula.line .linear).resolveInverses .standard).resolveLogBases .standard).renameCommands
      .standard).attachArguments .standard) = formula.line .renamed := by
  have whole : Renames (formula.line .linear ++ []) (formula.line .renamed ++ []) :=
    renames_line formula rfl .nil
  rw [List.append_nil, List.append_nil] at whole
  rw [whole.resolveInverses_eq, whole.resolveLogBases_eq, whole.renameCommands_eq,
    whole.attachArguments_eq]

end

end Bracketed

end TexCalc
