import TexCalc.Proofs.Alphabet.Finished
import TexCalc.Proofs.Marks.Replaced

/-!
# Marks while commands are renamed

A reciprocal function brings its whole name between two blanks.  Every other target form begins
with something that is no letter, and brings no mark.  Control sequences that are left keep what
they hide.
-/

namespace TexCalc

open Parked (mark)
open Text (HasMarks)

namespace Command

variable {inside : Bool} {torn : Nat} {right name : Text}

/-- A target form begins with a blank or a sign. -/
theorem exists_target_eq (options : Options) {command : Command}
    (found : named? name = some command) (other : command ≠ structural) (source : Text) :
    ∃ c form, command.target options source = c :: form ∧ c.isAlpha = false := by
  have inTable : ∀ entry ∈ table, ∀ sign ∈ [Sign.plus, Sign.minus],
      entry.2 = structural ∨
        (entry.2.target ⟨true, sign, .common⟩ []).head?.all (!·.isAlpha) = true := by
    decide
  have noLetter (sign : Sign) : sign.char.isAlpha = false := by cases sign <;> decide
  have inEntry := inTable _ (mem_table_of_named? found) .plus (by decide)
  cases command with
  | structural => exact absurd rfl other
  | operator sign => exact ⟨sign, [], rfl, by simpa [target] using inEntry⟩
  | plusMinus => exact ⟨_, [], rfl, noLetter options.plusMinus⟩
  | minusPlus => exact ⟨_, [], rfl, noLetter options.plusMinus.opposite⟩
  | _ => exact ⟨' ', _, rfl, by decide⟩

/-- A target form has its mark whole and can be followed by anything. -/
theorem hasMarks_target_append (options : Options) {command : Command}
    (found : named? name = some command) (other : command ≠ structural) (source : Text)
    (later : HasMarks true false false torn right) :
    HasMarks true false inside torn (command.target options source ++ right) := by
  have blank {inside : Bool} {text : Text} (later : HasMarks true false false torn text) :
      HasMarks true false inside torn (' ' :: text) :=
    .cons (by decide) (by decide) (by decide) later
  cases isReciprocal : command.reciprocal? with
  | some parked =>
      cases command with
      | reciprocal ratio =>
          have written : (reciprocal ratio).target options source ++ right =
              ' ' :: (Parked.name ⟨ratio, false⟩ ++ ' ' :: right) := by
            rw [target, List.append_assoc]
            rfl
          rw [written]
          exact blank ((Callable.parked ⟨ratio, false⟩).hasMarks_append (blank later))
      | _ => cases isReciprocal
  | none =>
      have noMark := mark_not_mem_target options found other isReciprocal source
      have plain := not_mem_target options found other source
      obtain ⟨c, form, shape, noLetter⟩ := exists_target_eq options found other source
      rw [shape, List.mem_cons, not_or] at noMark plain
      rw [shape]
      exact .cons (Ne.symm noMark.1) noLetter (Ne.symm plain.1)
        (.plain_append noMark.2 plain.2 later)

/-- A control sequence keeps its name behind its backslash or is replaced by a target form. -/
theorem hasMarks_rename_append (options : Options) (isName : Control.IsName name)
    (later : HasMarks true false (Text.insideWord true name) torn right) :
    HasMarks true false inside torn (rename options name ++ right) := by
  rcases rename_cases options name with kept | ⟨key, command, source, rest, found, other, rfl, form⟩
  · rw [kept]
    exact .control_append isName later
  · have letters := all_isAlpha_of_named? found
      (isName.imp And.right fun ⟨c, same, _⟩ => ⟨c, same⟩)
    rw [form, List.append_assoc]
    exact hasMarks_target_append options found other source
      (.plain_append (Text.mark_not_mem_of_all_isAlpha letters)
        (Text.not_mem_of_all_isAlpha letters) later.outside)

end Command

namespace Text

/-- Renaming brings whole names and takes none apart. -/
theorem hasMarks_renameCommands (options : Options) {text : Text} {inside : Bool} {torn : Nat}
    (marks : HasMarks true false inside torn text) :
    HasMarks true false inside torn (text.renameCommands options) := by
  have plainStep (c : Char) (rest : Text) (plain : c ≠ '\\') :
      renameCommands options (c :: rest) = c :: renameCommands options rest :=
    renameCommands_plain plain rest
  unfold renameCommands
  fun_induction pieces text generalizing inside torn with
  | case1 => exact marks
  | case2 rest control isControl ih =>
      rw [Control.eq_of_read? isControl] at marks
      have isName := Control.isName_of_read? isControl
      exact Command.hasMarks_rename_append options isName (ih (marks.of_control isName))
  | case3 rest isNone =>
      rw [Control.read?_eq_none_iff.1 isNone] at marks
      exact marks
  | case4 c rest plain ih =>
      cases marks with
      | other other later =>
          refine .other other ?_
          rw [beq_false_of_ne plain, Bool.false_and] at later ⊢
          exact ih later
      | named allowed isNamed later =>
          have letters := takeWhile_prefix_of_plain (renameCommands options) plainStep rest
          exact .named allowed (Parked.isSome_read?_of_letters letters isNamed) (ih later)
      | torn shut later =>
          have empty : renameCommands options [] = [] := by
            rw [renameCommands, pieces]
            rfl
          exact .torn (isShut_of_plain (renameCommands options) plainStep empty shut) (ih later)

/-- When calls are completed, all names are still whole but for the bases that are the mark
alone. -/
theorem hasMarks_beforeWritingOut (vocabulary : Vocabulary) (options : Options) (formula : Text) :
    HasMarks true false false
      ((formula.normal.resolveStructures.resolveInverses vocabulary).logBases vocabulary
        |>.count [mark])
      (formula.normal.beforeWritingOut vocabulary options) :=
  have renamed := hasMarks_renameCommands options (hasMarks_beforeRenaming vocabulary formula)
  hasMarks_completeCalls vocabulary (fun hidden => by cases hidden) renamed

end Text

end TexCalc
