import TexCalc.Proofs.Alphabet.Carried
import TexCalc.Proofs.Exchanged.Steps
import TexCalc.Proofs.Words.Leftover

/-!
# The linear form of respelled texts

Once the renaming has asked the options what the exchanged commands stand for, nothing is left of
the difference, if the options of the two texts differ in just the same way.  Until then a logarithm
with a base is told by its name, so that `\log` and `\ln` change places only in a text without
subscripts.
-/

namespace TexCalc

/-- Without a subscript there is no base. -/
theorem Text.resolveLogBases_of_subscript_not_mem (vocabulary : Vocabulary) {text : Text}
    (noSubscript : '_' ∉ text) : text.resolveLogBases vocabulary = text := by
  induction text with
  | nil => rw [resolveLogBases]
  | cons c rest ih =>
      rw [resolveLogBases_cons, ih fun isMember => noSubscript (List.mem_cons_of_mem c isMember)]
      cases found : (afterLogMark? (c :: rest)).bind Argument.read? with
      | none => rfl
      | some base =>
          obtain ⟨blanks, after, split, _⟩ := exists_of_logBase? found
          refine absurd ?_ noSubscript
          rw [split]
          simp

/-- The target form of a command that no option decides on. -/
theorem Command.rename_eq_of_options {options options' : Options} {name : Text}
    (sameMode : options'.strict = options.strict) (strict : options.strict = true)
    (same : ∀ command, named? name = some command →
      ∀ source, command.target options' source = command.target options source) :
    rename options' name = rename options name := by
  simp only [rename, sameMode, strict]
  cases found : named? name with
  | none => rfl
  | some command => exact same command found _

namespace Exchange

variable {exchange : Exchange} {text other : Text} {options options' : Options}

/-- What the commands of one text stand for under the first options, the commands in their places
stand for under the second ones. -/
inductive Agree : Exchange → Options → Options → Prop where
  | signs (sign : Sign) (base : LogBase) :
      Agree .signs ⟨true, sign, base⟩ ⟨true, sign.opposite, base⟩
  | logs (sign : Sign) (base : LogBase) : Agree .logs ⟨true, sign, .natural⟩ ⟨true, sign, base⟩

namespace Agree

variable (agree : exchange.Agree options options')

include agree

theorem target_eq {command : Command} (found : Command.named? text = some command)
    (other : ∀ pair ∈ exchange.pairs, text ≠ pair.1) (source : Text) :
    command.target options' source = command.target options source := by
  have isMember := Command.mem_table_of_named? found
  have plusMinus : ∀ entry ∈ Command.table, entry.2 = .plusMinus → entry.1 = "pm".toList := by
    decide
  have minusPlus : ∀ entry ∈ Command.table, entry.2 = .minusPlus → entry.1 = "mp".toList := by
    decide
  have log : ∀ entry ∈ Command.table, entry.2 = .log → entry.1 = "log".toList := by decide
  cases agree with
  | signs sign base =>
      cases command with
      | plusMinus =>
          exact absurd (plusMinus _ isMember rfl) (other ("pm".toList, "mp".toList) (by decide))
      | minusPlus =>
          exact absurd (minusPlus _ isMember rfl) (other ("mp".toList, "pm".toList) (by decide))
      | _ => rfl
  | logs sign base =>
      cases command with
      | log => exact absurd (log _ isMember rfl) (other ("log".toList, "ln".toList) (by decide))
      | _ => rfl

/-- A command becomes what the one in its place becomes. -/
theorem rename_name (name : Text) :
    Command.rename options' (exchange.name name) = Command.rename options name := by
  by_cases exchanged : ∃ pair ∈ exchange.pairs, name = pair.1
  · obtain ⟨pair, isMember, rfl⟩ := exchanged
    cases agree with
    | signs sign base =>
        simp only [pairs, List.mem_cons, List.not_mem_nil, or_false] at isMember
        cases sign <;> rcases isMember with rfl | rfl <;> rfl
    | logs sign base =>
        obtain rfl := List.mem_singleton.1 isMember
        rfl
  · simp only [not_exists, not_and] at exchanged
    rw [name_of_forall_ne exchanged]
    have strict : options.strict = true ∧ options'.strict = true := by
      cases agree <;> exact ⟨rfl, rfl⟩
    exact Command.rename_eq_of_options (strict.2.trans strict.1.symm) strict.1
      fun _ found => agree.target_eq found exchanged

end Agree

namespace Respelled

variable (respelled : exchange.Respelled true text other)

include respelled

/-- After the renaming both texts are the same. -/
theorem renameCommands_eq (agree : exchange.Agree options options') :
    other.renameCommands options' = text.renameCommands options := by
  induction respelled with
  | nil => rw [Text.renameCommands, Text.renameCommands, Text.pieces]; rfl
  | backslash raw => cases raw
  | plain plain _ ih =>
      rw [Text.renameCommands_plain plain, Text.renameCommands_plain plain, ih]
  | @control old new _ _ spells ends later ih =>
      obtain ⟨isOld, isNew⟩ := spells.read? ends later
      obtain ⟨_, _, rfl⟩ := spells
      unfold Text.renameCommands at ih ⊢
      rw [Text.pieces_control isOld, Text.pieces_control isNew, List.flatMap_cons,
        List.flatMap_cons, ih]
      exact congrArg (· ++ _) (agree.rename_name old)

theorem beforeRenaming (admitted : exchange = .signs ∨ '_' ∉ text) (vocabulary : Vocabulary) :
    exchange.Respelled true (text.beforeRenaming vocabulary) (other.beforeRenaming vocabulary) := by
  have inverted := respelled.resolveStructures.resolveInverses vocabulary
  rcases admitted with isSigns | noSubscript
  · exact inverted.resolveLogBases_signs isSigns vocabulary
  · have noBase : '_' ∉ text.resolveStructures.resolveInverses vocabulary := by
      rw [← List.count_eq_zero, Text.count_resolveInverses (by decide) (by decide),
        Text.count_resolveStructures (by decide)]
      exact List.count_eq_zero.2 noSubscript
    have noBase' := mt (inverted.mem_iff rfl (by decide) (by decide)).1 noBase
    rw [Text.beforeRenaming, Text.beforeRenaming,
      Text.resolveLogBases_of_subscript_not_mem vocabulary noBase,
      Text.resolveLogBases_of_subscript_not_mem vocabulary noBase']
    exact inverted

/-- Both texts have the same linear form. -/
theorem linear_eq (admitted : exchange = .signs ∨ '_' ∉ text)
    (agree : exchange.Agree options options') (vocabulary : Vocabulary) :
    other.linear vocabulary options' = text.linear vocabulary options := by
  have renamed := (respelled.beforeRenaming admitted vocabulary).renameCommands_eq agree
  simp only [Text.beforeRenaming] at renamed
  simp only [Text.linear, renamed]

end Respelled

end Exchange

end TexCalc
