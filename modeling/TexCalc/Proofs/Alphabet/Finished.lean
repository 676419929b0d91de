import TexCalc.Proofs.Alphabet.Carried
import TexCalc.Proofs.Tex.Lexemes

/-!
# Foreign characters after the renaming

Target forms hold no foreign character but the mark, and neither renaming, nor writing out parked
functions, nor forming powers, nor making the text flat removes one.
-/

namespace TexCalc

namespace Command

theorem allTargets_not_isForeign : AllTargets (fun c => c == Parked.mark || !isForeign c) := by
  decide

/-- The parked function that a command stands for. -/
def reciprocal? : Command → Option Parked
  | reciprocal ratio => some ⟨ratio, false⟩
  | _ => none

/-- The parked function that a control sequence is renamed to. -/
def parked? (options : Options) (name : Text) : Option Parked :=
  match named? name with
  | some command => command.reciprocal?
  | none =>
      match if options.strict then none else fused? name with
      | some (_, command) => command.reciprocal?
      | none => none

/-- Only the target forms of parked functions have a mark. -/
theorem mark_not_mem_target (options : Options) {name : Text} {command : Command}
    (found : named? name = some command) (other : command ≠ structural)
    (noReciprocal : command.reciprocal? = none) (source : Text) :
    Parked.mark ∉ command.target options source := by
  have inTable : ∀ plusMinus ∈ [Sign.plus, Sign.minus],
      ∀ logBase ∈ [LogBase.common, LogBase.natural], ∀ entry ∈ table,
        entry.2 = structural ∨ entry.2 ∈ [reciprocal .sec, reciprocal .csc, reciprocal .cot] ∨
          Parked.mark ∉ entry.2.target ⟨true, plusMinus, logBase⟩ [] := by
    decide
  obtain ⟨strict, plusMinus, logBase⟩ := options
  have signs : plusMinus ∈ [Sign.plus, Sign.minus] := by cases plusMinus <;> decide
  have bases : logBase ∈ [LogBase.common, LogBase.natural] := by cases logBase <;> decide
  rcases inTable plusMinus signs logBase bases _ (mem_table_of_named? found) with
    same | isReciprocal | noMark
  · exact absurd same other
  · simp only [List.mem_cons, List.not_mem_nil, or_false] at isReciprocal
    rcases isReciprocal with rfl | rfl | rfl <;> cases noReciprocal
  · cases command with
    | structural => exact absurd rfl other
    | _ => exact noMark

/-- A target form has no foreign character but the mark of a parked name. -/
theorem count_target {c : Char} (foreign : isForeign c = true) (options : Options) {name : Text}
    {command : Command} (found : named? name = some command) (other : command ≠ structural)
    (source : Text) :
    (command.target options source).count c =
      if c = Parked.mark then command.reciprocal?.toList.length else 0 := by
  by_cases same : c = Parked.mark
  · rw [if_pos same, same]
    cases isReciprocal : command.reciprocal? with
    | none =>
        exact List.count_eq_zero.2 (mark_not_mem_target options found other isReciprocal source)
    | some parked =>
        cases command with
        | reciprocal ratio => cases ratio <;> rfl
        | _ => cases isReciprocal
  · rw [if_neg same, List.count_eq_zero]
    intro isMember
    have here := List.all_eq_true.1
      (allTargets_not_isForeign.all_target options found other source) c isMember
    simp [same, foreign] at here

/-- A renamed control sequence has the foreign characters of its name, and the mark of a parked
name.  The name of a command goes. -/
theorem count_rename {c : Char} (foreign : isForeign c = true) (options : Options) {name : Text}
    (isName : Control.IsName name) (goes : (named? name).isSome = true → name.count c = 0) :
    (rename options name).count c = name.count c +
      if c = Parked.mark then (parked? options name).toList.length else 0 := by
  have kept : List.count c ('\\' :: name) = name.count c :=
    Text.count_cons_of_known foreign (by decide) name
  cases found : named? name with
  | some command =>
      simp only [rename, parked?, found]
      by_cases same : command = structural
      · rw [same]
        simpa [target, reciprocal?] using kept
      · rw [count_target foreign options found same, goes (by rw [found]; rfl), Nat.zero_add]
  | none =>
      cases split : if options.strict then none else fused? name with
      | none =>
          simp only [rename, parked?, found, split]
          rw [kept]
          simp
      | some parts =>
          obtain ⟨key, command⟩ := parts
          simp only [rename, parked?, found, split]
          have fused : fused? name = some (key, command) := by
            cases strict : options.strict with
            | true => simp [strict] at split
            | false => simpa [strict] using split
          obtain ⟨isTarget, isNamed⟩ := named?_of_fused? fused
          have other : command ≠ structural := by
            rintro rfl
            cases isNamed
          have none : name.count c = 0 := by
            rcases isName with ⟨_, letters⟩ | ⟨d, rfl, _⟩
            · exact Text.count_eq_zero_of_all_isAlpha foreign letters
            · cases fused
          have rest := (List.drop_sublist key.length name).count_le c
          rw [List.count_append, count_target foreign options isTarget other]
          omega

end Command

namespace Parked

variable {c : Char} (foreign : isForeign c = true) (other : c ≠ mark)

include foreign

theorem count_target (parked : Parked) : parked.target.count c = 0 := by
  apply Text.count_eq_zero_of_all foreign
  rcases parked with ⟨function, inverse⟩
  cases function <;> cases inverse <;> decide

theorem count_applied (parked : Parked) (argument : Text) :
    (parked.applied argument).count c = argument.count c := by
  have quotient := Text.count_eq_zero_of_all foreign
    (show ("1/".toList).all (!isForeign ·) = true by decide)
  unfold applied
  split <;> simp only [List.count_append, Text.count_parenthesized_of_isForeign foreign,
    Text.count_wrap_of_isForeign foreign, count_target foreign, quotient, Nat.zero_add]

theorem count_bare (parked : Parked) : parked.bare.count c = 0 := by
  have quotient := Text.count_eq_zero_of_all foreign
    (show ("1/".toList).all (!isForeign ·) = true by decide)
  unfold bare
  split <;> simp only [List.count_append, Text.count_parenthesized_of_isForeign foreign,
    count_target foreign, quotient, Nat.zero_add]

/-- Writing out a function keeps the characters of the text after it. -/
theorem count_writtenOut (parked : Parked) (text : Text) :
    (parked.writtenOut text).count c = text.count c := by
  rcases parked.writtenOut_cases text with
    bare | ⟨bracket, rest, group, start, opens, isGroup, applied⟩
  · rw [bare, List.count_append, count_bare foreign, Nat.zero_add]
  · have skipped := Text.count_skipBlanks_of_isForeign foreign text
    rw [applied, List.count_append, count_applied foreign, ← skipped, start,
      Text.count_cons_of_group? foreign opens isGroup]

include other

theorem count_name (parked : Parked) : parked.name.count c = 0 := by
  have noName : (if parked.inverse then 'a' :: parked.function.name
      else parked.function.name).count c = 0 := by
    apply Text.count_eq_zero_of_all foreign
    rcases parked with ⟨function, inverse⟩
    cases function <;> cases inverse <;> decide
  rw [name, List.count_cons_of_ne (Ne.symm other), noName]

theorem count_writeOutLast? {text written : Text} (found : writeOutLast? text = some written) :
    written.count c = text.count c := by
  apply writeOutLast?_induct (motive := fun text written => written.count c = text.count c)
    _ _ found
  · intro parked after
    rw [List.count_append, count_name foreign other, count_writtenOut foreign, Nat.zero_add]
  · intro d rest later _ ih
    rw [List.count_cons, List.count_cons, ih]

theorem count_writeOutUpTo_of_isForeign (rounds : Nat) (text : Text) :
    (writeOutUpTo rounds text).count c = text.count c := by
  apply writeOutUpTo_induct (motive := fun written => written.count c = text.count c) _ _ rfl
  intro text written found kept
  exact (count_writeOutLast? foreign other found).trans kept

end Parked

namespace Text

variable {c : Char} (foreign : isForeign c = true)

include foreign

/-- The parked functions that commands are renamed to, in order. -/
def parkedCommands (options : Options) (text : Text) : List Parked :=
  text.pieces.filterMap fun
    | .control name => Command.parked? options name
    | .plain _ => none

/-- Renaming keeps the foreign characters that are in no name of a command, and puts in a mark for
each parked function. -/
theorem count_renameCommands_eq_add (options : Options) {text : Text}
    (goes : text.HasWordsOnly ∨ ∀ entry ∈ Command.table, entry.1.count c = 0) :
    (text.renameCommands options).count c = text.count c +
      if c = Parked.mark then (text.parkedCommands options).length else 0 := by
  unfold renameCommands parkedCommands
  fun_induction pieces text with
  | case1 => simp
  | case2 rest control isControl ih =>
      have later := ih (goes.imp_left fun only => only.of_control isControl)
      have here := Command.count_rename foreign options (Control.isName_of_read? isControl)
        (by
          intro found
          rcases goes with only | inTable
          · obtain ⟨_, letters, _, _⟩ := control_of_hasWordsOnly only isControl
            exact count_eq_zero_of_all_isAlpha foreign letters
          · obtain ⟨command, found⟩ := Option.isSome_iff_exists.1 found
            exact inTable _ (Command.mem_table_of_named? found))
      have source : List.count c ('\\' :: rest) = control.name.count c + control.rest.count c := by
        rw [count_cons_of_known foreign (by decide), ← List.count_append,
          ← Control.eq_of_read? isControl]
      rw [List.flatMap_cons, List.count_append, later, source, List.filterMap_cons]
      simp only [Piece.rename, here]
      cases Command.parked? options control.name with
      | none => simp [Nat.add_assoc]
      | some parked =>
          simp only [Option.toList_some, List.length_cons, List.length_nil]
          split <;> omega
  | case3 rest isNone =>
      rw [Control.read?_eq_none_iff.1 isNone]
      simp [Piece.rename]
  | case4 d rest _ ih =>
      have later := ih (goes.imp_left HasWordsOnly.tail)
      have here : List.count c (Piece.rename options (.plain d)) = List.count c [d] := rfl
      have whole : List.count c (d :: rest) = List.count c [d] + rest.count c := by
        rw [← List.singleton_append, List.count_append]
      rw [List.flatMap_cons, List.count_append, later, here, whole, List.filterMap_cons,
        Nat.add_assoc]

theorem count_renameCommands_of_isForeign (other : c ≠ Parked.mark) (options : Options)
    {text : Text} (only : text.HasWordsOnly) :
    (text.renameCommands options).count c = text.count c := by
  rw [count_renameCommands_eq_add foreign options (.inl only), if_neg other, Nat.add_zero]

theorem count_expandParked_of_isForeign (other : c ≠ Parked.mark) (text : Text) :
    text.expandParked.count c = text.count c :=
  Parked.count_writeOutUpTo_of_isForeign foreign other _ text

/-! ## Powers -/

theorem count_eq_zero_of_all_isBaseChar {run : Text} (all : run.all isBaseChar = true) :
    run.count c = 0 := by
  rw [List.count_eq_zero]
  intro isMember
  have base := List.all_eq_true.1 all c isMember
  have outside := isOutput_eq_false_of_isForeign foreign
  simp only [isBaseChar, Bool.or_eq_true, beq_iff_eq] at base
  rcases base with word | rfl
  · exact ne_of_isAlphanum_of_isForeign foreign word rfl
  · exact absurd outside (by decide)

theorem count_power_of_isForeign {base : Text} (plain : base.count c = 0) (exponent : Text) :
    (power base exponent).count c = exponent.count c := by
  have name := count_eq_zero_of_all foreign
    (show ("exp".toList).all (!isForeign ·) = true by decide)
  unfold power
  split
  · rename_i coefficient found
    have part : List.count c coefficient = 0 := by
      simp only [beforeEuler?] at found
      split at found
      · split at found
        · cases found
          have fewer := (List.dropLast_sublist base).count_le c
          omega
        · cases found
      · cases found
    rw [List.count_append, part, exponential]
    split <;> simp only [List.count_append, name, count_parenthesized_of_isForeign foreign,
      Nat.zero_add]
  · rw [count_parenthesized_of_isForeign foreign, List.count_append, plain,
      count_cons_of_known foreign (by decide), Nat.zero_add]

/-- Forming powers keeps the foreign characters. -/
theorem count_resolveExponents (vocabulary : Vocabulary) (text : Text) :
    (text.resolveExponents vocabulary).count c = text.count c := by
  have noCaret (text : Text) : List.count c ('^' :: text) = text.count c :=
    count_cons_of_known foreign (by decide) text
  apply resolveExponents_induct vocabulary (motive := fun text raised =>
    raised.count c = text.count c)
  · intro run _
    rfl
  · intro run gap script exponent all blank isExponent ih
    have plain := count_eq_zero_of_all_isBaseChar foreign all
    have noGap : gap.count c = 0 := by
      apply count_eq_zero_of_isAllBlank (isBlank_eq_false_of_isForeign foreign)
      rw [isAllBlank, List.all_eq_true]
      intro d isMember
      exact isBlank_of_isAsciiBlank (List.all_eq_true.1 blank d isMember)
    rw [List.count_append, List.count_append, List.count_append, plain, noGap, noCaret, ← ih,
      count_power_of_isForeign foreign plain, count_of_exponent? foreign isExponent,
      Nat.zero_add, Nat.zero_add]
  · intro run gap script _ _ ih
    rw [List.count_append, List.count_append, noCaret, List.count_append, List.count_append,
      noCaret, ih]
  · intro run d rest _ ih
    rw [List.count_append, List.count_append, List.count_cons, List.count_cons, ih]

/-! ## Flat text -/

theorem count_joinGroups_of_isForeign (text : Text) :
    (joinGroups text).count c = text.count c := by
  fun_induction joinGroups text with
  | case1 => rfl
  | case2 rest after next ih =>
      have sign := count_eq_zero_of_all foreign
        (show (")*(".toList).all (!isForeign ·) = true by decide)
      rw [List.count_append, sign, Nat.zero_add, ih, count_cons_of_known foreign (by decide),
        ← count_trimStart_of_isForeign foreign rest, next, count_cons_of_known foreign (by decide)]
  | case3 rest _ ih | case4 _ rest _ ih => rw [List.count_cons, List.count_cons, ih]

theorem count_map_flatBracket_of_isForeign (text : Text) :
    List.count c (text.map flatBracket) = text.count c := by
  induction text with
  | nil => rfl
  | cons d rest ih =>
      have same : (flatBracket d == c) = (d == c) := by
        unfold flatBracket
        split
        · rename_i opener
          have bracket : isForeign d = false := by rcases opener with rfl | rfl <;> decide
          rw [beq_eq_false_iff_ne.2 (ne_of_isForeign foreign bracket),
            beq_eq_false_iff_ne.2 (ne_of_isForeign foreign (by decide))]
        · split
          · rename_i closer
            have bracket : isForeign d = false := by rcases closer with rfl | rfl <;> decide
            rw [beq_eq_false_iff_ne.2 (ne_of_isForeign foreign bracket),
              beq_eq_false_iff_ne.2 (ne_of_isForeign foreign (by decide))]
          · rfl
      rw [List.map_cons, List.count_cons, List.count_cons, ih, same]

theorem count_flatten_of_isForeign (text : Text) : text.flatten.count c = text.count c := by
  rw [flatten, count_trim_of_isForeign foreign, collapseBlanks,
    count_collapseAfter (isBlank_eq_false_of_isForeign foreign),
    count_map_flatBracket_of_isForeign foreign,
    count_joinGroups_of_isForeign foreign]

/-- A foreign character other than the mark is in the linear form as often as it was when commands
were renamed. -/
theorem count_linear (other : c ≠ Parked.mark) (vocabulary : Vocabulary) (options : Options)
    {text : Text} (only : text.HasWordsOnly) :
    (text.linear vocabulary options).count c = (text.beforeRenaming vocabulary).count c := by
  have based := hasWordsOnly_beforeRenaming vocabulary only
  rw [linear, count_flatten_of_isForeign foreign, count_resolveExponents foreign,
    count_expandParked_of_isForeign foreign other, count_attachArguments_of_isForeign foreign]
  exact count_renameCommands_of_isForeign foreign other options based

end Text

end TexCalc
