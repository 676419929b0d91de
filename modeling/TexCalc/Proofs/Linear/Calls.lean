import TexCalc.Linear.Call
import TexCalc.Linear.Reciprocal
import TexCalc.Proofs.Linear.Structures
import TexCalc.Proofs.Tex.Arguments
import TexCalc.Proofs.Text.Settling
import TexCalc.Proofs.Vocabulary.Standard
import TexCalc.Proofs.Words.Calls

/-!
# Calls that are complete

A parked name is told by its mark.  What stands behind it has been written out when it is written
out itself, so that it is enough to know the group behind it in its final form.

A function with a group behind it has its argument, and a character at which no function begins
is passed over.  Where a text has no backslash, the steps that replace commands leave it as it is,
and what is done to it begins with the calls.
-/

namespace TexCalc

/-! ## Reciprocal functions -/

namespace Parked

theorem writeOutUpTo_of_settles {rounds : Nat} {text result : Text}
    (settles : Settles writeOutLast? rounds text result) : writeOutUpTo rounds text = result := by
  induction settles with
  | @rest rounds text still =>
      cases rounds with
      | zero => rfl
      | succ rounds => simp only [writeOutUpTo, still]
  | step moves _ ih => simp only [writeOutUpTo, moves, ih]

variable {front text result : Text}

theorem writeOutLast?_append {next : Text} (isNext : writeOutLast? text = some next) :
    writeOutLast? (front ++ text) = some (front ++ next) := by
  induction front with
  | nil => exact isNext
  | cons c front ih => simp only [List.cons_append, writeOutLast?, ih]

/-- Without a mark nothing is written out. -/
theorem writeOutLast?_append_eq_none (noMark : mark ∉ front) (still : writeOutLast? text = none) :
    writeOutLast? (front ++ text) = none := by
  induction front with
  | nil => exact still
  | cons c front ih =>
      rw [List.mem_cons, not_or] at noMark
      simp only [List.cons_append, writeOutLast?, ih noMark.2, read?_eq_none (Ne.symm noMark.1),
        Option.map_none]

theorem count_append (noMark : mark ∉ front) (text : Text) : count (front ++ text) = count text := by
  induction front with
  | nil => rfl
  | cons c front ih =>
      rw [List.mem_cons, not_or] at noMark
      rw [List.cons_append, count, read?_eq_none (Ne.symm noMark.1), ih noMark.2]
      simp

/-- The text becomes the result, and no mark is left in it. -/
structure Expands (text result : Text) : Prop where
  settles : Settles writeOutLast? (count text) text result
  noMark : mark ∉ result

namespace Expands

theorem nil : Expands [] [] where
  settles := .rest rfl
  noMark := List.not_mem_nil

theorem append (noMark : mark ∉ front) (expands : Expands text result) :
    Expands (front ++ text) (front ++ result) where
  settles := by
    rw [count_append noMark]
    refine expands.settles.behind front (fun _ => True) ?_ trivial ?_
    · exact fun text next _ isNext => ⟨writeOutLast?_append isNext, trivial⟩
    · exact fun text _ still => writeOutLast?_append_eq_none noMark still
  noMark := by
    rw [List.mem_append, not_or]
    exact ⟨noMark, expands.noMark⟩

theorem cons {c : Char} (noMark : c ≠ mark) (expands : Expands text result) :
    Expands (c :: text) (c :: result) := by
  have alone : mark ∉ [c] := by simpa using Ne.symm noMark
  exact expands.append alone

/-- A parked reciprocal function with a group behind it, blanks apart. -/
theorem reciprocal {inside after gap : Text} (function : Reciprocal) (neutral : inside.IsNeutral)
    (blank : gap.all isAsciiBlank = true)
    (expands : Expands text (gap ++ (inside.parenthesized ++ after))) :
    Expands (name ⟨function, false⟩ ++ text)
      (Text.parenthesized ("1/".toList ++ (function.base ++ inside.parenthesized)) ++ after) := by
  have noMark : mark ∉ function.name := by
    cases function <;> decide
  have isRead (text : Text) :
      read? (mark :: (function.name ++ text)) = some (⟨function, false⟩, text) :=
    read?_eq_some_iff.2 rfl
  have written : writtenOut ⟨function, false⟩ (gap ++ (inside.parenthesized ++ after)) =
      Text.parenthesized ("1/".toList ++ (function.base ++ inside.parenthesized)) ++ after := by
    have skipped : Text.skipBlanks (gap ++ (inside.parenthesized ++ after)) =
        '(' :: (inside ++ ')' :: after) := by
      rw [Text.skipBlanks, List.dropWhile_append_of_pos (List.all_eq_true.1 blank),
        Text.parenthesized_append]
      rfl
    have round : Bracket.ofArgument? '(' = some .round := by decide
    have group : Bracket.round.group? (inside ++ ')' :: after) = some ⟨inside, after⟩ :=
      neutral.group? .round after
    simp only [writtenOut, skipped, round, Option.bind_some, group]
    rfl
  have noneLeft : mark ∉
      Text.parenthesized ("1/".toList ++ (function.base ++ inside.parenthesized)) ++ after := by
    have noneFront : mark ∉ Text.parenthesized ("1/".toList ++ function.base) := by
      cases function <;> decide
    have noneInside := expands.noMark
    simp only [Text.parenthesized, List.mem_append, List.mem_cons, not_or] at noneFront noneInside ⊢
    exact ⟨⟨noneFront.1, ⟨noneFront.2.1.1, noneFront.2.1.2, noneInside.2.1⟩, noneFront.2.2⟩,
      noneInside.2.2⟩
  refine ⟨?_, noneLeft⟩
  have rounds : count (name ⟨function, false⟩ ++ text) = count text + 1 := by
    change count (mark :: (function.name ++ text)) = _
    rw [count, count_append noMark, isRead, Nat.add_comm]
    rfl
  rw [rounds]
  refine expands.settles.last (name ⟨function, false⟩) (fun _ => True) ?_ trivial ?_ ?_
  · exact fun text next _ isNext => ⟨writeOutLast?_append isNext, trivial⟩
  · have still := writeOutLast?_append_eq_none noMark expands.settles.still
    change writeOutLast? (mark :: (function.name ++ (gap ++ (inside.parenthesized ++ after)))) = _
    rw [writeOutLast?, still]
    simp only [isRead, Option.map_some, written]
  · rw [← List.append_nil (_ ++ after)]
    exact writeOutLast?_append_eq_none noneLeft rfl

theorem expandParked_eq (expands : Expands text result) : text.expandParked = result :=
  writeOutUpTo_of_settles expands.settles

end Expands

end Parked

/-! ## Functions with a group -/

/-- A group behind a function is an argument already. -/
theorem Application.read?_group {vocabulary : Vocabulary} {text rest : Text}
    (begins : text.skipBlanks = '(' :: rest) (function : Callable) :
    read? vocabulary (some function) text = none := by
  rw [read?]
  split
  · rfl
  · rename_i same
    rw [begins] at same
    cases same
    rfl

namespace Text

variable {vocabulary : Vocabulary} {c : Char} {text rest : Text}

theorem completeCalls_plain (plain : c ≠ '\\') (none : vocabulary.callableAt? (c :: rest) = none) :
    completeCalls vocabulary false (c :: rest) = c :: completeCalls vocabulary false rest := by
  rw [completeCalls_cons (.inr none), beq_false_of_ne plain, Bool.false_and, Bool.or_false]

theorem idle_of_isAllBlank {blanks : Text} (blank : blanks.isAllBlank = true) :
    ∀ c ∈ blanks, c.isAlpha = false ∧ c ≠ '\\' ∧ c ≠ Parked.mark := by
  intro c isMember
  have isBlank := List.all_eq_true.1 blank c isMember
  refine ⟨isAlpha_eq_false_of_isBlank isBlank, ?_, ?_⟩ <;> rintro rfl <;> cases isBlank

/-- No function begins in a run without letters, backslashes and marks. -/
theorem completeCalls_append {run : Text}
    (idle : ∀ c ∈ run, c.isAlpha = false ∧ c ≠ '\\' ∧ c ≠ Parked.mark) (rest : Text) :
    completeCalls vocabulary false (run ++ rest) =
      run ++ completeCalls vocabulary false rest := by
  induction run with
  | nil => rfl
  | cons c run ih =>
      rw [List.forall_mem_cons] at idle
      obtain ⟨⟨noLetter, plain, noMark⟩, later⟩ := idle
      rw [List.cons_append, completeCalls_plain plain
        (vocabulary.callableAt?_eq_none noLetter noMark _), ih later, List.cons_append]

theorem completeCalls_group {function : Callable} {after : Text}
    (found : vocabulary.callableAt? text = some (function, after))
    (begins : after.skipBlanks = '(' :: rest) :
    completeCalls vocabulary false text =
      function.text ++ completeCalls vocabulary false after := by
  have whole := Vocabulary.eq_of_callableAt? found
  cases text with
  | nil => exact absurd whole (by simp [function.text_ne_nil])
  | cons c text =>
      rw [completeCalls]
      split
      · rename_i none
        rw [if_neg Bool.false_ne_true, found] at none
        cases none
      · rename_i same
        rw [if_neg Bool.false_ne_true, found] at same
        cases same
        split
        · rfl
        · rename_i isRead
          rw [Application.read?_group begins] at isRead
          cases isRead

end Text

/-! ## Texts without commands -/

namespace Text

variable {vocabulary : Vocabulary} {text : Text}

theorem resolves_of_not_mem (plain : '\\' ∉ text) : Structure.Resolves text text := by
  induction text with
  | nil => exact .nil
  | cons c text ih =>
      rw [List.mem_cons, not_or] at plain
      exact (ih plain.2).cons (Ne.symm plain.1)

theorem resolveStructures_of_not_mem (plain : '\\' ∉ text) : text.resolveStructures = text :=
  Structure.resolveUpTo_of_settles (resolves_of_not_mem plain).settles

theorem resolveInverses_of_not_mem (plain : '\\' ∉ text) :
    text.resolveInverses vocabulary = text := by
  have whole : resolveInverses vocabulary (text ++ []) = text ++ resolveInverses vocabulary [] :=
    resolveInverses_append plain
  rwa [resolveInverses, List.append_nil] at whole

theorem resolveLogBases_of_not_mem (plain : '\\' ∉ text) :
    text.resolveLogBases vocabulary = text := by
  have whole : resolveLogBases vocabulary (text ++ []) = text ++ resolveLogBases vocabulary [] :=
    resolveLogBases_append plain
  rwa [resolveLogBases, List.append_nil] at whole

theorem renameCommands_of_not_mem (options : Options) (plain : '\\' ∉ text) :
    text.renameCommands options = text := by
  have nothing : renameCommands options [] = [] := by
    rw [renameCommands, pieces]
    rfl
  have whole : renameCommands options (text ++ []) = text ++ renameCommands options [] :=
    renameCommands_append plain
  rwa [nothing, List.append_nil] at whole

theorem expandParked_of_not_mem (noMark : Parked.mark ∉ text) : text.expandParked = text := by
  have whole := (Parked.Expands.nil.append noMark).expandParked_eq
  rwa [List.append_nil] at whole

/-- The linear form of a text without backslashes and marks. -/
theorem linear_of_not_mem (options : Options) (plain : '\\' ∉ text)
    (completed : text.completeCalls vocabulary false = text) (noMark : Parked.mark ∉ text) :
    text.linear vocabulary options = (text.resolveExponents vocabulary).flatten := by
  rw [linear, resolveStructures_of_not_mem plain, resolveInverses_of_not_mem plain,
    resolveLogBases_of_not_mem plain, renameCommands_of_not_mem options plain, attachArguments,
    completed, expandParked_of_not_mem noMark]

end Text

end TexCalc
