import TexCalc.Proofs.Marks.Torn
import TexCalc.Proofs.Words.Calls

/-!
# Marks while calls are completed

A parked function is called by its whole name.  Its argument moves, with the marks in it, and what
is put around the argument ends with a parenthesis.  So every mark keeps its name, and a torn mark
is passed over, since nothing can be called there.
-/

namespace TexCalc

open Parked (mark)

theorem Text.mark_not_mem_of_all_isAlpha {letters : Text}
    (all : letters.all Char.isAlpha = true) : mark ∉ letters :=
  not_mem_of_all (by decide) all

theorem Text.mark_not_mem_name (name : Name) : mark ∉ name.text :=
  not_mem_of_all (by decide) name.all_isAlphanum

/-- Where a mark has its name, something can be called. -/
theorem Vocabulary.callableAt?_ne_none_of_isSome_read? (vocabulary : Vocabulary) {text : Text}
    (isNamed : (Parked.read? text).isSome = true) : vocabulary.callableAt? text ≠ none := by
  obtain ⟨⟨parked, after⟩, isParked⟩ := Option.isSome_iff_exists.1 isNamed
  unfold callableAt?
  split
  · exact Option.some_ne_none _
  · rw [isParked]
    exact Option.some_ne_none _

open Text (HasMarks)

namespace Callable

variable {inside : Bool} {torn : Nat} {right : Text}

theorem hasMarks_append (callable : Callable) (later : HasMarks true false false torn right) :
    HasMarks true false false torn (callable.text ++ right) := by
  cases callable with
  | function name =>
      exact .plain_append (Text.mark_not_mem_name name) (Text.not_mem_name name) later
  | parked parked =>
      obtain ⟨letters, isName, all, nonempty⟩ := parked.exists_name_eq
      have isNamed : (Parked.read? (mark :: (letters ++ right))).isSome = true :=
        Parked.isSome_read?_iff.2 ⟨parked, letters, right, isName, all, nonempty, rfl⟩
      change HasMarks true false false torn (parked.name ++ right)
      rw [isName]
      exact .named rfl isNamed (.plain_append (Text.mark_not_mem_of_all_isAlpha all)
        (Text.not_mem_of_all_isAlpha all) later)

theorem hasMarks_of_append (callable : Callable)
    (marks : HasMarks true false inside torn (callable.text ++ right)) :
    HasMarks true false false torn right := by
  cases callable with
  | function name =>
      exact marks.of_plain_append (Text.mark_not_mem_name name) (Text.not_mem_name name)
  | parked parked =>
      obtain ⟨letters, isName, all, nonempty⟩ := parked.exists_name_eq
      have letterless := Text.mark_not_mem_of_all_isAlpha all
      have wordless := Text.not_mem_of_all_isAlpha all
      change HasMarks true false inside torn (parked.name ++ right) at marks
      rw [isName] at marks
      cases marks with
      | other other => exact absurd rfl other
      | named _ _ later => exact later.of_plain_append letterless wordless
      | torn shut =>
          obtain ⟨c, run, rfl⟩ := List.exists_cons_of_ne_nil nonempty
          rw [List.all_cons, Bool.and_eq_true] at all
          have ends := Text.endsRun_of_isShut shut
          simp [Text.endsRun, all.1] at ends

end Callable

/-! ## Applications -/

namespace Application

/-- The torn marks of an application: those in its core, those that are put around the core, and
those that follow. -/
structure IsMarked (application : Application) (inner added after : Nat) : Prop where
  core : HasMarks true false false inner application.core
  rest : HasMarks true false false after application.rest
  around {core : Text} {torn : Nat} (marks : HasMarks true false false torn core) :
    HasMarks true false false (torn + added) (application.layers.foldr Layer.around core)

namespace IsMarked

variable {application : Application} {inner added after raised : Nat}

theorem within_call (isMarked : application.IsMarked inner added after) (function : Callable) :
    (application.within (.call function none)).IsMarked inner added after where
  core := isMarked.core
  rest := isMarked.rest
  around marks := function.hasMarks_append (isMarked.around marks).parenthesized

theorem within_power (isMarked : application.IsMarked inner added after) (function : Callable)
    {exponent : Text} (exponentMarks : HasMarks true false false raised exponent) :
    (application.within (.call function (some exponent))).IsMarked inner (added + raised)
      after where
  core := isMarked.core
  rest := isMarked.rest
  around marks := by
    have power : HasMarks true false false raised ('^' :: exponent) :=
      .cons (by decide) (by decide) (by decide) exponentMarks
    have call := function.hasMarks_append ((isMarked.around marks).parenthesized_append power)
    rw [← List.append_assoc, Nat.add_assoc] at call
    exact call.parenthesized

theorem within_brackets (isMarked : application.IsMarked inner added after) :
    (application.within .brackets).IsMarked inner added after where
  core := isMarked.core
  rest := isMarked.rest
  around marks := (isMarked.around marks).parenthesized

theorem within_sign (isMarked : application.IsMarked inner added after) {c : Char}
    (sign : c = '-' ∨ c = '+') : (application.within (.sign c)).IsMarked inner added after where
  core := isMarked.core
  rest := isMarked.rest
  around marks := by
    rcases sign with rfl | rfl <;>
      exact .cons (by decide) (by decide) (by decide) (isMarked.around marks)

theorem signed (isMarked : application.IsMarked inner added after) {c : Char}
    (sign : c = '-' ∨ c = '+') (operand : Text) :
    (application.signed c operand).IsMarked inner added after := by
  unfold Application.signed
  split
  · exact isMarked.within_brackets.within_sign sign
  · exact isMarked.within_sign sign

end IsMarked

variable {vocabulary : Vocabulary} {inside : Bool} {torn : Nat} {text rest : Text}
  {application : Application}

theorem exists_isMarked_ofPlain (parts : text.PartsMarks rest)
    (marks : HasMarks true false false torn text) :
    ∃ inner added after, torn = inner + added + after ∧
      (ofPlain text rest).IsMarked inner added after := by
  obtain ⟨inner, after, same, core, later⟩ := parts.exists_eq_add marks
  exact ⟨inner, 0, after, same, core, later, id⟩

theorem exists_isMarked_ofGroup {bracket : Bracket} {group : Group}
    (found : bracket.group? text = some group)
    (marks : HasMarks true false inside torn (bracket.opener :: text)) :
    ∃ inner added after, torn = inner + added + after ∧
      (ofGroup group).IsMarked inner added after := by
  obtain ⟨inner, after, same, core, later⟩ := marks.of_brackets found
  exact ⟨inner, 0, after, same, core, later, id⟩

theorem exists_isMarked_of_ofGroupArgument? (marks : HasMarks true false inside torn text)
    (found : ofGroupArgument? text = some application) :
    ∃ inner added after, torn = inner + added + after ∧
      application.IsMarked inner added after := by
  have skipped := marks.skipBlanks
  simp only [ofGroupArgument?] at found
  split at found
  · cases found
  · rename_i c rest start
    rw [start] at skipped
    obtain ⟨bracket, opens, isGroup⟩ := Option.bind_eq_some_iff.1 found
    obtain ⟨group, closed, rfl⟩ := Option.map_eq_some_iff.1 isGroup
    rw [← Text.opener_of_ofArgument? opens] at skipped
    exact exists_isMarked_ofGroup closed skipped

/-- Reading an application takes no mark away from its name. -/
theorem exists_isMarked_of_read? {function? : Option Callable}
    (marks : HasMarks true false false torn text)
    (found : read? vocabulary function? text = some application) :
    ∃ inner added after, torn = inner + added + after ∧
      application.IsMarked inner added after := by
  fun_induction read? vocabulary function? text generalizing application torn with
  | case2 function text rest exponent isExponent start ih =>
      have skipped := marks.skipBlanks
      rw [start] at skipped
      have script := skipped.tail (by decide) (by decide)
      obtain ⟨raised, behind, rfl, exponentMarks, later⟩ := script.of_exponent? isExponent
      obtain ⟨inside, isInside, rfl⟩ := Option.map_eq_some_iff.1 found
      obtain ⟨inner, added, after, rfl, isMarked⟩ := ih later.skipBlanks isInside
      exact ⟨inner, added + raised, after, by omega, isMarked.within_power function exponentMarks⟩
  | case5 function text =>
      cases found
      obtain ⟨inner, added, after, same, isMarked⟩ :=
        exists_isMarked_ofPlain (.of_drops (Text.dropsOperand_afterTouching vocabulary text)) marks
      exact ⟨inner, added, after, same, isMarked.within_call function⟩
  | case6 function text c rest start _ _ _ ih =>
      have skipped := marks.skipBlanks
      rw [start] at skipped
      obtain ⟨inside, isInside, rfl⟩ := Option.map_eq_some_iff.1 found
      obtain ⟨inner, added, after, same, isMarked⟩ := ih skipped isInside
      exact ⟨inner, added, after, same, isMarked.within_call function⟩
  | case7 text callable after isCallable ih =>
      rw [Vocabulary.eq_of_callableAt? isCallable] at marks
      have later := callable.hasMarks_of_append marks
      rcases Option.or_eq_some_iff.1 found with isRead | ⟨_, isGroup⟩
      · exact ih later isRead
      · obtain ⟨argument, isArgument, rfl⟩ := Option.map_eq_some_iff.1 isGroup
        obtain ⟨inner, added, after, same, isMarked⟩ :=
          exists_isMarked_of_ofGroupArgument? later isArgument
        exact ⟨inner, added, after, same, isMarked.within_call callable⟩
  | case9 c rest _ sign ih =>
      have facts : c ≠ mark ∧ c ≠ '\\' := by rcases sign with rfl | rfl <;> decide
      obtain ⟨inside, isInside, rfl⟩ := Option.map_eq_some_iff.1 found
      obtain ⟨inner, added, after, same, isMarked⟩ :=
        ih (marks.tail facts.1 facts.2).skipBlanks isInside
      exact ⟨inner, added, after, same, isMarked.signed sign _⟩
  | case10 c rest _ _ bracket opens =>
      obtain ⟨group, isGroup, rfl⟩ := Option.map_eq_some_iff.1 found
      rw [← Text.opener_of_ofArgument? opens] at marks
      exact exists_isMarked_ofGroup isGroup marks
  | case11 c rest =>
      cases found
      exact exists_isMarked_ofPlain
        (.of_drops (Text.dropsOperand_afterCoefficient vocabulary _)) marks
  | case12 c rest =>
      obtain ⟨after, isAfter, rfl⟩ := Option.map_eq_some_iff.1 found
      have passes : Text.Passes false (c :: rest) after := Text.passes_of_afterAtom? isAfter
      exact exists_isMarked_ofPlain (.of_passes passes) marks
  | _ => cases found

end Application

namespace Text

variable {hidden inside : Bool} {torn : Nat} {text rest : Text}

theorem isShut_completeCalls (vocabulary : Vocabulary) (inside : Bool)
    (shut : text.isShut = true) : (text.completeCalls vocabulary inside).isShut = true := by
  cases text with
  | nil => rw [completeCalls, isShut, List.head?_nil, Option.all_none]
  | cons c text =>
      obtain ⟨bracket, rfl⟩ := exists_closer_of_isShut shut
      have idle := vocabulary.callableAt?_eq_none (not_isAlpha_closer bracket).1
        (closer_ne_mark bracket) text
      rw [completeCalls_cons (.inr idle)]
      exact shut

/-- Completing calls takes no mark away from its name.  What is hidden stands behind the backslash
of a control sequence, where nothing is called. -/
theorem hasMarks_completeCalls (vocabulary : Vocabulary)
    (within : hidden = true → inside = true) (marks : HasMarks true hidden inside torn text) :
    HasMarks true hidden inside torn (text.completeCalls vocabulary inside) := by
  have eq_of_found {text rest : Text} {inside : Bool} {function : Callable}
      (found : (if inside then none else vocabulary.callableAt? text) = some (function, rest)) :
      inside = false ∧ text = function.text ++ rest := by
    split at found
    · cases found
    · rename_i outside
      exact ⟨by simpa using outside, Vocabulary.eq_of_callableAt? found⟩
  have outside {hidden : Bool} (within : hidden = true → false = true) : hidden = false := by
    cases hidden with
    | false => rfl
    | true => exact (within rfl).symm
  revert hidden torn
  fun_induction completeCalls vocabulary inside text with
  | case1 => exact fun _ marks => marks
  | case2 inside c rest isNone ih =>
      intro hidden torn within marks
      have behindMark {more : Nat} (later : HasMarks true false false more rest)
          (isMark : c = mark) : HasMarks true false false more
            (completeCalls vocabulary (c == '\\' || inside && c.isAlpha) rest) := by
        subst isMark
        have ended : (mark == '\\' || inside && mark.isAlpha) = false := by
          rw [show mark.isAlpha = false from rfl, Bool.and_false]
          rfl
        rw [ended] at ih ⊢
        exact ih (fun hidden => hidden) later
      cases marks with
      | other other later =>
          refine .other other (ih (fun next => ?_) later)
          rw [(Bool.and_eq_true_iff.1 next).1, Bool.true_or]
      | hidden later => exact .hidden (behindMark later rfl)
      | named _ isNamed =>
          exact absurd isNone (vocabulary.callableAt?_ne_none_of_isSome_read? isNamed)
      | torn shut later =>
          exact .torn (isShut_completeCalls vocabulary _ shut) (behindMark later rfl)
  | case3 inside c rest function after isCallable _ ih =>
      intro hidden torn within marks
      obtain ⟨rfl, split⟩ := eq_of_found isCallable
      obtain rfl := outside within
      rw [split] at marks
      exact function.hasMarks_append (ih within (function.hasMarks_of_append marks))
  | case4 inside c rest function after isCallable application isRead core ihCore =>
      rename_i ihRest
      intro hidden torn within marks
      obtain ⟨rfl, split⟩ := eq_of_found isCallable
      obtain rfl := outside within
      rw [split] at marks
      obtain ⟨inner, added, after, rfl, isMarked⟩ :=
        Application.exists_isMarked_of_read? (function.hasMarks_of_append marks) isRead
      have coreMarks : HasMarks true false false inner core := by
        cases grouped : application.grouped with
        | true => simpa [core, grouped] using (ihCore within isMarked.core).trim
        | false => simpa [core, grouped] using isMarked.core
      have whole := isMarked.around coreMarks
      obtain ⟨front, ends⟩ := Application.exists_around_eq isRead core
      rw [ends] at whole ⊢
      exact whole.concat_append (by decide) (by decide) (by decide) (ihRest within isMarked.rest)

end Text

end TexCalc
