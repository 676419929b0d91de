import TexCalc.Proofs.Nesting.Renamed
import TexCalc.Proofs.Words.Backslashes

/-!
# Calls, parked functions and powers keep brackets nested

An application is written anew around its core, its exponent behind its argument.  Parked functions
and powers are written around parts of the text as they follow each other.
-/

namespace TexCalc

theorem Callable.all_plain (function : Callable) : function.text.all (!isBracket ·) = true := by
  cases function with
  | function name => exact Text.all_plain_name name
  | parked waiting =>
      rcases waiting with ⟨function, inverse⟩
      cases function <;> cases inverse <;> decide

namespace Application

variable {text : Text} {application : Application}

/-- The core of an application leaves loose brackets, and so does what the layers make of any text
that leaves as many.  The rest goes on with the brackets that are left. -/
def IsNested (application : Application) (text : Text) : Prop :=
  ∀ before after, Walk false true before text after →
    ∃ inner outer, application.core.Leaves false inner ∧
      (∀ core : Text, core.Leaves false inner →
        (application.layers.foldr Layer.around core).Leaves false outer) ∧
      Walk false true (loose outer ++ before) application.rest after

namespace IsNested

/-- The application of a text that goes on as another one does. -/
theorem of_walk {whole : Text}
    (same : ∀ before after, Walk false true before whole after → Walk false true before text after)
    (nested : application.IsNested text) : application.IsNested whole :=
  fun before after walk => nested before after (same before after walk)

theorem of_skipBlanks (nested : application.IsNested text.skipBlanks) : application.IsNested text :=
  nested.of_walk fun _ _ walk => walk.skipBlanks

/-- What stands in front without brackets is left out. -/
theorem plain_append {lead : Text} (plain : lead.all (!isBracket ·) = true)
    (nested : application.IsNested text) : application.IsNested (lead ++ text) :=
  nested.of_walk fun _ _ walk => walk.of_plain_append plain

/-- A layer that leaves what the text in it leaves. -/
theorem within {layer : Layer}
    (keeps : ∀ count (inner : Text), inner.Leaves false count →
      (layer.around inner).Leaves false count)
    (nested : application.IsNested text) : (application.within layer).IsNested text := by
  intro before after walk
  obtain ⟨inner, outer, isCore, around, behind⟩ := nested before after walk
  exact ⟨inner, outer, isCore, fun core isNew => keeps outer _ (around core isNew), behind⟩

theorem within_sign {sign : Char} (plain : isBracket sign = false)
    (nested : application.IsNested text) : (application.within (.sign sign)).IsNested text :=
  nested.within fun _ _ leaves => leaves.plain_cons plain

theorem within_brackets (nested : application.IsNested text) :
    (application.within .brackets).IsNested text :=
  nested.within fun _ _ leaves => leaves.parenthesized

theorem signed {sign : Char} (plain : isBracket sign = false) (operand : Text)
    (nested : application.IsNested text) : (application.signed sign operand).IsNested text := by
  unfold Application.signed
  split
  · exact nested.within_brackets.within_sign plain
  · exact nested.within_sign plain

theorem within_call (function : Callable) (nested : application.IsNested text) :
    (application.within (.call function none)).IsNested text :=
  nested.within fun _ _ leaves => leaves.parenthesized.plain_append function.all_plain

/-- The exponent of a function goes behind the argument. -/
theorem within_power (function : Callable) {exponent whole : Text}
    (raised : whole.HasPart exponent text) (nested : application.IsNested text) :
    (application.within (.call function (some exponent))).IsNested whole := by
  intro before after walk
  obtain ⟨count, leaves, later⟩ := raised before after walk
  obtain ⟨inner, outer, isCore, around, behind⟩ := nested _ after later
  refine ⟨inner, count + outer, isCore, ?_, ?_⟩
  · intro core isNew
    have argument := (around core isNew).parenthesized.plain_append function.all_plain
    exact (argument.append (leaves.plain_cons (by decide))).parenthesized
  · rwa [Nat.add_comm, loose_add, List.append_assoc]

theorem of_part {rest : Text} {grouped : Bool} {part : Text} (found : text.HasPart part rest) :
    IsNested ⟨[], part, grouped, rest⟩ text := by
  intro before after walk
  obtain ⟨count, leaves, behind⟩ := found before after walk
  exact ⟨count, count, leaves, fun _ isNew => isNew, behind⟩

end IsNested

theorem isNested_of_ofGroupArgument? (only : text.HasWordsOnly)
    (found : ofGroupArgument? text = some application) : application.IsNested text := by
  have within := only.skipBlanks
  apply IsNested.of_skipBlanks
  simp only [ofGroupArgument?] at found
  split at found
  · cases found
  · rename_i c rest start
    obtain ⟨bracket, opens, isGroup⟩ := Option.bind_eq_some_iff.1 found
    obtain ⟨group, closed, rfl⟩ := Option.map_eq_some_iff.1 isGroup
    rw [start] at within ⊢
    rw [← Text.opener_of_ofArgument? opens]
    exact .of_part (Text.hasPart_of_group? (Text.ne_square_of_ofArgument? opens) within.tail closed)

/-- What is read can be written anew. -/
theorem isNested_of_read? {vocabulary : Vocabulary} {function? : Option Callable}
    (only : text.HasWordsOnly) (found : read? vocabulary function? text = some application) :
    application.IsNested text := by
  fun_induction read? vocabulary function? text generalizing application with
  | case2 function text rest exponent isExponent start ih =>
      have onlyRest : Text.HasWordsOnly rest := by
        have within := only.skipBlanks
        rw [start] at within
        exact within.tail
      have onlyLater : exponent.rest.HasWordsOnly := fun isMember =>
        onlyRest (Text.words_of_exponent? isExponent ▸ List.mem_append_right _ isMember)
      obtain ⟨inner, isInner, rfl⟩ := Option.map_eq_some_iff.1 found
      apply IsNested.of_skipBlanks
      rw [start]
      have raised := (Text.hasPart_of_exponent? onlyRest isExponent).skipBlanks_right
      exact (ih onlyLater.skipBlanks isInner).within_power function (raised.plain_cons (by decide))
  | case5 function text =>
      cases found
      exact (IsNested.of_part (Text.hasPart_of_drops
        (Text.dropsOperand_afterTouching vocabulary text))).within_call function
  | case6 function text c rest start _ _ _ ih =>
      obtain ⟨inner, isInner, rfl⟩ := Option.map_eq_some_iff.1 found
      have within := only.skipBlanks
      apply IsNested.of_skipBlanks
      rw [start] at within ⊢
      exact (ih within isInner).within_call function
  | case7 text inner after isCallable ih =>
      have split := Vocabulary.eq_of_callableAt? isCallable
      rw [split] at only ⊢
      have onlyAfter := only.of_append_right
      apply IsNested.plain_append inner.all_plain
      rcases Option.or_eq_some_iff.1 found with isRead | ⟨_, isGroup⟩
      · exact ih onlyAfter isRead
      · obtain ⟨argument, isArgument, rfl⟩ := Option.map_eq_some_iff.1 isGroup
        exact (isNested_of_ofGroupArgument? onlyAfter isArgument).within_call inner
  | case9 c rest isNone sign ih =>
      have plain : isBracket c = false := by rcases sign with rfl | rfl <;> rfl
      obtain ⟨inner, isInner, rfl⟩ := Option.map_eq_some_iff.1 found
      have operand := (ih only.tail.skipBlanks isInner).signed plain (Text.skipBlanks rest)
      exact operand.of_walk fun _ _ walk => (walk.of_plain plain).mono.skipBlanks
  | case10 c rest _ _ bracket opens =>
      obtain ⟨group, isGroup, rfl⟩ := Option.map_eq_some_iff.1 found
      rw [← Text.opener_of_ofArgument? opens]
      exact .of_part
        (Text.hasPart_of_group? (Text.ne_square_of_ofArgument? opens) only.tail isGroup)
  | case11 c rest =>
      cases found
      exact .of_part (Text.hasPart_of_drops (Text.dropsOperand_afterCoefficient vocabulary _))
  | case12 c rest =>
      obtain ⟨after, isAfter, rfl⟩ := Option.map_eq_some_iff.1 found
      have passes : Text.Passes false (c :: rest) after := Text.passes_of_afterAtom? isAfter
      exact .of_part (Text.hasPart_before only passes)
  | _ => cases found

/-- The control words of the core are control words of the application around it. -/
theorem words_subset_around (core : Text) (layers : List Layer) :
    core.words ⊆ (layers.foldr Layer.around core).words := by
  induction layers with
  | nil => exact List.Subset.refl _
  | cons layer layers ih =>
      refine List.Subset.trans ih fun word isMember => ?_
      rw [List.foldr_cons]
      cases layer with
      | sign c =>
          rw [Layer.around]
          by_cases back : c = '\\'
          · subst back
            exact List.mem_cons_of_mem _ isMember
          · rwa [Text.words_cons_of_ne back]
      | brackets => rwa [Layer.around, Text.words_parenthesized]
      | call function exponent? =>
          cases exponent? with
          | none =>
              rwa [Layer.around, Text.words_append_of_not_mem function.not_mem_text,
                Text.words_parenthesized]
          | some exponent =>
              rw [Layer.around, Text.words_parenthesized, List.append_assoc,
                Text.words_append_of_not_mem function.not_mem_text,
                Text.words_parenthesized_append]
              exact List.mem_append_left _ isMember

/-- An application brings no control symbols. -/
theorem hasWordsOnly_of_read? {vocabulary : Vocabulary} {function? : Option Callable}
    (only : text.HasWordsOnly) (found : read? vocabulary function? text = some application) :
    application.core.HasWordsOnly ∧ application.rest.HasWordsOnly := by
  have words := (keepsWords_of_read? found application.core (.refl _)).mem_iff (a := [])
  rw [Text.HasWordsOnly, ← words, List.mem_append, not_or] at only
  exact ⟨fun isMember => only.1 (words_subset_around _ _ isMember), only.2⟩

end Application

namespace Text

variable {vocabulary : Vocabulary} {before after : List Pending} {text : Text}

/-- Completing calls keeps brackets nested. -/
theorem walk_completeCalls (insideWord : Bool) (only : text.HasWordsOnly)
    (walk : Walk false true before text after) :
    Walk false true before (text.completeCalls vocabulary insideWord) after := by
  have eq_of_found {text rest : Text} {insideWord : Bool} {function : Callable}
      (found : (if insideWord then none else vocabulary.callableAt? text) = some (function, rest)) :
      text = function.text ++ rest := by
    split at found
    · cases found
    · exact Vocabulary.eq_of_callableAt? found
  revert before after
  fun_induction completeCalls vocabulary insideWord text with
  | case1 =>
      intro before after walk
      exact walk
  | case2 insideWord c rest _ ih =>
      intro before after walk
      apply walk.congr_cons
      intro between later
      have onward := ih only.tail later.mono
      exact onward.unguarded _
  | case3 insideWord c rest function behind isCallable _ ih =>
      intro before after walk
      rw [eq_of_found isCallable] at walk only
      have later := ih only.of_append_right (walk.of_plain_append function.all_plain)
      exact .plain_append function.all_plain (later.unguarded false)
  | case4 insideWord c rest function behind isCallable application isApplication core ihCore ihRest =>
      intro before after walk
      rw [eq_of_found isCallable] at walk only
      have onlyBehind := only.of_append_right
      obtain ⟨onlyCore, onlyRest⟩ := Application.hasWordsOnly_of_read? onlyBehind isApplication
      obtain ⟨inner, outer, isCore, around, later⟩ :=
        Application.isNested_of_read? onlyBehind isApplication _ _
          (walk.of_plain_append function.all_plain)
      have completed : core.Leaves false inner := by
        cases grouped : application.grouped with
        | false => simpa [core, grouped] using isCore
        | true =>
            have inside : (application.core.completeCalls vocabulary false).Leaves false inner :=
              fun below => (ihCore onlyCore (isCore below).mono).unguarded false
            simpa [core, grouped] using inside.trim
      exact (around core completed).walk_append ((ihRest onlyRest later).unguarded false)

theorem walk_attachArguments (vocabulary : Vocabulary) (only : text.HasWordsOnly)
    (walk : Walk false true before text after) :
    Walk false true before (text.attachArguments vocabulary) after :=
  walk_completeCalls false only walk

end Text

/-! ## Parked functions -/

namespace Parked

variable {before after : List Pending} {text : Text}

theorem all_plain_target (parked : Parked) : parked.target.all (!isBracket ·) = true := by
  rcases parked with ⟨function, inverse⟩
  cases function <;> cases inverse <;> decide

theorem leaves_applied (parked : Parked) {argument : Text} {count : Nat}
    (leaves : argument.Leaves false count) : (parked.applied argument).Leaves false count := by
  unfold applied
  split
  · exact (leaves.wrap.plain_append (by decide)).parenthesized.plain_append parked.all_plain_target
  · apply Text.Leaves.parenthesized
    apply leaves.parenthesized.plain_append
    rw [List.all_append, parked.all_plain_target]
    decide

theorem leaves_bare (parked : Parked) : parked.bare.Leaves false 0 := by
  unfold bare
  split
  · exact .of_plain parked.all_plain_target
  · apply Text.Leaves.parenthesized
    apply Text.Leaves.of_plain
    rw [List.all_append, parked.all_plain_target]
    decide

theorem walk_writtenOut (parked : Parked) (only : text.HasWordsOnly)
    (walk : Walk false true before text after) :
    Walk false true before (parked.writtenOut text) after := by
  have alone : Walk false true before (parked.bare ++ text) after :=
    parked.leaves_bare.walk_append (walk.unguarded false)
  rcases parked.writtenOut_cases text with
    bare | ⟨bracket, rest, group, start, opens, isGroup, applied⟩
  · rw [bare]
    exact alone
  · have within := only.skipBlanks
    have skipped := walk.skipBlanks
    rw [start] at within skipped
    obtain ⟨count, leaves, behind⟩ := Text.hasPart_of_group?
      (Text.ne_square_of_ofArgument? opens) within.tail isGroup _ _ skipped
    rw [applied]
    exact (parked.leaves_applied leaves).walk_append (behind.unguarded false)

theorem walk_writeOutLast? {written : Text} (found : writeOutLast? text = some written)
    (only : text.HasWordsOnly) (walk : Walk false true before text after) :
    Walk false true before written after := by
  revert before only
  refine @writeOutLast?_induct (fun text written => ∀ {before}, text.HasWordsOnly →
    Walk false true before text after → Walk false true before written after) ?_ ?_ _ _ found
  · intro parked behind before only walk
    exact walk_writtenOut parked only.of_append_right
      (walk.of_plain_append (Callable.parked parked).all_plain)
  · intro c rest later _ ih before only walk
    apply walk.congr_cons
    intro between walked
    exact (ih only.tail walked.mono).unguarded _

theorem walk_writeOutUpTo (rounds : Nat) (only : text.HasWordsOnly)
    (walk : Walk false true before text after) :
    Walk false true before (writeOutUpTo rounds text) after := by
  apply And.right
  apply writeOutUpTo_induct (motive := fun text =>
    text.HasWordsOnly ∧ Walk false true before text after) _ _ ⟨only, walk⟩
  intro text written found ⟨only, walk⟩
  exact ⟨(length_words_writeOutLast? found).2.1 only, walk_writeOutLast? found only walk⟩

end Parked

/-! ## Powers -/

namespace Text

variable {before after : List Pending} {text : Text}

theorem walk_expandParked (only : text.HasWordsOnly) (walk : Walk false true before text after) :
    Walk false true before text.expandParked after :=
  Parked.walk_writeOutUpTo _ only walk

/-- A power leaves what its exponent leaves. -/
theorem Leaves.power {base exponent : Text} {count : Nat} (plain : base.all (!isBracket ·) = true)
    (leaves : exponent.Leaves false count) : (Text.power base exponent).Leaves false count := by
  unfold Text.power
  split
  · rename_i coefficient found
    have plainCoefficient : List.all coefficient (!isBracket ·) = true := by
      simp only [beforeEuler?] at found
      split at found
      · split at found
        · cases found
          rw [List.all_eq_true] at plain ⊢
          exact fun c isMember => plain c (List.dropLast_subset _ isMember)
        · cases found
      · cases found
    apply Leaves.plain_append plainCoefficient
    rw [exponential]
    apply Leaves.plain_append (by decide)
    split
    · exact leaves
    · exact leaves.parenthesized
  · exact ((leaves.plain_cons (by decide)).plain_append plain).parenthesized

/-- Forming powers keeps brackets nested. -/
theorem walk_resolveExponents (vocabulary : Vocabulary) (without : '\\' ∉ text)
    (walk : Walk false true before text after) :
    Walk false true before (text.resolveExponents vocabulary) after := by
  have plainRun {run : Text} (all : run.all isBaseChar = true) : run.all (!isBracket ·) = true :=
    all_plain_of (by decide) all
  have plainGap {gap : Text} (blank : gap.all isAsciiBlank = true) :
      gap.all (!isBracket ·) = true :=
    all_plain_of (by decide) blank
  have ofScript {run gap script : Text} {before : List Pending} (all : run.all isBaseChar = true)
      (blank : gap.all isAsciiBlank = true) (without : '\\' ∉ run ++ (gap ++ '^' :: script))
      (walk : Walk false true before (run ++ (gap ++ '^' :: script)) after) :
      '\\' ∉ script ∧ Walk false true before script after := by
    constructor
    · intro isMember
      apply without
      exact List.mem_append_right _ (List.mem_append_right _ (List.mem_cons_of_mem _ isMember))
    · have begun := (walk.of_plain_append (plainRun all)).of_plain_append (plainGap blank)
      exact (begun.of_plain (by decide)).mono
  revert before without
  apply resolveExponents_induct vocabulary (motive := fun text raised =>
    ∀ {before}, '\\' ∉ text → Walk false true before text after →
      Walk false true before raised after)
  · intro run _ before _ walk
    exact walk
  · intro run gap script exponent all blank isExponent ih before without walk
    obtain ⟨withoutScript, later⟩ := ofScript all blank without walk
    have withoutRaised : '\\' ∉ script.resolveExponents vocabulary := by
      rw [← List.count_eq_zero, (backslashes_resolveExponents vocabulary
        (hasWordsOnly_of_not_mem withoutScript)).2, List.count_eq_zero]
      exact withoutScript
    obtain ⟨count, leaves, behind⟩ := hasPart_of_exponent?
      (hasWordsOnly_of_not_mem withoutRaised) isExponent _ _ (ih withoutScript later)
    exact (leaves.power (plainRun all)).walk_append (behind.unguarded false)
  · intro run gap script all blank ih before without walk
    obtain ⟨withoutScript, later⟩ := ofScript all blank without walk
    apply Walk.plain_append (plainRun all)
    apply Walk.plain_append (plainGap blank)
    exact .plain_cons (by decide) ((ih withoutScript later).unguarded false)
  · intro run c rest all ih before without walk
    apply Walk.plain_append (plainRun all)
    have behind := (walk.of_plain_append (plainRun all)).unguarded false
    apply behind.congr_cons
    intro between later
    have withoutRest : '\\' ∉ rest := fun isMember =>
      without (List.mem_append_right _ (List.mem_cons_of_mem _ isMember))
    exact (ih withoutRest later.mono).unguarded _

end Text

end TexCalc
