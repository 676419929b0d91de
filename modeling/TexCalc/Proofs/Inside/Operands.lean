import TexCalc.Proofs.Inside.Applied

/-!
# Operands taken by a function

An operand that is put into parentheses and whose calls are completed there has the symbols that it
has when a function takes it as its argument.  The two differ in blanks and in the shape of brackets,
for a function takes over what is inside a group without the blanks at its ends.
-/

namespace TexCalc

variable {vocabulary : Vocabulary}

namespace Text

variable {text rest gap blanks lead : Text} {count : Nat} {bracket : Bracket} {group : Group}

namespace Leaves

theorem of_append_blanks (blank : blanks.isAllBlank = true)
    (leaves : Leaves false count (text ++ blanks)) : Leaves false count text :=
  fun before => (leaves before).of_append_plain (all_plain_of (by decide) blank)

theorem of_plain_cons {c : Char} (other : isBracket c = false)
    (leaves : Leaves false count (c :: rest)) : Leaves false count rest :=
  fun before => (leaves before).of_plain other

theorem skipBlanks (leaves : Leaves false count text) : Leaves false count text.skipBlanks :=
  fun before => (leaves before).skipBlanks

/-- What is inside a group closes nothing either. -/
theorem inside (leaves : Leaves false count (lead ++ bracket.opener :: rest)) (plain : '\\' ∉ rest)
    (fixed : bracket ≠ .square) (found : bracket.group? rest = some group) :
    ∃ inner, group.inside.Leaves false inner := by
  obtain ⟨between, _, behind⟩ := (leaves []).split
  have unguarded (guarded : false = true) : bracket ≠ .round := nomatch guarded
  obtain ⟨inner, isInside, _⟩ :=
    behind.of_group? fixed unguarded (hasWordsOnly_of_not_mem plain) found
  exact ⟨inner, isInside⟩

end Leaves

theorem completeCalls_of_isAllBlank (blank : blanks.isAllBlank = true) (rest : Text) :
    completeCalls vocabulary false (blanks ++ rest) =
      blanks ++ completeCalls vocabulary false rest :=
  completeCalls_append (idle_of_isAllBlank blank) rest

theorem completeCalls_blanks (blank : blanks.isAllBlank = true) :
    completeCalls vocabulary false blanks = blanks := by
  have whole : completeCalls vocabulary false (blanks ++ []) =
      blanks ++ completeCalls vocabulary false [] := completeCalls_of_isAllBlank blank []
  rwa [completeCalls.eq_1, List.append_nil] at whole

/-- Inside brackets calls are completed as if nothing stood around them. -/
theorem completeCalls_brackets (fixed : bracket ≠ .square) (closed : text.IsClosed) (rest : Text) :
    completeCalls vocabulary false (bracket.opener :: (text ++ bracket.closer :: rest)) =
      bracket.opener :: (completeCalls vocabulary false text ++
        bracket.closer :: completeCalls vocabulary false rest) := by
  have single (c : Char) (noLetter : c.isAlpha = false) (plain : c ≠ '\\')
      (noMark : c ≠ Parked.mark) (rest : Text) : completeCalls vocabulary false (c :: rest) =
        c :: completeCalls vocabulary false rest :=
    completeCalls_plain plain (vocabulary.callableAt?_eq_none noLetter noMark rest)
  rw [single _ (by cases bracket <;> rfl) (by cases bracket <;> decide) (opener_ne_mark bracket),
    completeCalls_trail (isTrail_closer fixed rest) false (closed.keepsGroups _),
    single _ (by cases bracket <;> rfl) (by cases bracket <;> decide) (closer_ne_mark bracket)]

end Text

namespace Application

variable {text : Text} {application : Application} {count : Nat}

/-- The application as it is written when the calls in it are complete. -/
def called (vocabulary : Vocabulary) (application : Application) : Text :=
  application.layers.foldr Layer.around
    (if application.grouped then (application.core.completeCalls vocabulary false).trim
    else application.core)

/-- In an operand that is taken over as it is written, no function waits for its argument. -/
def IsComplete (vocabulary : Vocabulary) (application : Application) : Prop :=
  application.grouped = false →
    application.core.completeCalls vocabulary false = application.core

theorem exists_of_ofGroupArgument? (found : ofGroupArgument? text = some application) :
    ∃ (bracket : Bracket) (gap rest : Text) (group : Group), bracket ≠ .square ∧
      gap.all isAsciiBlank = true ∧ text = gap ++ bracket.opener :: rest ∧
        bracket.group? rest = some group ∧ application = ofGroup group := by
  simp only [ofGroupArgument?] at found
  split at found
  · cases found
  · rename_i c rest start
    obtain ⟨bracket, opens, isGroup⟩ := Option.bind_eq_some_iff.1 found
    obtain ⟨group, closed, rfl⟩ := Option.map_eq_some_iff.1 isGroup
    have same := Text.opener_of_ofArgument? opens
    subst same
    refine ⟨bracket, text.takeWhile isAsciiBlank, rest, group,
      Text.ne_square_of_ofArgument? opens, List.all_takeWhile, ?_, closed, rfl⟩
    rw [← start]
    exact List.takeWhile_append_dropWhile.symm

end Application

/-- Another way to write a closed text without commands. -/
structure Text.ReadsAs (vocabulary : Vocabulary) (text other : Text) : Prop where
  plain : '\\' ∉ other
  exists_leaves : ∃ count, other.Leaves false count
  same : other.innerSymbols vocabulary = text.innerSymbols vocabulary

namespace Application

open Text

variable {text : Text} {application : Application} {count : Nat}

/-- A function with a group behind it. -/
theorem readsAs_group_call (function : Callable) {bracket : Bracket} (fixed : bracket ≠ .square)
    {gap inside blanks : Text} (plain : '\\' ∉ inside) (leaves : inside.Leaves false count)
    (blank : gap.all isAsciiBlank = true) (blanksBehind : blanks.isAllBlank = true) :
    ReadsAs vocabulary
      (function.text ++ (gap ++ bracket.opener :: (inside ++ bracket.closer :: blanks)))
      (function.text ++ inside.trim.parenthesized) where
  plain := by
    rw [List.mem_append, not_or, ← List.count_eq_zero (l := inside.trim.parenthesized),
      count_parenthesized (by decide), count_trim (by decide), List.count_eq_zero]
    exact ⟨function.not_mem_text, plain⟩
  exists_leaves := ⟨count, leaves.trim.parenthesized.plain_append function.all_plain⟩
  same := by
    cases function with
    | parked parked => exact (innerSymbols_parked_trim fixed plain leaves blank blanksBehind parked).symm
    | function name =>
        have all : name.text.all isBaseChar = true := List.all_eq_true.2 fun c isMember =>
          isBaseChar_of_isAlphanum c (List.all_eq_true.1 name.all_isAlphanum c isMember)
        have closed := leaves.isClosed plain
        have plainTrim : '\\' ∉ inside.trim := by
          rw [← List.count_eq_zero, count_trim (by decide), List.count_eq_zero]
          exact plain
        have trimmed : name.text ++ inside.trim.parenthesized = name.text ++
            ([] ++ Bracket.round.opener :: (inside.trim ++ Bracket.round.closer :: [])) := rfl
        change innerSymbols vocabulary (name.text ++ inside.trim.parenthesized) =
          innerSymbols vocabulary (name.text ++ _)
        rw [trimmed, innerSymbols_run all rfl, innerSymbols_run all blank,
          innerSymbols_group fixed closed plain blanksBehind,
          innerSymbols_group (by decide) (leaves.trim.isClosed plainTrim) plainTrim rfl,
          innerSymbols_trim plain]

/-- An operand in brackets is a group. -/
theorem read?_opener {bracket : Bracket} (fixed : bracket ≠ .square) (rest : Text) :
    read? vocabulary none (bracket.opener :: rest) = (bracket.group? rest).map ofGroup := by
  have noCall := vocabulary.callableAt?_eq_none (c := bracket.opener) (by cases bracket <;> rfl)
    (opener_ne_mark bracket) rest
  have noSign : ¬ (bracket.opener = '-' ∨ bracket.opener = '+') := by cases bracket <;> decide
  have opens : Bracket.ofArgument? bracket.opener = some bracket := by
    cases bracket with
    | square => exact absurd rfl fixed
    | _ => rfl
  rw [read?_operand_eq, noCall]
  simp only [if_neg noSign, opens]

/-- A function that takes no operand is left as it is. -/
theorem completeCalls_of_read?_eq_none {text after : Text} {function : Callable}
    (found : vocabulary.callableAt? text = some (function, after))
    (unread : read? vocabulary (some function) after = none) :
    text.completeCalls vocabulary false =
      function.text ++ after.completeCalls vocabulary false := by
  cases text with
  | nil => exact absurd (Vocabulary.eq_of_callableAt? found) (by simp [function.text_ne_nil])
  | cons c text =>
      rw [completeCalls_eq, callable?, if_neg Bool.false_ne_true, found]
      simp only [unread]

/-- A sign in front of a group. -/
theorem readsAs_group_sign {c : Char} (sign : c = '-' ∨ c = '+') {bracket : Bracket}
    (fixed : bracket ≠ .square) {gap inside blanks : Text} (plain : '\\' ∉ inside)
    (leaves : inside.Leaves false count) (blank : gap.isAllBlank = true)
    (blanksBehind : blanks.isAllBlank = true) :
    ReadsAs vocabulary
      (c :: (gap ++ bracket.opener :: (inside ++ bracket.closer :: blanks)))
      (c :: inside.trim.parenthesized) where
  plain := by
    have noBack : '\\' ≠ c := by rcases sign with rfl | rfl <;> decide
    rw [List.mem_cons, not_or, ← List.count_eq_zero, count_parenthesized (by decide),
      count_trim (by decide), List.count_eq_zero]
    exact ⟨noBack, plain⟩
  exists_leaves := by
    have other : isBracket c = false := by rcases sign with rfl | rfl <;> rfl
    exact ⟨count, leaves.trim.parenthesized.plain_cons other⟩
  same := by
    have closed := leaves.isClosed plain
    have plainTrim : '\\' ∉ inside.trim := by
      rw [← List.count_eq_zero, count_trim (by decide), List.count_eq_zero]
      exact plain
    have trimmed : inside.trim.parenthesized =
        Bracket.round.opener :: (inside.trim ++ Bracket.round.closer :: []) := rfl
    rw [innerSymbols_sign sign, innerSymbols_sign sign, innerSymbols_blanks blank, trimmed,
      innerSymbols_group fixed closed plain blanksBehind,
      innerSymbols_group (by decide) (leaves.trim.isClosed plainTrim) plainTrim rfl,
      innerSymbols_trim plain]

/-- A sign in front of an operand that is written in two ways. -/
theorem readsAs_sign {c : Char} (sign : c = '-' ∨ c = '+') {gap other : Text}
    (blank : gap.isAllBlank = true) (reads : ReadsAs vocabulary text other) :
    ReadsAs vocabulary (c :: (gap ++ text)) (c :: other) where
  plain := by
    have noBack : '\\' ≠ c := by rcases sign with rfl | rfl <;> decide
    rw [List.mem_cons, not_or]
    exact ⟨noBack, reads.plain⟩
  exists_leaves := by
    have other : isBracket c = false := by rcases sign with rfl | rfl <;> rfl
    obtain ⟨count, leaves⟩ := reads.exists_leaves
    exact ⟨count, leaves.plain_cons other⟩
  same := by
    rw [innerSymbols_sign sign, innerSymbols_sign sign, innerSymbols_blanks blank, reads.same]

/-- An operand whose calls are completed in place reads as it is taken over. -/
theorem readsAs_called {text : Text} {application : Application} {count : Nat}
    (plain : '\\' ∉ text) (leaves : text.Leaves false count)
    (found : read? vocabulary none text = some application)
    (ends : application.rest.isAllBlank = true) (complete : application.IsComplete vocabulary)
    (noGroup : text.head?.bind Bracket.ofArgument? = none) :
    ReadsAs vocabulary (text.completeCalls vocabulary false) (application.called vocabulary) := by
  have plainCalled : '\\' ∉ text.completeCalls vocabulary false := plain_completeCalls plain
  have leavesCalled : (text.completeCalls vocabulary false).Leaves false count :=
    leaves.completeCalls (hasWordsOnly_of_not_mem plain)
  -- what is taken over and the blanks behind it
  have ofBlanks {called blanks : Text} (blank : blanks.isAllBlank = true)
      (whole : text.completeCalls vocabulary false = called ++ blanks) :
      ReadsAs vocabulary (text.completeCalls vocabulary false) called := by
    rw [whole] at plainCalled leavesCalled ⊢
    rw [List.mem_append, not_or] at plainCalled
    exact ⟨plainCalled.1, ⟨count, leavesCalled.of_append_blanks blank⟩,
      (innerSymbols_append_blanks plainCalled.1 blank).symm⟩
  -- what is taken over as it is written
  have ofPlain {after : Text} (isPlain : application = ofPlain text after)
      (suffix : after <:+ text) :
      ReadsAs vocabulary (text.completeCalls vocabulary false) (application.called vocabulary) := by
    obtain ⟨lead, split⟩ := suffix
    subst isPlain
    have isCore : (Application.ofPlain text after).core = lead := by
      rw [← split, Application.ofPlain, before_append]
    have same : completeCalls vocabulary false lead = lead := isCore ▸ complete rfl
    have blank : after.isAllBlank = true := ends
    refine ofBlanks blank ?_
    have isCalled : (Application.ofPlain text after).called vocabulary = lead := isCore
    conv => lhs; rw [← split]
    rw [completeCalls_trail (.of_isAllBlank blank) false
      (keepsGroups_of_isIdle (isIdle_of_isAllBlank blank) lead), same, completeCalls_blanks blank,
      isCalled]
  have suffix := suffix_of_read? found
  rw [read?_operand_eq] at found
  cases isCallable : vocabulary.callableAt? text with
  | some callable =>
      obtain ⟨inner, after⟩ := callable
      have split := Vocabulary.eq_of_callableAt? isCallable
      rw [isCallable] at found
      simp only at found
      rcases Option.or_eq_some_iff.1 found with isRead | ⟨unread, isGroup⟩
      · have whole := completeCalls_application isCallable isRead
        rw [completeCalls_blanks ends] at whole
        exact ofBlanks ends whole
      · obtain ⟨argument, isArgument, rfl⟩ := Option.map_eq_some_iff.1 isGroup
        obtain ⟨bracket, gap, rest, group, fixed, blank, shape, closes, rfl⟩ :=
          exists_of_ofGroupArgument? isArgument
        have plainRest : '\\' ∉ rest := fun isMember => plain (by simp [split, shape, isMember])
        rw [shape, ← List.append_assoc] at split
        rw [split] at leaves
        obtain ⟨inner', isInside⟩ := leaves.inside plainRest fixed closes
        have whole := Bracket.eq_of_group? closes
        have plainInside : '\\' ∉ group.inside := fun isMember =>
          plainRest (whole ▸ List.mem_append_left _ isMember)
        have blankRest : group.rest.isAllBlank = true := ends
        rw [completeCalls_of_read?_eq_none isCallable unread, shape,
          completeCalls_of_isAllBlank (isAllBlank_of_all_isAsciiBlank blank), whole,
          completeCalls_brackets fixed (isInside.isClosed plainInside), completeCalls_blanks blankRest]
        exact readsAs_group_call inner fixed (plain_completeCalls plainInside)
          (isInside.completeCalls (hasWordsOnly_of_not_mem plainInside)) blank blankRest
  | none =>
      rw [isCallable] at found
      cases text with
      | nil => cases found
      | cons c rest =>
          simp only at found
          split at found
          · rename_i sign
            obtain ⟨operand, isRead, rfl⟩ := Option.map_eq_some_iff.1 found
            have noBack : c ≠ '\\' := by rcases sign with rfl | rfl <;> decide
            have other : isBracket c = false := by rcases sign with rfl | rfl <;> rfl
            have blank : isAllBlank (List.takeWhile isAsciiBlank rest) = true :=
              isAllBlank_of_all_isAsciiBlank List.all_takeWhile
            have split : List.takeWhile isAsciiBlank rest ++ Text.skipBlanks rest = rest :=
              List.takeWhile_append_dropWhile
            have plainOperand : '\\' ∉ Text.skipBlanks rest := fun isMember =>
              plain (.tail c ((Text.suffix_skipBlanks rest).subset isMember))
            have leavesOperand := (leaves.of_plain_cons other).skipBlanks
            have whole : completeCalls vocabulary false (c :: rest) =
                c :: (List.takeWhile isAsciiBlank rest ++
                  completeCalls vocabulary false (Text.skipBlanks rest)) := by
              rw [completeCalls_plain noBack isCallable]
              conv => lhs; rw [← split]
              rw [completeCalls_of_isAllBlank blank]
            rw [rest_signed] at ends
            rw [whole]
            cases opens : (Text.skipBlanks rest).head?.bind Bracket.ofArgument? with
            | none =>
                have isCalled : (signed c (Text.skipBlanks rest) operand).called vocabulary =
                    c :: operand.called vocabulary := by
                  rw [signed, opens]
                  rfl
                have complete' : operand.IsComplete vocabulary := by
                  rw [signed, opens] at complete
                  exact complete
                have shorter := Text.length_skipBlanks_le rest
                rw [isCalled]
                exact readsAs_sign sign blank
                  (readsAs_called plainOperand leavesOperand isRead ends complete' opens)
            | some bracket =>
                obtain ⟨d, isHead, isOpener⟩ := Option.bind_eq_some_iff.1 opens
                obtain ⟨later, begins⟩ := List.head?_eq_some_iff.1 isHead
                have same := opener_of_ofArgument? isOpener
                have fixed := ne_square_of_ofArgument? isOpener
                subst same
                rw [begins] at plainOperand isRead
                have leavesGroup : Leaves false count ([] ++ bracket.opener :: later) :=
                  begins ▸ leavesOperand
                rw [read?_opener fixed] at isRead
                obtain ⟨group, closes, rfl⟩ := Option.map_eq_some_iff.1 isRead
                have closed := Bracket.eq_of_group? closes
                have plainLater : '\\' ∉ later := fun isMember => plainOperand (.tail _ isMember)
                have plainInside : '\\' ∉ group.inside := fun isMember =>
                  plainLater (closed ▸ List.mem_append_left _ isMember)
                obtain ⟨inner, isInside⟩ :=
                  leavesGroup.inside plainLater fixed closes
                have isCalled : (signed c (Text.skipBlanks rest) (ofGroup group)).called vocabulary =
                    c :: (completeCalls vocabulary false group.inside).trim.parenthesized := by
                  rw [signed, opens]
                  rfl
                have blankRest : group.rest.isAllBlank = true := ends
                rw [isCalled, begins, closed,
                  completeCalls_brackets fixed (isInside.isClosed plainInside),
                  completeCalls_blanks blankRest]
                exact readsAs_group_sign sign fixed (plain_completeCalls plainInside)
                  (isInside.completeCalls (hasWordsOnly_of_not_mem plainInside)) blank blankRest
          · rename_i noSign
            have notOpened : Bracket.ofArgument? c = none := noGroup
            simp only [notOpened] at found
            split at found
            · cases found
              exact ofPlain rfl suffix
            · obtain ⟨after, isAfter, rfl⟩ := Option.map_eq_some_iff.1 found
              exact ofPlain rfl suffix
termination_by text.length
decreasing_by
  all_goals
    subst_vars
    simp only [List.length_cons] at *
    omega

end Application

end TexCalc
