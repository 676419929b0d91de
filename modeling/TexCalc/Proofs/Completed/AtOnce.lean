import TexCalc.Proofs.Completed.Layers

/-!
# Texts whose calls are completed at once

An operand without brackets and an exponent are taken over as they are written, without a look at
the functions in them.  When calls are completed, all of them are complete afterwards exactly when
no function waits for its argument in what is taken over.  There is one more condition on functions
that have an exponent and no operand: a function behind their `^` may become a group, which they
would read as their exponent.
-/

namespace TexCalc

variable {vocabulary : Vocabulary}

namespace Text

/-- Whether all calls of a text, whose first character is inside a control word or not, are complete
once calls have been completed in it. -/
def completesAtOnce (vocabulary : Vocabulary) (insideWord : Bool) (text : Text) : Bool :=
  match text with
  | [] => true
  | c :: rest =>
      match _callable : callable? vocabulary insideWord (c :: rest) with
      | none => completesAtOnce vocabulary (c == '\\' || insideWord && c.isAlpha) rest
      | some (function, after) =>
          match _application : Application.read? vocabulary (some function) after with
          | none =>
              -- what stands behind a `^` may be a group when its calls are complete
              (after.skipBlanks.head? != some '^' || (Application.read? vocabulary (some function)
                  (after.completeCalls vocabulary false)).isNone) &&
                completesAtOnce vocabulary false after
          | some application =>
              application.layers.all (·.isComplete vocabulary) &&
                (if application.grouped then completesAtOnce vocabulary false application.core
                else application.core.isComplete vocabulary false) &&
                completesAtOnce vocabulary false application.rest
termination_by text.length
decreasing_by
  · simp
  all_goals
    have taken := Vocabulary.length_lt_of_callableAt? (callableAt?_of_callable? _callable)
  · exact taken
  all_goals
    have fits : application.FitsIn after := Application.fitsIn_of_read? _application
    simp only [Application.FitsIn] at fits
    omega

theorem completesAtOnce_eq (insideWord : Bool) (c : Char) (rest : Text) :
    completesAtOnce vocabulary insideWord (c :: rest) =
      match callable? vocabulary insideWord (c :: rest) with
      | none => completesAtOnce vocabulary (c == '\\' || insideWord && c.isAlpha) rest
      | some (function, after) =>
          match Application.read? vocabulary (some function) after with
          | none =>
              (after.skipBlanks.head? != some '^' || (Application.read? vocabulary (some function)
                  (after.completeCalls vocabulary false)).isNone) &&
                completesAtOnce vocabulary false after
          | some application =>
              application.layers.all (·.isComplete vocabulary) &&
                (if application.grouped then completesAtOnce vocabulary false application.core
                else application.core.isComplete vocabulary false) &&
                completesAtOnce vocabulary false application.rest := by
  rw [completesAtOnce]
  split <;> rename_i found <;> rw [found]
  simp only
  split <;> rename_i found <;> rw [found]

theorem completesAtOnce_cons {c : Char} (plain : c ≠ '\\') {rest : Text}
    (noCallable : vocabulary.callableAt? (c :: rest) = none) :
    completesAtOnce vocabulary false (c :: rest) = completesAtOnce vocabulary false rest := by
  rw [completesAtOnce_eq, callable?_false, noCallable, beq_false_of_ne plain, Bool.false_and,
    Bool.or_false]

theorem idle_of_isAsciiBlank {c : Char} (blank : isAsciiBlank c = true) :
    c.isAlpha = false ∧ c ≠ '\\' ∧ c ≠ Parked.mark := by
  have blanks : isAllBlank [c] = true := by simp [isAllBlank, isBlank_of_isAsciiBlank blank]
  exact idle_of_isAllBlank blanks c List.mem_cons_self

theorem completesAtOnce_skipBlanks (text : Text) :
    completesAtOnce vocabulary false text.skipBlanks = completesAtOnce vocabulary false text := by
  induction text with
  | nil => rfl
  | cons c rest ih =>
      cases blank : isAsciiBlank c with
      | false => rw [skipBlanks_cons blank]
      | true =>
          obtain ⟨noLetter, plain, noMark⟩ := idle_of_isAsciiBlank blank
          rw [completesAtOnce_cons plain (vocabulary.callableAt?_eq_none noLetter noMark rest), ← ih,
            skipBlanks, List.dropWhile_cons_of_pos blank]
          rfl

/-! ## Functions that are left without an argument -/

section

variable {text rest : Text} {c : Char} {function : Callable}

/-- An operand that cannot be read begins as it did. -/
theorem exists_completeCalls_cons
    (unread : Application.read? vocabulary none (c :: rest) = none) :
    ∃ later, completeCalls vocabulary false (c :: rest) = c :: later := by
  cases found : vocabulary.callableAt? (c :: rest) with
  | none =>
      rw [completeCalls_eq, callable?_false, found]
      exact ⟨_, rfl⟩
  | some callable =>
      obtain ⟨function, after⟩ := callable
      have whole := Vocabulary.eq_of_callableAt? found
      rw [Application.read?_operand_eq, found] at unread
      rw [Application.completeCalls_of_read?_eq_none found (Option.or_eq_none_iff.1 unread).1]
      cases spelled : function.text with
      | nil => exact absurd spelled function.text_ne_nil
      | cons d name =>
          rw [spelled, List.cons_append] at whole
          obtain ⟨rfl, _⟩ := List.cons.inj whole
          exact ⟨_, rfl⟩

/-- Why a function reads nothing: there is an exponent or a group behind it, or no operand. -/
theorem unread_cases (unread : Application.read? vocabulary (some function) text = none)
    (start : text.skipBlanks = c :: rest) :
    c = '^' ∨ (Bracket.ofArgument? c).isSome = true ∨
      Application.read? vocabulary none (c :: rest) = none ∧
        (text.head?.any Char.isAlpha && (vocabulary.callableAt? text).isNone) = false := by
  rw [Application.read?_function_eq, start] at unread
  simp only at unread
  split at unread
  · rename_i script
    exact .inl script
  · split at unread
    · rename_i opens
      exact .inr (.inl opens)
    · split at unread
      · cases unread
      · rename_i touches
        exact .inr (.inr ⟨Option.map_eq_none_iff.1 unread, Bool.eq_false_iff.2 touches⟩)

/-- What stands behind a function that reads nothing begins as it did. -/
theorem exists_completeCalls_cons_of_unread
    (unread : Application.read? vocabulary (some function) text = none)
    (start : text.skipBlanks = c :: rest) :
    ∃ later, completeCalls vocabulary false (c :: rest) = c :: later := by
  have plainly (noLetter : c.isAlpha = false) (noMark : c ≠ Parked.mark) :
      ∃ later, completeCalls vocabulary false (c :: rest) = c :: later := by
    rw [completeCalls_eq, callable?_false, vocabulary.callableAt?_eq_none noLetter noMark rest]
    exact ⟨_, rfl⟩
  rcases unread_cases unread start with rfl | opens | ⟨noOperand, _⟩
  · exact plainly rfl (by decide)
  · obtain ⟨bracket, isBracket⟩ := Option.isSome_iff_exists.1 opens
    rw [← opener_of_ofArgument? isBracket] at plainly ⊢
    exact plainly (not_isAlpha_opener bracket).1 (opener_ne_mark bracket)
  · exact exists_completeCalls_cons noOperand

/-- Blanks in front of what begins as it did. -/
theorem skipBlanks_completeCalls (begins : ∀ (c : Char) (rest : Text), text.skipBlanks = c :: rest →
      ∃ later, completeCalls vocabulary false (c :: rest) = c :: later) :
    completeCalls vocabulary false text =
        text.takeWhile isAsciiBlank ++ completeCalls vocabulary false text.skipBlanks ∧
      (completeCalls vocabulary false text).skipBlanks =
        completeCalls vocabulary false text.skipBlanks := by
  have split : text.takeWhile isAsciiBlank ++ text.skipBlanks = text :=
    List.takeWhile_append_dropWhile
  have whole : completeCalls vocabulary false text =
      text.takeWhile isAsciiBlank ++ completeCalls vocabulary false text.skipBlanks := by
    rw [← completeCalls_of_isAllBlank (isAllBlank_of_all_isAsciiBlank List.all_takeWhile), split]
  refine ⟨whole, ?_⟩
  rw [whole, skipBlanks, List.dropWhile_append_of_pos fun c isMember =>
    List.all_eq_true.1 List.all_takeWhile c isMember]
  cases start : text.skipBlanks with
  | nil => rw [completeCalls, List.dropWhile_nil]
  | cons c rest =>
      obtain ⟨later, isLater⟩ := begins c rest start
      rw [isLater, List.dropWhile_cons_of_neg (by simp [not_isAsciiBlank_of_skipBlanks start])]

/-- Behind a function that reads no operand there is no run of letters that touches it. -/
theorem touches_completeCalls
    (noOperand : Application.read? vocabulary none text.skipBlanks = none)
    (noTouch : (text.head?.any Char.isAlpha && (vocabulary.callableAt? text).isNone) = false) :
    ((completeCalls vocabulary false text).head?.any Char.isAlpha &&
      (vocabulary.callableAt? (completeCalls vocabulary false text)).isNone) = false := by
  cases text with
  | nil => rw [completeCalls]; rfl
  | cons c rest =>
      cases found : vocabulary.callableAt? (c :: rest) with
      | none =>
          rw [found, Option.isNone_none, Bool.and_true] at noTouch
          have letter : c.isAlpha = false := noTouch
          rw [completeCalls_eq, callable?_false, found]
          simp [letter]
      | some callable =>
          obtain ⟨function, after⟩ := callable
          have visible : isAsciiBlank c = false := by
            cases blank : isAsciiBlank c with
            | false => rfl
            | true =>
                obtain ⟨noLetter, _, noMark⟩ := idle_of_isAsciiBlank blank
                rw [vocabulary.callableAt?_eq_none noLetter noMark] at found
                cases found
          rw [skipBlanks_cons visible, Application.read?_operand_eq, found] at noOperand
          rw [Application.completeCalls_of_read?_eq_none found
            (Option.or_eq_none_iff.1 noOperand).1, callableAt?_completeCalls found,
            Option.isNone_some, Bool.and_false]

/-- A function that reads nothing reads nothing from the completed text either, when it has no
exponent and no operand is to be read there. -/
theorem read?_function_completeCalls
    (unread : Application.read? vocabulary (some function) text = none)
    (noScript : text.skipBlanks.head? ≠ some '^')
    (operand : Application.read? vocabulary none text.skipBlanks = none →
      Application.read? vocabulary none (completeCalls vocabulary false text.skipBlanks) = none) :
    Application.read? vocabulary (some function) (completeCalls vocabulary false text) = none := by
  obtain ⟨whole, skipped⟩ := skipBlanks_completeCalls fun c rest start =>
    exists_completeCalls_cons_of_unread unread start
  rw [Application.read?_function_eq, skipped]
  cases start : text.skipBlanks with
  | nil => rw [completeCalls]
  | cons c rest =>
      rw [start] at noScript operand whole
      obtain ⟨later, isLater⟩ := exists_completeCalls_cons_of_unread unread start
      rw [isLater] at operand whole ⊢
      simp only
      rw [if_neg fun script => noScript (congrArg some script)]
      rcases unread_cases unread start with script | opens | ⟨noOperand, noTouch⟩
      · exact absurd (congrArg some script) noScript
      · rw [if_pos opens]
      · rw [touches_completeCalls (start ▸ noOperand) noTouch, if_neg Bool.false_ne_true,
          operand noOperand, Option.map_none, ite_self]

/-- There is no group behind a function that reads nothing and has none. -/
theorem ofGroupArgument?_completeCalls (closed : text.IsClosed)
    (unread : Application.read? vocabulary (some function) text = none)
    (noGroup : Application.ofGroupArgument? text = none) :
    Application.ofGroupArgument? (completeCalls vocabulary false text) = none := by
  obtain ⟨_, skipped⟩ := skipBlanks_completeCalls fun c rest start =>
    exists_completeCalls_cons_of_unread unread start
  rw [Application.ofGroupArgument?] at noGroup ⊢
  rw [skipped]
  cases start : text.skipBlanks with
  | nil => rw [completeCalls]
  | cons c rest =>
      obtain ⟨later, isLater⟩ := exists_completeCalls_cons_of_unread unread start
      rw [start] at noGroup
      rw [isLater]
      cases isBracket : Bracket.ofArgument? c with
      | none => simp only [isBracket, Option.bind_none]
      | some bracket =>
          have ends : bracket.opener :: rest <:+ text := by
            rw [opener_of_ofArgument? isBracket, ← start]
            exact text.suffix_skipBlanks
          obtain ⟨group, isGroup⟩ :=
            closed.exists_group (ne_square_of_ofArgument? isBracket) ends
          simp only [isBracket, Option.bind_some, isGroup, Option.map_some] at noGroup
          cases noGroup

/-- An atom can be read at every letter at which no function begins. -/
theorem isAlpha_of_afterAtom? (found : vocabulary.callableAt? (c :: rest) = none)
    (noAtom : afterAtom? vocabulary (c :: rest) = none) : c.isAlpha = false := by
  cases letter : c.isAlpha with
  | false => rfl
  | true =>
      simp only [afterAtom?, letter, found, Option.isNone_none, Bool.and_self, if_true] at noAtom
      split at noAtom
      · cases noAtom
      · split at noAtom
        · split at noAtom <;> cases noAtom
        · cases noAtom

/-- A function without an argument is no operand when calls are completed. -/
theorem read?_operand_of_callable {text after : Text} (closed : after.IsClosed)
    (found : vocabulary.callableAt? text = some (function, after))
    (unread : Application.read? vocabulary none text = none)
    (left : Application.read? vocabulary (some function) after = none →
      Application.read? vocabulary (some function) (completeCalls vocabulary false after) = none) :
    Application.read? vocabulary none (completeCalls vocabulary false text) = none := by
  rw [Application.read?_operand_eq, found] at unread
  obtain ⟨noArgument, noGroup⟩ := Option.or_eq_none_iff.1 unread
  rw [Option.map_eq_none_iff] at noGroup
  rw [Application.completeCalls_of_read?_eq_none found noArgument, Application.read?_operand_eq,
    callableAt?_completeCalls found]
  simp only [left noArgument, Option.none_or,
    ofGroupArgument?_completeCalls closed noArgument noGroup, Option.map_none]

/-- Where no function begins, there is no operand when there was none, unless one comes up behind a
sign. -/
theorem read?_operand_of_character (closed : IsClosed (c :: rest))
    (found : vocabulary.callableAt? (c :: rest) = none)
    (unread : Application.read? vocabulary none (c :: rest) = none)
    (signed : c = '-' ∨ c = '+' → Application.read? vocabulary none (skipBlanks rest) = none →
      Application.read? vocabulary none (completeCalls vocabulary false (skipBlanks rest)) = none) :
    Application.read? vocabulary none (completeCalls vocabulary false (c :: rest)) = none := by
  have again := (shortens_completeCalls vocabulary false (c :: rest)).callableAt?_eq_none found
  rw [Application.read?_operand_eq, found] at unread
  simp only at unread
  split at unread
  · rename_i sign
    have plain : c ≠ '\\' := by rcases sign with rfl | rfl <;> decide
    have noOperand := Option.map_eq_none_iff.1 unread
    obtain ⟨_, skipped⟩ := skipBlanks_completeCalls fun d later start =>
      exists_completeCalls_cons (start ▸ noOperand)
    rw [completeCalls_plain plain found] at again ⊢
    rw [Application.read?_operand_eq, again]
    simp only [if_pos sign, skipped, signed sign noOperand, Option.map_none]
  · rename_i noSign
    cases isBracket : Bracket.ofArgument? c with
    | some bracket =>
        have same := opener_of_ofArgument? isBracket
        have ends : bracket.opener :: rest <:+ c :: rest := same ▸ List.suffix_refl _
        obtain ⟨group, isGroup⟩ := closed.exists_group (ne_square_of_ofArgument? isBracket) ends
        simp only [isBracket, isGroup, Option.map_some] at unread
        cases unread
    | none =>
        simp only [isBracket] at unread
        split at unread
        · cases unread
        · rename_i noDigit
          have noLetter := isAlpha_of_afterAtom? found (Option.map_eq_none_iff.1 unread)
          rw [completeCalls_eq, callable?_false, found] at again ⊢
          rw [Application.read?_operand_eq, again]
          simp only [if_neg noSign, isBracket, if_neg noDigit, Option.map_eq_none_iff]
          rw [afterAtom?, vocabulary.constantAt?_eq_none noLetter]
          simp [noLetter]

/-- Where there is no operand, there is none when the calls are completed. -/
theorem read?_operand_completeCalls {text : Text} (closed : text.IsClosed)
    (unread : Application.read? vocabulary none text = none)
    (once : completesAtOnce vocabulary false text = true) :
    Application.read? vocabulary none (completeCalls vocabulary false text) = none := by
  cases text with
  | nil => rwa [completeCalls]
  | cons c rest =>
      cases found : vocabulary.callableAt? (c :: rest) with
      | some callable =>
          obtain ⟨function, after⟩ := callable
          have taken := Vocabulary.length_lt_of_callableAt? found
          have gap := after.length_skipBlanks_le
          have closedAfter := closed.of_suffix (Vocabulary.suffix_of_callableAt? found)
          refine read?_operand_of_callable closedAfter found unread fun noArgument => ?_
          rw [completesAtOnce_eq, callable?_false, found] at once
          simp only [noArgument, Bool.and_eq_true, Bool.or_eq_true, bne_iff_ne,
            Option.isNone_iff_eq_none] at once
          by_cases script : after.skipBlanks.head? = some '^'
          · exact once.1.resolve_left (not_not_intro script)
          · exact read?_function_completeCalls noArgument script fun noOperand =>
              read?_operand_completeCalls closedAfter.skipBlanks noOperand
                ((completesAtOnce_skipBlanks after).trans once.2)
      | none =>
          refine read?_operand_of_character closed found unread fun sign noOperand => ?_
          have plain : c ≠ '\\' := by rcases sign with rfl | rfl <;> decide
          have gap := Text.length_skipBlanks_le rest
          rw [completesAtOnce_cons plain found, ← completesAtOnce_skipBlanks] at once
          exact read?_operand_completeCalls
            (closed.of_suffix (List.suffix_cons c rest)).skipBlanks noOperand once
termination_by text.length
decreasing_by
  all_goals
    subst_vars
    simp only [List.length_cons] at *
    omega

end

/-! ## Complete once and for all -/

theorem eq_false_of_callable? {insideWord : Bool} {text : Text} {callable : Callable × Text}
    (found : callable? vocabulary insideWord text = some callable) : insideWord = false := by
  cases insideWord with
  | false => rfl
  | true => cases found

/-- When calls have been completed, no function waits for its argument exactly when all calls are
complete at once. -/
theorem isComplete_completeCalls (insideWord : Bool) {text : Text} (closed : text.IsClosed) :
    isComplete vocabulary insideWord (completeCalls vocabulary insideWord text) =
      completesAtOnce vocabulary insideWord text := by
  fun_induction completesAtOnce vocabulary insideWord text with
  | case1 => rw [completeCalls, isComplete]
  | case2 insideWord c rest noCallable ih =>
      have begins : completeCalls vocabulary insideWord (c :: rest) =
          c :: completeCalls vocabulary (c == '\\' || insideWord && c.isAlpha) rest := by
        rw [completeCalls_eq, noCallable]
      have again : callable? vocabulary insideWord
          (completeCalls vocabulary insideWord (c :: rest)) = none := by
        cases insideWord with
        | true => rfl
        | false =>
            rw [callable?_false] at noCallable ⊢
            exact (shortens_completeCalls vocabulary false _).callableAt?_eq_none noCallable
      rw [begins] at again ⊢
      rw [isComplete_eq, again]
      exact ih (closed.of_suffix (List.suffix_cons c rest))
  | case3 insideWord c rest function after isCallable unread ih =>
      -- a function that is left alone: it has to be left alone again
      obtain rfl := eq_false_of_callable? isCallable
      rw [callable?_false] at isCallable
      have closedAfter := closed.of_suffix (Vocabulary.suffix_of_callableAt? isCallable)
      rw [Application.completeCalls_of_read?_eq_none isCallable unread,
        isComplete_function (callableAt?_completeCalls isCallable), ih closedAfter]
      cases once : completesAtOnce vocabulary false after with
      | false => rw [Bool.and_false, Bool.and_false]
      | true =>
          rw [Bool.and_true, Bool.and_true]
          by_cases script : after.skipBlanks.head? = some '^'
          · simp [script]
          · have stillUnread := read?_function_completeCalls unread script fun noOperand =>
              read?_operand_completeCalls closedAfter.skipBlanks noOperand
                ((completesAtOnce_skipBlanks after).trans once)
            simp [stillUnread]
  | case4 insideWord c rest function after isCallable application isRead ihCore ihRest =>
      -- layers around a core: only the core of a group has been completed before
      obtain rfl := eq_false_of_callable? isCallable
      rw [callable?_false] at isCallable
      have closedAfter := closed.of_suffix (Vocabulary.suffix_of_callableAt? isCallable)
      have finds (other : Callable) (isSame : other ∈ some function) : vocabulary.Finds other := by
        cases isSame
        exact Vocabulary.finds_of_callableAt? isCallable
      have sound := Application.isSound_of_read? closedAfter finds isRead
      rw [completeCalls_application isCallable isRead]
      cases grouped : application.grouped with
      | false =>
          rw [if_neg Bool.false_ne_true, if_neg Bool.false_ne_true,
            Application.isComplete_around_append isRead sound sound.core, ihRest sound.rest]
      | true =>
          rw [if_pos rfl, if_pos rfl, Application.isComplete_around_append isRead sound
            sound.core.completeCalls.trim, isComplete_trim, ihCore sound.core.isClosed,
            ihRest sound.rest]

/-- Completing the calls of a closed text twice is the same as completing them once exactly when all
calls are complete at once, and so exactly when no function waits for its argument afterwards. -/
theorem attachArguments_attachArguments_iff (vocabulary : Vocabulary) {text : Text}
    (closed : text.IsClosed) :
    ((text.attachArguments vocabulary).attachArguments vocabulary =
        text.attachArguments vocabulary ↔ text.completesAtOnce vocabulary false = true) ∧
      (text.attachArguments vocabulary).isComplete vocabulary false =
        text.completesAtOnce vocabulary false := by
  have complete : (text.attachArguments vocabulary).isComplete vocabulary false = _ :=
    isComplete_completeCalls false closed
  refine ⟨?_, complete⟩
  rw [← complete]
  exact completeCalls_eq_self_iff false _

/-- An exponent, a sign and a coefficient without a function behind it. -/
theorem attachArguments_attachArguments_of_sine :
    Text.IsClosed "sin^2 x+cos -{tan 3y}".toList ∧
      (Text.attachArguments .standard "sin^2 x+cos -{tan 3y}".toList).attachArguments .standard =
        Text.attachArguments .standard "sin^2 x+cos -{tan 3y}".toList := by
  have closed : Text.IsClosed "sin^2 x+cos -{tan 3y}".toList :=
    .of_isNested (by decide) (by decide)
  exact ⟨closed, (attachArguments_attachArguments_iff .standard closed).1.2 (by decide +kernel)⟩

/-- The coefficient takes the name of the inner function with it, whose argument is found when calls
are completed again. -/
theorem attachArguments_attachArguments_ne_of_coefficient :
    Text.attachArguments .standard "sin 2cosx".toList = "sin(2cosx)".toList ∧
      (Text.attachArguments .standard "sin 2cosx".toList).attachArguments .standard =
        "sin(2cos(x))".toList ∧
      (Text.attachArguments .standard "sin 2cosx".toList).attachArguments .standard ≠
        Text.attachArguments .standard "sin 2cosx".toList :=
  ⟨by decide +kernel, by decide +kernel, by decide +kernel⟩

end Text

end TexCalc
