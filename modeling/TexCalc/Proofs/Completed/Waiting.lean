import TexCalc.Proofs.Inside.Applied

/-!
# Functions that wait for their arguments

A text is complete when no function in it waits for an argument that stands behind it.  The
complete texts are those that remain as they are when calls are completed.

Completing calls may cut a run of letters short, for a parenthesis comes behind each function that
is given its argument, but never makes a name longer.  The functions that are left without an
argument are found again at their places for this reason.
-/

namespace TexCalc

variable {vocabulary : Vocabulary}

namespace Text

/-- No function of the text, whose first character is inside a control word or not, waits for an
argument that stands behind it. -/
def isComplete (vocabulary : Vocabulary) (insideWord : Bool) (text : Text) : Bool :=
  match text with
  | [] => true
  | c :: rest =>
      match _callable : callable? vocabulary insideWord (c :: rest) with
      | none => isComplete vocabulary (c == '\\' || insideWord && c.isAlpha) rest
      | some (function, after) =>
          (Application.read? vocabulary (some function) after).isNone &&
            isComplete vocabulary false after
termination_by text.length
decreasing_by
  · simp
  · exact Vocabulary.length_lt_of_callableAt? (callableAt?_of_callable? _callable)

theorem isComplete_eq (insideWord : Bool) (c : Char) (rest : Text) :
    isComplete vocabulary insideWord (c :: rest) =
      match callable? vocabulary insideWord (c :: rest) with
      | none => isComplete vocabulary (c == '\\' || insideWord && c.isAlpha) rest
      | some (function, after) =>
          (Application.read? vocabulary (some function) after).isNone &&
            isComplete vocabulary false after := by
  rw [isComplete]
  split <;> rename_i found <;> rw [found]

theorem callable?_false (text : Text) :
    callable? vocabulary false text = vocabulary.callableAt? text :=
  if_neg Bool.false_ne_true

/-! ## Fixed points -/

theorem head?_text (function : Callable) (rest : Text) :
    (function.text ++ rest).head? ≠ some '(' := by
  have plain := function.all_plain
  cases spelled : function.text with
  | nil => exact absurd spelled function.text_ne_nil
  | cons c name =>
      rw [spelled, List.all_cons, Bool.and_eq_true] at plain
      rintro same
      cases same
      cases plain.1

/-- A function that is given its argument is written anew. -/
theorem around_append_ne {function : Callable} {after : Text} {application : Application}
    (isRead : Application.read? vocabulary (some function) after = some application)
    (core rest : Text) :
    application.layers.foldr Layer.around core ++ rest ≠ function.text ++ after := by
  obtain ⟨exponent?, layers, isCall⟩ := Application.exists_call_of_read? isRead
  rw [isCall, List.foldr_cons]
  cases exponent? with
  | none =>
      rw [Layer.around, List.append_assoc]
      intro same
      have begins : after.skipBlanks = '(' :: (layers.foldr Layer.around core ++ ')' :: rest) := by
        rw [← List.append_cancel_left same, parenthesized_append]
        rfl
      rw [Application.read?_group begins] at isRead
      cases isRead
  | some exponent =>
      intro same
      exact head?_text function after (same ▸ rfl)

/-- The texts that remain as they are when calls are completed. -/
theorem completeCalls_eq_self_iff (insideWord : Bool) (text : Text) :
    completeCalls vocabulary insideWord text = text ↔
      isComplete vocabulary insideWord text = true := by
  fun_induction isComplete vocabulary insideWord text with
  | case1 => simp [completeCalls]
  | case2 insideWord c rest noCallable ih =>
      rw [completeCalls_eq, noCallable]
      simp only [List.cons.injEq, true_and]
      exact ih
  | case3 insideWord c rest function after isCallable ih =>
      have whole := Vocabulary.eq_of_callableAt? (callableAt?_of_callable? isCallable)
      rw [completeCalls_eq, isCallable, whole]
      simp only
      cases isRead : Application.read? vocabulary (some function) after with
      | none => simpa using ih
      | some application => simpa using around_append_ne isRead _ _

/-! ## Names -/

/-- As far as a name may reach, the one text begins as the other does. -/
def Shortens (shorter text : Text) : Prop :=
  shorter.takeWhile isNameChar <+: text

namespace Shortens

variable {shorter text : Text}

theorem isPrefix {lead : Text} (shortens : shorter.Shortens text)
    (all : lead.all isNameChar = true) (begins : lead <+: shorter) : lead <+: text := by
  obtain ⟨rest, rfl⟩ := begins
  refine List.IsPrefix.trans ?_ shortens
  rw [List.takeWhile_append_of_pos (List.all_eq_true.1 all)]
  exact List.prefix_append _ _

theorem of_stop {c : Char} (stop : isNameChar c = false) (rest text : Text) :
    Shortens (c :: rest) text := by
  rw [Shortens, List.takeWhile_cons_of_neg (by simp [stop])]
  exact List.nil_prefix

theorem cons (c : Char) (shortens : shorter.Shortens text) :
    Shortens (c :: shorter) (c :: text) := by
  rw [Shortens, List.takeWhile_cons]
  split
  · exact List.cons_prefix_cons.2 ⟨rfl, shortens⟩
  · exact List.nil_prefix

theorem append (lead : Text) (shortens : shorter.Shortens text) :
    Shortens (lead ++ shorter) (lead ++ text) := by
  induction lead with
  | nil => exact shortens
  | cons c lead ih => exact ih.cons c

end Shortens

theorem dropLead?_eq_none_iff {text lead : Text} :
    text.dropLead? lead = none ↔ ¬ lead <+: text := by
  rw [← Option.not_isSome_iff_eq_none, Option.isSome_iff_exists]
  exact not_congr (exists_congr fun rest => dropLead?_eq_some_iff.trans eq_comm)

theorem callableAt?_eq_none_iff {text : Text} : vocabulary.callableAt? text = none ↔
    (∀ name ∈ vocabulary.namesOf .function, ¬ name.text <+: text) ∧
      ∀ parked : Parked, ¬ parked.name <+: text := by
  have functions : ((vocabulary.namesOf .function).findSome? fun name =>
      (text.dropLead? name.text).map (name, ·)) = none ↔
        ∀ name ∈ vocabulary.namesOf .function, ¬ name.text <+: text := by
    simp only [List.findSome?_eq_none_iff, Option.map_eq_none_iff, dropLead?_eq_none_iff]
  have parkeds : Parked.read? text = none ↔ ∀ parked : Parked, ¬ parked.name <+: text := by
    simp only [Parked.read?, List.findSome?_eq_none_iff, Option.map_eq_none_iff,
      dropLead?_eq_none_iff, Parked.mem_all, true_implies]
  rw [← functions, ← parkeds, Vocabulary.callableAt?]
  split <;> rename_i found <;> simp [found]

namespace Shortens

variable {shorter text after : Text}

/-- Where no function begins, none begins when names are cut short. -/
theorem callableAt?_eq_none (shortens : shorter.Shortens text)
    (noCallable : vocabulary.callableAt? text = none) :
    vocabulary.callableAt? shorter = none := by
  rw [callableAt?_eq_none_iff] at noCallable ⊢
  exact ⟨fun name isMember begins => noCallable.1 name isMember
      (shortens.isPrefix (all_isNameChar (.function name)) begins),
    fun parked begins => noCallable.2 parked
      (shortens.isPrefix (all_isNameChar (.parked parked)) begins)⟩

/-- A function is found again when what follows it is cut short. -/
theorem callableAt?_eq_some {function : Callable} (shortens : shorter.Shortens after)
    (found : vocabulary.callableAt? (function.text ++ after) = some (function, after)) :
    vocabulary.callableAt? (function.text ++ shorter) = some (function, shorter) := by
  have whole := shortens.append function.text
  have missing {name : Name}
      (passed : (function.text ++ after).dropLead? name.text = none) :
      (function.text ++ shorter).dropLead? name.text = none := by
    rw [dropLead?_eq_none_iff] at passed ⊢
    exact mt (whole.isPrefix (all_isNameChar (.function name))) passed
  rw [Vocabulary.callableAt?] at found ⊢
  cases isFirst : (vocabulary.namesOf .function).findSome? fun name =>
      ((function.text ++ after).dropLead? name.text).map (name, ·) with
  | some first =>
      obtain ⟨name, rest⟩ := first
      simp only [isFirst, Option.some.injEq, Prod.mk.injEq] at found
      obtain ⟨rfl, rfl⟩ := found
      obtain ⟨before, name', behind, split, isName, passed⟩ :=
        List.findSome?_eq_some_iff.1 isFirst
      obtain ⟨remaining, _, same⟩ := Option.map_eq_some_iff.1 isName
      cases same
      have again : (vocabulary.namesOf .function).findSome? (fun other =>
          ((Callable.function name).text ++ shorter |>.dropLead? other.text).map (other, ·)) =
            some (name, shorter) := by
        refine List.findSome?_eq_some_iff.2 ⟨before, name, behind, split, ?_, ?_⟩
        · rw [Option.map_eq_some_iff]
          exact ⟨shorter, dropLead?_eq_some_iff.2 rfl, rfl⟩
        · intro other isMember
          rw [Option.map_eq_none_iff]
          exact missing (Option.map_eq_none_iff.1 (passed other isMember))
      rw [again]
  | none =>
      have again : (vocabulary.namesOf .function).findSome? (fun other =>
          ((function.text ++ shorter).dropLead? other.text).map (other, ·)) = none := by
        rw [List.findSome?_eq_none_iff] at isFirst ⊢
        intro other isMember
        rw [Option.map_eq_none_iff]
        exact missing (Option.map_eq_none_iff.1 (isFirst other isMember))
      simp only [isFirst] at found
      obtain ⟨⟨parked, rest⟩, isParked, same⟩ := Option.map_eq_some_iff.1 found
      cases same
      rw [again]
      simp only
      rw [show (Callable.parked parked).text = parked.name from rfl,
        Parked.read?_eq_some_iff.2 rfl]
      rfl

end Shortens

theorem isNameChar_openParen : isNameChar '(' = false := by
  decide

/-- Completing calls makes no name longer. -/
theorem shortens_completeCalls (vocabulary : Vocabulary) (insideWord : Bool) (text : Text) :
    (text.completeCalls vocabulary insideWord).Shortens text := by
  have eq_of_found {text rest : Text} {insideWord : Bool} {function : Callable}
      (found : (if insideWord then none else vocabulary.callableAt? text) = some (function, rest)) :
      text = function.text ++ rest :=
    Vocabulary.eq_of_callableAt? (callableAt?_of_callable? found)
  fun_induction completeCalls vocabulary insideWord text with
  | case1 => exact List.nil_prefix
  | case2 insideWord c rest _ ih => exact ih.cons c
  | case3 insideWord c rest function after isCallable _ ih =>
      rw [eq_of_found isCallable]
      exact ih.append function.text
  | case4 insideWord c rest function after isCallable application isRead core ihCore ihRest =>
      rw [eq_of_found isCallable]
      obtain ⟨exponent?, layers, isCall⟩ := Application.exists_call_of_read? isRead
      rw [isCall, List.foldr_cons]
      cases exponent? with
      | none =>
          rw [Layer.around, List.append_assoc]
          exact (Shortens.of_stop isNameChar_openParen _ after).append function.text
      | some exponent => exact .of_stop isNameChar_openParen _ _

/-- A function that is left without an argument is found again in the completed text. -/
theorem callableAt?_completeCalls {function : Callable} {text after : Text}
    (found : vocabulary.callableAt? text = some (function, after)) :
    vocabulary.callableAt? (function.text ++ after.completeCalls vocabulary false) =
      some (function, after.completeCalls vocabulary false) := by
  rw [Vocabulary.eq_of_callableAt? found] at found
  exact (shortens_completeCalls vocabulary false after).callableAt?_eq_some found

/-! ## In front of a trail -/

section

variable {trail : Text} (isTrail : trail.IsTrail)

include isTrail

theorem isComplete_of_isTrail (insideWord : Bool) :
    isComplete vocabulary insideWord trail = isComplete vocabulary false trail := by
  have stops := isTrail.head
  cases trail with
  | nil => rw [isComplete, isComplete]
  | cons c rest =>
      have noName : vocabulary.callableAt? (c :: rest) = none :=
        callableAt?_of_isTrail isTrail vocabulary
      have noLetter := isAlpha_of_isStop (show isStop c = true from stops)
      have noCallable (insideWord : Bool) :
          callable? vocabulary insideWord (c :: rest) = none := by
        rw [callable?, noName, ite_self]
      rw [isComplete_eq, isComplete_eq, noCallable, noCallable, noLetter, Bool.and_false,
        Bool.and_false]

/-- A text is complete in front of a trail when it is complete by itself. -/
theorem isComplete_trail (insideWord : Bool) {text : Text} (keeps : text.KeepsGroups trail) :
    isComplete vocabulary insideWord (text ++ trail) =
      (isComplete vocabulary insideWord text && isComplete vocabulary false trail) := by
  fun_induction isComplete vocabulary insideWord text with
  | case1 insideWord => rw [List.nil_append, isComplete_of_isTrail isTrail, Bool.true_and]
  | case2 insideWord c rest noCallable ih =>
      have again : callable? vocabulary insideWord (c :: (rest ++ trail)) = _ :=
        callable?_trail isTrail insideWord (c :: rest)
      rw [noCallable, Option.map_none] at again
      rw [List.cons_append, isComplete_eq, again]
      exact ih (keeps.of_suffix (List.suffix_cons c rest))
  | case3 insideWord c rest function after isCallable ih =>
      have keepsAfter := keeps.of_suffix
        (Vocabulary.suffix_of_callableAt? (callableAt?_of_callable? isCallable))
      have again : callable? vocabulary insideWord (c :: (rest ++ trail)) = _ :=
        callable?_trail isTrail insideWord (c :: rest)
      rw [isCallable, Option.map_some] at again
      rw [List.cons_append, isComplete_eq, again]
      simp only [Prod.map_apply, id]
      rw [Application.read?_trail isTrail (some function) keepsAfter, Option.isNone_map,
        ih keepsAfter, Bool.and_assoc]

end

/-! ## Brackets and blanks -/

theorem isComplete_cons {c : Char} (plain : c ≠ '\\') {rest : Text}
    (noCallable : vocabulary.callableAt? (c :: rest) = none) :
    isComplete vocabulary false (c :: rest) = isComplete vocabulary false rest := by
  rw [isComplete_eq, callable?_false, noCallable, beq_false_of_ne plain, Bool.false_and,
    Bool.or_false]

/-- No function begins in a run without letters, backslashes and marks. -/
theorem isComplete_append {run : Text}
    (idle : ∀ c ∈ run, c.isAlpha = false ∧ c ≠ '\\' ∧ c ≠ Parked.mark) (rest : Text) :
    isComplete vocabulary false (run ++ rest) = isComplete vocabulary false rest := by
  induction run with
  | nil => rfl
  | cons c run ih =>
      rw [List.forall_mem_cons] at idle
      obtain ⟨⟨noLetter, plain, noMark⟩, later⟩ := idle
      rw [List.cons_append, isComplete_cons plain
        (vocabulary.callableAt?_eq_none noLetter noMark _), ih later]

theorem isComplete_trim (text : Text) :
    isComplete vocabulary false text.trim = isComplete vocabulary false text := by
  obtain ⟨lead, trail, split, leadBlank, trailBlank⟩ := text.exists_trim_eq
  have passed : isComplete vocabulary false trail = true := by
    have whole : isComplete vocabulary false (trail ++ []) = isComplete vocabulary false [] :=
      isComplete_append (idle_of_isAllBlank trailBlank) []
    rwa [List.append_nil, isComplete] at whole
  conv => rhs; rw [split]
  rw [isComplete_append (idle_of_isAllBlank leadBlank),
    isComplete_trail (.of_isAllBlank trailBlank) false
      (keepsGroups_of_isIdle (isIdle_of_isAllBlank trailBlank) _), passed, Bool.and_true]

/-- A text in parentheses, when it leaves none of its own open. -/
theorem isComplete_parenthesized {text : Text} (closed : text.IsClosed) (rest : Text) :
    isComplete vocabulary false (text.parenthesized ++ rest) =
      (isComplete vocabulary false text && isComplete vocabulary false rest) := by
  have single (c : Char) (isParen : c = '(' ∨ c = ')') (rest : Text) :
      isComplete vocabulary false (c :: rest) = isComplete vocabulary false rest := by
    rcases isParen with rfl | rfl <;>
      exact isComplete_cons (by decide) (vocabulary.callableAt?_eq_none rfl (by decide) rest)
  have isTrail : IsTrail (')' :: rest) := .of_isStop rfl rfl rest
  rw [parenthesized_append, single '(' (.inl rfl),
    isComplete_trail isTrail false (closed.keepsGroups _), single ')' (.inr rfl)]

end Text

end TexCalc
