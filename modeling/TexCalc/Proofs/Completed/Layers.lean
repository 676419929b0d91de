import TexCalc.Proofs.Completed.Waiting
import TexCalc.Proofs.Inside.Operands

/-!
# Layers around a core

A function that is given its argument is written as layers around a core.  What is put in
parentheses there is closed by itself, so that a text in layers is complete when the core is and
every exponent is.
-/

namespace TexCalc

variable {vocabulary : Vocabulary}

/-! ## Texts that can be put at another place -/

/-- The text closes no bracket that is open in front of it, and leaves none but loose brackets
open. -/
structure Text.IsMovable (text : Text) : Prop where
  only : text.HasWordsOnly
  exists_leaves : ∃ count, text.Leaves false count

namespace Text

variable {text part rest : Text}

namespace IsMovable

theorem isClosed (movable : text.IsMovable) : text.IsClosed := by
  obtain ⟨count, leaves⟩ := movable.exists_leaves
  exact .of_leaves movable.only leaves

theorem parenthesized (movable : text.IsMovable) : text.parenthesized.IsMovable where
  only := by
    rw [HasWordsOnly, words_parenthesized]
    exact movable.only
  exists_leaves := movable.exists_leaves.imp fun _ leaves => leaves.parenthesized

theorem append (first : text.IsMovable) (second : rest.IsMovable) : (text ++ rest).IsMovable where
  only := first.only.append second.only
  exists_leaves := by
    obtain ⟨count, leaves⟩ := first.exists_leaves
    obtain ⟨more, leavesMore⟩ := second.exists_leaves
    exact ⟨_, leaves.append leavesMore⟩

theorem of_plain (plain : text.all (!isBracket ·) = true) (without : '\\' ∉ text) :
    text.IsMovable where
  only := hasWordsOnly_of_not_mem without
  exists_leaves := ⟨0, .of_plain plain⟩

theorem cons {c : Char} (other : isBracket c = false) (plain : c ≠ '\\')
    (movable : text.IsMovable) : IsMovable (c :: text) :=
  (@of_plain [c] (by simp [other]) (by simpa using plain.symm)).append movable

theorem trim (movable : text.IsMovable) : text.trim.IsMovable where
  only := by
    rw [HasWordsOnly, words_trim]
    exact movable.only
  exists_leaves := movable.exists_leaves.imp fun _ leaves => leaves.trim

theorem completeCalls (movable : text.IsMovable) :
    (text.completeCalls vocabulary false).IsMovable where
  only := hasWordsOnly_attachArguments vocabulary movable.only
  exists_leaves := movable.exists_leaves.imp fun _ leaves => leaves.completeCalls movable.only

end IsMovable

/-- What is taken from the front of a closed text can be put at another place. -/
theorem IsClosed.isMovable_of_part (closed : text.IsClosed) (found : text.HasPart part rest)
    (words : text.words = part.words ++ rest.words) : part.IsMovable ∧ rest.IsClosed := by
  obtain ⟨only, before, count, walk⟩ := closed
  obtain ⟨inner, leaves, behind⟩ := found before (loose count) walk
  rw [HasWordsOnly, words, List.mem_append, not_or] at only
  exact ⟨⟨only.1, inner, leaves⟩, only.2, _, count, behind⟩

theorem IsClosed.skipBlanks (closed : text.IsClosed) : text.skipBlanks.IsClosed :=
  closed.of_suffix text.suffix_skipBlanks

end Text

theorem Callable.isMovable_text (function : Callable) : function.text.IsMovable :=
  .of_plain function.all_plain function.not_mem_text

/-! ## Layers -/

/-- In front of its argument the function is found. -/
def Vocabulary.Finds (vocabulary : Vocabulary) (function : Callable) : Prop :=
  ∀ rest : Text, vocabulary.callableAt? (function.text ++ '(' :: rest) = some (function, '(' :: rest)

theorem Vocabulary.finds_of_callableAt? {function : Callable} {text after : Text}
    (found : vocabulary.callableAt? text = some (function, after)) : vocabulary.Finds function := by
  intro rest
  rw [eq_of_callableAt? found] at found
  exact (Text.Shortens.of_stop Text.isNameChar_openParen rest after).callableAt?_eq_some found

namespace Layer

/-- The layers that are written around a core. -/
inductive IsSound (vocabulary : Vocabulary) : Layer → Prop where
  | sign {c : Char} (isSign : c = '-' ∨ c = '+') : IsSound vocabulary (.sign c)
  | brackets : IsSound vocabulary .brackets
  | call {function : Callable} {exponent? : Option Text} (finds : vocabulary.Finds function)
      (raised : ∀ exponent ∈ exponent?, exponent.IsMovable) :
      IsSound vocabulary (.call function exponent?)

/-- No function waits for its argument in the exponent of the layer, if it has one. -/
def isComplete (vocabulary : Vocabulary) : Layer → Bool
  | call _ (some exponent) => exponent.isComplete vocabulary false
  | _ => true

variable {layer : Layer} {text : Text}

theorem IsSound.isMovable_around (sound : layer.IsSound vocabulary) (movable : text.IsMovable) :
    (layer.around text).IsMovable := by
  cases sound with
  | sign isSign =>
      rcases isSign with rfl | rfl <;> exact movable.cons rfl (by decide)
  | brackets => exact movable.parenthesized
  | @call function exponent? finds raised =>
      have argument := (function.isMovable_text).append movable.parenthesized
      cases exponent? with
      | none => exact argument
      | some exponent =>
          exact (argument.append ((raised exponent rfl).cons rfl (by decide))).parenthesized

end Layer

namespace Text

variable {text rest : Text} {function : Callable}

theorem isComplete_function {after : Text}
    (found : vocabulary.callableAt? (function.text ++ after) = some (function, after)) :
    isComplete vocabulary false (function.text ++ after) =
      ((Application.read? vocabulary (some function) after).isNone &&
        isComplete vocabulary false after) := by
  cases spelled : function.text with
  | nil => exact absurd spelled function.text_ne_nil
  | cons c name =>
      rw [spelled] at found
      rw [List.cons_append] at found ⊢
      rw [isComplete_eq, callable?_false, found]

/-- A function with its argument in parentheses does not wait for it. -/
theorem isComplete_called (finds : vocabulary.Finds function) (movable : text.IsMovable)
    (rest : Text) : isComplete vocabulary false (function.text ++ (text.parenthesized ++ rest)) =
      (isComplete vocabulary false text && isComplete vocabulary false rest) := by
  have begins : skipBlanks (text.parenthesized ++ rest) = '(' :: (text ++ ')' :: rest) := by
    rw [parenthesized_append]
    rfl
  have found := finds (text ++ ')' :: rest)
  rw [← parenthesized_append] at found
  rw [isComplete_function found, Application.read?_group begins, Option.isNone_none, Bool.true_and,
    isComplete_parenthesized movable.isClosed]

/-- A call with the text behind it. -/
theorem isComplete_call {exponent? : Option Text} (finds : vocabulary.Finds function)
    (raised : ∀ exponent ∈ exponent?, exponent.IsMovable) (movable : text.IsMovable)
    (rest : Text) :
    isComplete vocabulary false ((Layer.call function exponent?).around text ++ rest) =
      ((Layer.call function exponent?).isComplete vocabulary && isComplete vocabulary false text &&
        isComplete vocabulary false rest) := by
  have sound : (Layer.call function exponent?).IsSound vocabulary := .call finds raised
  cases exponent? with
  | none =>
      rw [Layer.around, List.append_assoc, isComplete_called finds movable, Layer.isComplete,
        Bool.true_and]
      simp
  | some exponent =>
      have whole : IsMovable (function.text ++ text.parenthesized ++ '^' :: exponent) :=
        (function.isMovable_text.append movable.parenthesized).append
          ((raised exponent rfl).cons rfl (by decide))
      have caret : isComplete vocabulary false ('^' :: exponent) =
          isComplete vocabulary false exponent :=
        isComplete_cons (by decide) (vocabulary.callableAt?_eq_none rfl (by decide) exponent)
      rw [Layer.around, isComplete_parenthesized whole.isClosed, List.append_assoc,
        isComplete_called finds movable, caret, Layer.isComplete,
        Bool.and_comm (isComplete vocabulary false text)]

/-- One layer. -/
theorem isComplete_around {layer : Layer} (sound : layer.IsSound vocabulary)
    (movable : text.IsMovable) : isComplete vocabulary false (layer.around text) =
      (layer.isComplete vocabulary && isComplete vocabulary false text) := by
  cases sound with
  | @sign c isSign =>
      have noCallable : vocabulary.callableAt? (c :: text) = none := by
        rcases isSign with rfl | rfl <;>
          exact vocabulary.callableAt?_eq_none rfl (by decide) text
      have plain : c ≠ '\\' := by rcases isSign with rfl | rfl <;> decide
      exact isComplete_cons plain noCallable
  | brackets =>
      have whole : isComplete vocabulary false (text.parenthesized ++ []) = _ :=
        isComplete_parenthesized movable.isClosed []
      rwa [List.append_nil, isComplete.eq_1, Bool.and_true] at whole
  | @call function exponent? finds raised =>
      have whole := isComplete_call finds raised movable []
      rwa [List.append_nil, isComplete.eq_1, Bool.and_true] at whole

/-- Layers around a core. -/
theorem isComplete_foldr {layers : List Layer} {core : Text}
    (sound : ∀ layer ∈ layers, layer.IsSound vocabulary) (movable : core.IsMovable) :
    (layers.foldr Layer.around core).IsMovable ∧
      isComplete vocabulary false (layers.foldr Layer.around core) =
        (layers.all (·.isComplete vocabulary) && isComplete vocabulary false core) := by
  induction layers with
  | nil => exact ⟨movable, rfl⟩
  | cons layer layers ih =>
      rw [List.forall_mem_cons] at sound
      obtain ⟨movableInner, inner⟩ := ih sound.2
      refine ⟨sound.1.isMovable_around movableInner, ?_⟩
      rw [List.foldr_cons, isComplete_around sound.1 movableInner, inner, List.all_cons,
        Bool.and_assoc]

end Text

/-! ## What is read -/

namespace Application

/-- Whatever is read can be written anew. -/
structure IsSound (vocabulary : Vocabulary) (application : Application) : Prop where
  layers : ∀ layer ∈ application.layers, layer.IsSound vocabulary
  core : application.core.IsMovable
  rest : application.rest.IsClosed

namespace IsSound

variable {text rest : Text} {application : Application}

theorem within {layer : Layer} (sound : application.IsSound vocabulary)
    (soundLayer : layer.IsSound vocabulary) : (application.within layer).IsSound vocabulary where
  layers := List.forall_mem_cons.2 ⟨soundLayer, sound.layers⟩
  core := sound.core
  rest := sound.rest

theorem signed {c : Char} (isSign : c = '-' ∨ c = '+') (operand : Text)
    (sound : application.IsSound vocabulary) :
    (application.signed c operand).IsSound vocabulary := by
  unfold Application.signed
  split
  · exact (sound.within .brackets).within (.sign isSign)
  · exact sound.within (.sign isSign)

theorem of_plain (closed : text.IsClosed) (passes : Text.Passes false text rest) :
    (ofPlain text rest).IsSound vocabulary := by
  obtain ⟨movable, closedRest⟩ := closed.isMovable_of_part
    (Text.hasPart_before closed.only passes) (Text.cutsAt_of_passes_false passes).words_eq
  exact ⟨List.forall_mem_nil _, movable, closedRest⟩

theorem of_group {bracket : Bracket} {group : Group} (fixed : bracket ≠ .square)
    (closed : Text.IsClosed (bracket.opener :: text)) (found : bracket.group? text = some group) :
    (ofGroup group).IsSound vocabulary := by
  have words : Text.words (bracket.opener :: text) = group.inside.words ++ group.rest.words := by
    rw [Text.words_cons_of_ne (Text.not_isAlpha_opener bracket).2, Text.words_of_group? found]
  obtain ⟨movable, closedRest⟩ := closed.isMovable_of_part
    (Text.hasPart_of_group? fixed closed.only.tail found) words
  exact ⟨List.forall_mem_nil _, movable, closedRest⟩

end IsSound

variable {text : Text} {application : Application}

theorem isSound_of_ofGroupArgument? (closed : text.IsClosed)
    (found : ofGroupArgument? text = some application) : application.IsSound vocabulary := by
  obtain ⟨bracket, gap, rest, group, fixed, _, shape, closes, rfl⟩ :=
    exists_of_ofGroupArgument? found
  exact .of_group fixed (closed.of_suffix (shape ▸ List.suffix_append _ _)) closes

/-- What is read from a closed text can be written anew. -/
theorem isSound_of_read? {function? : Option Callable} (closed : text.IsClosed)
    (known : ∀ function ∈ function?, vocabulary.Finds function)
    (found : read? vocabulary function? text = some application) :
    application.IsSound vocabulary := by
  have nothing {α : Type} {holds : α → Prop} : ∀ value ∈ (none : Option α), holds value :=
    fun _ isNone => absurd isNone (Option.not_mem_none _)
  fun_induction read? vocabulary function? text generalizing application with
  | case2 function text rest exponent isExponent start ih =>
      obtain ⟨inner, isInner, rfl⟩ := Option.map_eq_some_iff.1 found
      have closedRest := closed.of_suffix (Text.suffix_of_skipBlanks start)
      obtain ⟨raised, closedLater⟩ := closedRest.isMovable_of_part
        (Text.hasPart_of_exponent? closedRest.only isExponent) (Text.words_of_exponent? isExponent)
      have sound := ih closedLater.skipBlanks nothing isInner
      refine sound.within (.call (known function rfl) fun other isSame => ?_)
      cases isSame
      exact raised
  | case5 function text =>
      cases found
      have sound : (ofPlain text (text.afterTouching vocabulary)).IsSound vocabulary :=
        .of_plain closed (.of_drops (Text.dropsOperand_afterTouching vocabulary text))
      exact sound.within (.call (known function rfl) nothing)
  | case6 function text c rest start _ _ _ ih =>
      obtain ⟨inner, isInner, rfl⟩ := Option.map_eq_some_iff.1 found
      have sound := ih (start ▸ closed.skipBlanks) nothing isInner
      exact sound.within (.call (known function rfl) nothing)
  | case7 text inner after isCallable ih =>
      have finds := Vocabulary.finds_of_callableAt? isCallable
      have closedAfter := closed.of_suffix (Vocabulary.suffix_of_callableAt? isCallable)
      rcases Option.or_eq_some_iff.1 found with isRead | ⟨_, isGroup⟩
      · refine ih closedAfter (fun other isSame => ?_) isRead
        cases isSame
        exact finds
      · obtain ⟨argument, isArgument, rfl⟩ := Option.map_eq_some_iff.1 isGroup
        exact (isSound_of_ofGroupArgument? closedAfter isArgument).within
          (.call finds nothing)
  | case9 c rest _ isSign ih =>
      obtain ⟨inner, isInner, rfl⟩ := Option.map_eq_some_iff.1 found
      have closedRest := (closed.of_suffix (List.suffix_cons c rest)).skipBlanks
      exact (ih closedRest nothing isInner).signed isSign _
  | case10 c rest _ _ bracket opens =>
      obtain ⟨group, isGroup, rfl⟩ := Option.map_eq_some_iff.1 found
      rw [← Text.opener_of_ofArgument? opens] at closed
      exact .of_group (Text.ne_square_of_ofArgument? opens) closed isGroup
  | case11 c rest =>
      cases found
      exact .of_plain closed (.of_drops (Text.dropsOperand_afterCoefficient vocabulary _))
  | case12 c rest =>
      obtain ⟨after, isAfter, rfl⟩ := Option.map_eq_some_iff.1 found
      exact .of_plain closed (Text.passes_of_afterAtom? isAfter)
  | _ => cases found

/-- A function with its argument as it is written, around any core, and the text behind it. -/
theorem isComplete_around_append {function : Callable} {core : Text}
    (isRead : read? vocabulary (some function) text = some application)
    (sound : application.IsSound vocabulary) (movable : core.IsMovable) (rest : Text) :
    Text.isComplete vocabulary false (application.layers.foldr Layer.around core ++ rest) =
      (application.layers.all (·.isComplete vocabulary) && core.isComplete vocabulary false &&
        rest.isComplete vocabulary false) := by
  obtain ⟨exponent?, layers, isCall⟩ := exists_call_of_read? isRead
  have soundLayers := sound.layers
  rw [isCall, List.forall_mem_cons] at soundLayers
  obtain ⟨soundCall, soundInner⟩ := soundLayers
  obtain ⟨movableInner, inner⟩ := Text.isComplete_foldr soundInner movable
  cases soundCall with
  | call finds raised =>
      rw [isCall, List.foldr_cons, Text.isComplete_call finds raised movableInner, inner,
        List.all_cons]
      simp only [Bool.and_assoc]

end Application

end TexCalc
