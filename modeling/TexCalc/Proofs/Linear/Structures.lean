import TexCalc.Proofs.Linear.Commands
import TexCalc.Proofs.Text.Settling
import TexCalc.Proofs.Words.Kept
import TexCalc.Proofs.Words.Leftover

/-!
# Replacing fractions and roots from the last to the first

What stands behind a command has been replaced when the command is replaced itself.  A text in
which every command can be read then is replaced from its end, one character or command after
the other.
-/

namespace TexCalc

namespace Structure

theorem resolveUpTo_of_settles {rounds : Nat} {text result : Text}
    (settles : Settles (fun text => resolveLast? text.pieces) rounds text result) :
    resolveUpTo rounds text = result := by
  induction settles with
  | @rest rounds text still =>
      cases rounds with
      | zero => rfl
      | succ rounds => simp only [resolveUpTo, still]
  | step moves _ ih => simp only [resolveUpTo, moves, ih]

/-- The text becomes the result, and no fractions and roots are left in it. -/
structure Resolves (text result : Text) : Prop where
  settles : Settles (fun text => resolveLast? text.pieces) (count text.pieces) text result
  hasWordsOnly : text.HasWordsOnly
  none : ∀ word ∈ result.words, ¬ IsName word

end Structure

namespace Structure

/-- Only a command for a structure is ever replaced. -/
theorem exists_of_resolveLast? {pieces : List Piece} {resolved : Text}
    (found : resolveLast? pieces = some resolved) :
    ∃ name, .control name ∈ pieces ∧ IsName name := by
  induction pieces generalizing resolved with
  | nil => cases found
  | cons piece rest ih =>
      simp only [resolveLast?] at found
      split at found
      · rename_i inner isInner
        obtain ⟨name, isMember, isName⟩ := ih isInner
        exact ⟨name, List.mem_cons_of_mem _ isMember, isName⟩
      · cases piece with
        | plain c => cases found
        | control name =>
            obtain ⟨structured, isRead, _⟩ := Option.map_eq_some_iff.1 found
            exact ⟨name, List.mem_cons_self, isName_of_read? isRead⟩

theorem read?_eq_none {name : Text} (other : ¬ IsName name) (text : Text) :
    read? name text = none := by
  cases found : read? name text with
  | none => rfl
  | some structured => exact absurd (isName_of_read? found) other

theorem resolveLast?_eq_none {text : Text} (only : text.HasWordsOnly)
    (none : ∀ word ∈ text.words, ¬ IsName word) : resolveLast? text.pieces = Option.none := by
  cases found : resolveLast? text.pieces with
  | none => rfl
  | some resolved =>
      obtain ⟨name, isMember, isName⟩ := exists_of_resolveLast? found
      exact absurd isName (none name (Text.mem_words_of_mem_pieces only isMember))

/-- Behind pieces that are no commands for structures the same structure is the last one. -/
theorem resolveLast?_append {front : List Piece} (none : ∀ name, .control name ∈ front → ¬ IsName name)
    (pieces : List Piece) :
    resolveLast? (front ++ pieces) = (resolveLast? pieces).map (Text.ofPieces front ++ ·) := by
  induction front with
  | nil =>
      rw [List.nil_append]
      cases resolveLast? pieces <;> rfl
  | cons piece front ih =>
      have behind := ih fun name isMember => none name (List.mem_cons_of_mem _ isMember)
      cases found : resolveLast? pieces with
      | some resolved => simp [resolveLast?, behind, found, Text.ofPieces]
      | none =>
          cases piece with
          | plain c => simp [resolveLast?, behind, found]
          | control name =>
              simp [resolveLast?, behind, found, read?_eq_none (none name List.mem_cons_self)]

/-- Structures are resolved behind a front that is cut into such pieces by itself. -/
theorem resolveStructures_append {front : Text} {cut : List Piece}
    (cuts : ∀ text, Text.pieces (front ++ text) = cut ++ text.pieces)
    (none : ∀ name, .control name ∈ cut → ¬ IsName name) (text : Text) :
    Text.resolveStructures (front ++ text) = front ++ text.resolveStructures := by
  have written : Text.ofPieces cut = front := by
    have whole := Text.ofPieces_pieces (front ++ [])
    rwa [cuts, Text.pieces, List.append_nil, List.append_nil] at whole
  have kept (rounds : Nat) : ∀ text : Text,
      resolveUpTo rounds (front ++ text) = front ++ resolveUpTo rounds text := by
    induction rounds with
    | zero => exact fun _ => rfl
    | succ rounds ih =>
        intro text
        rw [resolveUpTo, resolveUpTo, cuts, resolveLast?_append none, written]
        cases resolveLast? text.pieces with
        | none => rfl
        | some resolved => exact ih resolved
  have counted : count (cut ++ text.pieces) = count text.pieces := by
    have idle : count cut = 0 := by
      rw [count, List.countP_eq_zero]
      rintro (name | c) isMember
      · exact none name isMember
      · exact Bool.false_ne_true
    rw [count, List.countP_append, ← count, idle, Nat.zero_add]
    rfl
  rw [Text.resolveStructures, cuts, counted, kept]
  rfl

namespace Resolves

variable {text result name : Text}

theorem nil : Resolves [] [] where
  settles := .rest (resolveLast?_eq_none List.not_mem_nil (by simp))
  hasWordsOnly := List.not_mem_nil
  none := by simp

theorem cons {c : Char} (plain : c ≠ '\\') (resolves : Resolves text result) :
    Resolves (c :: text) (c :: result) where
  settles := by
    have rounds : count (Text.pieces (c :: text)) = count text.pieces := by
      rw [Text.pieces_cons plain]
      exact List.countP_cons_of_neg Bool.false_ne_true
    rw [rounds]
    refine resolves.settles.behind [c] (fun _ => True) ?_ trivial ?_
    · intro text next _ isNext
      simp only [List.singleton_append, Text.pieces_cons plain, resolveLast?, isNext]
      exact ⟨rfl, trivial⟩
    · intro text _ isNone
      simp only [List.singleton_append, Text.pieces_cons plain, resolveLast?, isNone]
  hasWordsOnly := by
    rw [Text.HasWordsOnly, Text.words_cons_of_ne plain]
    exact resolves.hasWordsOnly
  none := by
    rw [Text.words_cons_of_ne plain]
    exact resolves.none

theorem moves_word (letters : name.all Char.isAlpha = true) (nonempty : name ≠ [])
    (text next : Text) (kept : text.HasWordsOnly ∧ text.endsWord = true)
    (isNext : resolveLast? text.pieces = some next) :
    resolveLast? (Text.pieces (('\\' :: name) ++ text)) = some (('\\' :: name) ++ next) ∧
      next.HasWordsOnly ∧ next.endsWord = true := by
  obtain ⟨only, ends⟩ := kept
  obtain ⟨keeps, stillEnds⟩ := keepsWords_resolveLast? only isNext
  refine ⟨?_, keeps.hasWordsOnly only, stillEnds ends⟩
  rw [List.cons_append, Text.pieces_word letters nonempty ends, resolveLast?, isNext]
  rfl

/-- A control word that is no structure. -/
theorem word (letters : name.all Char.isAlpha = true) (nonempty : name ≠ [])
    (other : ¬ IsName name) (ends : text.endsWord = true) (resolves : Resolves text result) :
    Resolves ('\\' :: (name ++ text)) ('\\' :: (name ++ result)) := by
  have kept : text.HasWordsOnly ∧ text.endsWord = true := ⟨resolves.hasWordsOnly, ends⟩
  obtain ⟨_, stillEnds⟩ :=
    resolves.settles.keeps_result _ _ (moves_word letters nonempty) kept
  constructor
  · have rounds : count (Text.pieces ('\\' :: (name ++ text))) = count text.pieces := by
      rw [Text.pieces_word letters nonempty ends]
      exact List.countP_cons_of_neg other
    rw [rounds]
    refine resolves.settles.behind ('\\' :: name) _ (moves_word letters nonempty) kept ?_
    rintro text ⟨only, ends⟩ isNone
    rw [List.cons_append, Text.pieces_word letters nonempty ends, resolveLast?, isNone]
    simp only [read?_eq_none other, Option.map_none]
  · rw [Text.HasWordsOnly, Text.words_word letters ends, List.mem_cons, not_or]
    exact ⟨Ne.symm nonempty, resolves.hasWordsOnly⟩
  · rw [Text.words_word letters stillEnds, List.forall_mem_cons]
    exact ⟨other, resolves.none⟩

/-- A command for a structure whose arguments are read when they are resolved. -/
theorem command {found : Structure} {after : Text} (letters : name.all Char.isAlpha = true)
    (nonempty : name ≠ []) (isName : IsName name) (ends : text.endsWord = true)
    (resolves : Resolves text result) (isRead : read? name result = some (found, after)) :
    Resolves ('\\' :: (name ++ text)) (found.linear ++ after) := by
  have kept : text.HasWordsOnly ∧ text.endsWord = true := ⟨resolves.hasWordsOnly, ends⟩
  obtain ⟨only, stillEnds⟩ :=
    resolves.settles.keeps_result _ _ (moves_word letters nonempty) kept
  have same (word : Text) : word ∈ (found.linear ++ after).words ↔ word ∈ result.words :=
    mem_words_read? only isRead
  have none : ∀ word ∈ (found.linear ++ after).words, ¬ IsName word :=
    fun word isMember => resolves.none word ((same word).1 isMember)
  constructor
  · have rounds : count (Text.pieces ('\\' :: (name ++ text))) = count text.pieces + 1 := by
      rw [Text.pieces_word letters nonempty ends]
      exact List.countP_cons_of_pos isName
    rw [rounds]
    refine resolves.settles.last ('\\' :: name) _ (moves_word letters nonempty) kept ?_
      (resolveLast?_eq_none (fun isMember => only ((same []).1 isMember)) none)
    rw [List.cons_append, Text.pieces_word letters nonempty stillEnds, resolveLast?,
      resolveLast?_eq_none only resolves.none]
    simp only [Text.ofPieces_pieces, isRead, Option.map_some]
  · rw [Text.HasWordsOnly, Text.words_word letters ends, List.mem_cons, not_or]
    exact ⟨Ne.symm nonempty, resolves.hasWordsOnly⟩
  · exact none

end Resolves

end Structure

end TexCalc
