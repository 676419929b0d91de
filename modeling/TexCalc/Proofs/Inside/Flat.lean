import TexCalc.Proofs.Nesting.Balanced
import TexCalc.Proofs.Symbol.Reading

/-!
# Flat text in front of a mark

A visible character that belongs to no run ends what stands in front of it.  The symbols of a flat
text are therefore those of the part in front of such a character and those of the part that begins
with it.
-/

namespace TexCalc

namespace Text

variable {vocabulary : Vocabulary} {text front rest trail : Text} {c : Char}

/-! ## Blanks -/

theorem trimStart_append (text trail : Text) : trimStart (text ++ trail) =
    if text.trimStart = [] then trail.trimStart else text.trimStart ++ trail := by
  split
  · rename_i nothing
    rw [trimStart, List.dropWhile_append, if_pos (by rw [← trimStart, nothing]; rfl)]
    rfl
  · rename_i some
    rw [trimStart, List.dropWhile_append, if_neg (by rwa [List.isEmpty_iff, ← trimStart])]
    rfl

theorem trimStart_append_cons (visible : isBlank c = false) (text rest : Text) :
    trimStart (text ++ c :: rest) = text.trimStart ++ c :: rest := by
  rw [trimStart_append]
  split
  · rename_i nothing
    rw [nothing, trimStart_eq_of_head visible, List.nil_append]
  · rfl

theorem trimEnd_append_cons (visible : isBlank c = false) (text rest : Text) :
    trimEnd (text ++ c :: rest) = text ++ c :: rest.trimEnd := by
  have start := trimStart_append_cons visible rest.reverse text.reverse
  have turned : (text ++ c :: rest).reverse = rest.reverse ++ c :: text.reverse := by simp
  rw [trimEnd, turned, ← trimStart, start]
  simp [trimEnd, trimStart]

theorem trim_append_blanks {lead : Text} (leadBlank : lead.isAllBlank = true)
    (trailBlank : trail.isAllBlank = true) (text : Text) : trim (lead ++ (text ++ trail)) = text.trim := by
  have skipped : trimStart (lead ++ (text ++ trail)) = trimStart (text ++ trail) :=
    List.dropWhile_append_of_pos (List.all_eq_true.1 leadBlank)
  have ended (text : Text) : trimEnd (text ++ trail) = text.trimEnd := by
    have turned : trail.reverse.all isBlank = true := by rwa [List.all_reverse]
    rw [trimEnd, List.reverse_append, List.dropWhile_append_of_pos (List.all_eq_true.1 turned)]
    rfl
  rw [trim, skipped, trimStart_append]
  split
  · rename_i nothing
    have alone : trimStart (trail ++ []) = [] := dropWhile_append_of_endsRun trailBlank rfl
    rw [List.append_nil] at alone
    rw [alone, trim, nothing]
  · rw [ended, trim]

theorem collapseAfter_append_cons (visible : isBlank c = false) (isBlankBefore : Bool)
    (text rest : Text) : collapseAfter isBlankBefore (text ++ c :: rest) =
      collapseAfter isBlankBefore text ++ c :: collapseAfter false rest := by
  fun_induction collapseAfter isBlankBefore text with
  | case1 => simp [collapseAfter, visible]
  | case2 d text blank ih => rw [List.cons_append, collapseAfter, if_pos blank, if_pos rfl, ih]
  | case3 before d text blank noBlank ih =>
      rw [List.cons_append, collapseAfter, if_pos blank, if_neg noBlank, ih, List.cons_append]
  | case4 before d text visible ih =>
      rw [List.cons_append, collapseAfter, if_neg visible, ih, List.cons_append]

/-! ## Groups side by side -/

theorem joinGroups_nil : joinGroups [] = [] := by
  rw [joinGroups]

/-- Groups are joined part by part where the second part begins with none. -/
theorem joinGroups_append (noGroup : trail.trimStart.head? ≠ some '\x7b') (text : Text) :
    joinGroups (text ++ trail) = text.joinGroups ++ trail.joinGroups := by
  fun_induction joinGroups text with
  | case1 => rfl
  | case2 rest after next ih =>
      have again : trimStart (rest ++ trail) = '\x7b' :: (after ++ trail) := by
        rw [trimStart_append, next, if_neg (List.cons_ne_nil _ _), List.cons_append]
      rw [List.cons_append, joinGroups, if_pos rfl]
      split
      · rename_i later isLater
        rw [again] at isLater
        cases isLater
        exact (congrArg (")*(".toList ++ ·) ih).trans (List.append_assoc _ _ _).symm
      · rename_i other
        exact absurd again (other _)
  | case3 rest other ih =>
      rw [List.cons_append, joinGroups, if_pos rfl]
      split
      · rename_i later isLater
        rw [trimStart_append] at isLater
        split at isLater
        · rw [isLater] at noGroup
          exact absurd rfl noGroup
        · rename_i some
          obtain ⟨d, after, next⟩ := List.exists_cons_of_ne_nil some
          rw [next] at isLater
          cases isLater
          exact absurd next (other after)
      · rw [ih, List.cons_append]
  | case4 d rest plain ih => rw [List.cons_append, joinGroups, if_neg plain, ih, List.cons_append]

theorem joinGroups_cons_of_ne (other : c ≠ '\x7d') (rest : Text) :
    joinGroups (c :: rest) = c :: rest.joinGroups := by
  rw [joinGroups, if_neg other]

theorem joinGroups_append_of_not_mem (noCloser : '\x7d' ∉ front) (rest : Text) :
    joinGroups (front ++ rest) = front ++ rest.joinGroups := by
  induction front with
  | nil => rfl
  | cons c front ih =>
      rw [List.mem_cons, not_or] at noCloser
      rw [List.cons_append, joinGroups_cons_of_ne (Ne.symm noCloser.1), ih noCloser.2,
        List.cons_append]

theorem exists_joinGroups_cons (c : Char) (rest : Text) :
    ∃ d later, joinGroups (c :: rest) = d :: later ∧ flatBracket d = flatBracket c := by
  rw [joinGroups]
  split
  · rename_i closer
    split
    · exact ⟨')', _, rfl, by rw [closer]; rfl⟩
    · exact ⟨c, _, rfl, rfl⟩
  · exact ⟨c, _, rfl, rfl⟩

/-! ## Marks -/

/-- A visible character that belongs to no run and opens no group in braces. -/
structure IsMark (c : Char) : Prop where
  noWord : isBaseChar c = false
  visible : isBlank c = false
  noGroup : c ≠ '\x7b'

theorem IsMark.flatBracket (isMark : IsMark c) : IsMark (flatBracket c) where
  noWord := by rw [isBaseChar_flatBracket, isMark.noWord]
  visible := by
    unfold TexCalc.Text.flatBracket
    split
    · rfl
    · split
      · rfl
      · exact isMark.visible
  noGroup := by
    unfold TexCalc.Text.flatBracket
    split
    · decide
    · split
      · decide
      · exact isMark.noGroup

theorem symbols_append_cons (noWord : isBaseChar c = false) (plain : '\\' ∉ text)
    (rest : Text) : symbols vocabulary (text ++ c :: rest) =
      symbols vocabulary text ++ symbols vocabulary (c :: rest) :=
  symbols_append_of_isWhole (isWhole_of_not_mem plain) (by simp [endsRun, noWord])

/-- The symbols of a text that stands between others, when its braces and square brackets have become
parentheses. -/
def flatSymbols (vocabulary : Vocabulary) (text : Text) : List Symbol :=
  symbols vocabulary (text.joinGroups.map flatBracket)

theorem plain_map_flatBracket (plain : '\\' ∉ text) : '\\' ∉ text.joinGroups.map flatBracket := by
  rw [← List.count_eq_zero, count_map_flatBracket, count_joinGroups, List.count_eq_zero]
  exact plain

theorem collapseBlanks_append_cons (visible : isBlank c = false) (text rest : Text) :
    collapseBlanks (text ++ c :: rest) = collapseBlanks text ++ c :: collapseBlanks rest :=
  collapseAfter_append_cons visible false text rest

theorem flatten_append (isMark : IsMark c) (text rest : Text) :
    ∃ later : Text, flatten (c :: rest) = flatBracket c :: later ∧
      flatten (text ++ c :: rest) =
        (collapseBlanks (text.joinGroups.map flatBracket)).trimStart ++ flatBracket c :: later := by
  obtain ⟨d, later, joined, same⟩ := exists_joinGroups_cons c rest
  have flat := isMark.flatBracket
  have noGroup : (trimStart (c :: rest)).head? ≠ some '\x7b' := by
    rw [trimStart_eq_of_head isMark.visible]
    simpa using isMark.noGroup
  have shape (front : Text) : trim (collapseBlanks (front ++ flatBracket c ::
      later.map flatBracket)) = (collapseBlanks front).trimStart ++
        flatBracket c :: (collapseBlanks (later.map flatBracket)).trimEnd := by
    rw [collapseBlanks_append_cons flat.visible, trim, trimStart_append_cons flat.visible,
      trimEnd_append_cons flat.visible]
  refine ⟨(collapseBlanks (later.map flatBracket)).trimEnd, ?_, ?_⟩
  · rw [flatten, joined, List.map_cons, same]
    exact shape []
  · rw [flatten, joinGroups_append noGroup, joined, List.map_append, List.map_cons, same, shape]

/-- Of a flat text the part in front of a mark has its own symbols. -/
theorem symbols_flatten_append (isMark : IsMark c) (plain : '\\' ∉ text) (rest : Text) :
    (flatten (text ++ c :: rest)).symbols vocabulary =
      text.flatSymbols vocabulary ++ (flatten (c :: rest)).symbols vocabulary := by
  obtain ⟨later, alone, whole⟩ := flatten_append isMark text rest
  have plainFlat := plain_map_flatBracket plain
  have plainCollapsed : '\\' ∉ collapseBlanks (text.joinGroups.map flatBracket) := by
    rw [← List.count_eq_zero, collapseBlanks, count_collapseAfter (by decide), List.count_eq_zero]
    exact plainFlat
  have trimmed (front : Text) : (trimStart front).symbols vocabulary = front.symbols vocabulary := by
    have split : front.takeWhile isBlank ++ trimStart front = front :=
      List.takeWhile_append_dropWhile
    conv => rhs; rw [← split]
    exact (symbols_append_of_isAllBlank List.all_takeWhile _).symm
  have plainStart : '\\' ∉ (collapseBlanks (text.joinGroups.map flatBracket)).trimStart :=
    fun isMember => plainCollapsed ((List.dropWhile_sublist isBlank).subset isMember)
  rw [whole, symbols_append_cons isMark.flatBracket.noWord plainStart, trimmed, collapseBlanks,
    symbols_collapseAfter plainFlat, alone]
  rfl

/-- A group in braces becomes one in parentheses, unless another group in braces is in front. -/
theorem flatten_brace (noCloser : '\x7d' ∉ front) (rest : Text) :
    flatten (front ++ '\x7b' :: rest) = flatten (front ++ '(' :: rest) := by
  rw [flatten, flatten, joinGroups_append_of_not_mem noCloser, joinGroups_append_of_not_mem noCloser,
    joinGroups_cons_of_ne (by decide), joinGroups_cons_of_ne (by decide)]
  simp only [List.map_append, List.map_cons]
  rfl

theorem flatBracket_of_isBlank (blank : isBlank c = true) : flatBracket c = c :=
  flatBracket_plain (isBracket_eq_false_of (by decide) blank)

theorem map_flatBracket_of_isAllBlank (blank : text.isAllBlank = true) :
    text.map flatBracket = text := by
  rw [List.map_congr_left fun c isMember =>
    flatBracket_of_isBlank (List.all_eq_true.1 blank c isMember)]
  exact List.map_id' text

/-- Blanks behind a closing bracket make no difference. -/
theorem symbols_flatten_closer (blank : isBlank c = true) (rest : Text) :
    (flatten (')' :: c :: rest)).symbols vocabulary =
      (flatten (')' :: rest)).symbols vocabulary := by
  have noCloser : c ≠ '\x7d' := by
    rintro rfl
    cases blank
  have closed (text : Text) : flatten (')' :: text) =
      ')' :: (collapseBlanks (text.joinGroups.map flatBracket)).trimEnd := by
    have visible : isBlank ')' = false := by decide
    rw [flatten, joinGroups_cons_of_ne (by decide), List.map_cons]
    change trim (collapseBlanks ([] ++ ')' :: text.joinGroups.map flatBracket)) = _
    rw [collapseBlanks_append_cons visible, trim, trimStart_append_cons visible,
      trimEnd_append_cons visible]
    rfl
  have shorter (text : Text) : (collapseBlanks (c :: text)).trimEnd.symbols vocabulary =
      (collapseBlanks text).trimEnd.symbols vocabulary := by
    have space : isBlank ' ' = true := by decide
    cases text with
    | nil => rw [collapseBlanks, collapseAfter, if_pos blank]; rfl
    | cons d text =>
        cases blankNext : isBlank d with
        | true => simp only [collapseBlanks, collapseAfter, blank, blankNext, if_true]
        | false =>
            have spaced : collapseBlanks (c :: d :: text) = [' '] ++ d :: collapseBlanks text := by
              simp only [collapseBlanks, collapseAfter, blank, blankNext, if_true]
              rfl
            have alone : collapseBlanks (d :: text) = [] ++ d :: collapseBlanks text :=
              collapseBlanks_append_cons blankNext [] text
            rw [spaced, alone, trimEnd_append_cons blankNext, trimEnd_append_cons blankNext]
            exact symbols_blank space _
  rw [closed, closed, joinGroups_cons_of_ne noCloser, List.map_cons, flatBracket_of_isBlank blank,
    symbols_cons rfl (by decide), symbols_cons rfl (by decide), shorter]

end Text

end TexCalc
