import TexCalc.Proofs.Alphabet.Foreign
import TexCalc.Proofs.Text.Characters
import TexCalc.Proofs.Words.Backslashes

/-!
# What follows a backslash

A control sequence that nothing has replaced takes the letters after its backslash with it when it
is removed, or the one character that is no letter.  In a formula on one line that character is an
opening parenthesis, which has come between the backslash and a power.
-/

namespace TexCalc

/-- What can come to stand after a backslash. -/
def mayFollow (c : Char) : Bool :=
  c.isAlpha || c == '('

theorem mayFollow_of_isAlpha {c : Char} (letter : c.isAlpha = true) : mayFollow c = true := by
  rw [mayFollow, letter, Bool.true_or]

theorem mayFollow_eq_false_of_isBlank {c : Char} (blank : isBlank c = true) :
    mayFollow c = false := by
  have other : c ≠ '(' := by
    rintro rfl
    exact absurd blank (by decide)
  simp [mayFollow, (Text.not_isAlpha_of_isBlank blank).1, other]

theorem mayFollow_closer (bracket : Bracket) : mayFollow bracket.closer = false := by
  cases bracket <;> decide

namespace Text

/-- Every backslash is followed by a letter or an opening parenthesis. -/
def IsFollowed : Text → Prop
  | [] => True
  | c :: rest => (c = '\\' → rest.head?.any mayFollow = true) ∧ IsFollowed rest

namespace IsFollowed

theorem of_not_mem {text : Text} (without : '\\' ∉ text) : text.IsFollowed := by
  induction text with
  | nil => trivial
  | cons c rest ih =>
      simp only [List.mem_cons, not_or] at without
      exact ⟨fun back => absurd back.symm without.1, ih without.2⟩

theorem of_hasWordsOnly {text : Text} (only : text.HasWordsOnly) : text.IsFollowed := by
  induction text with
  | nil => trivial
  | cons c rest ih =>
      refine ⟨?_, ih only.tail⟩
      rintro rfl
      cases rest with
      | nil => exact absurd List.mem_cons_self only
      | cons d rest =>
          cases letter : d.isAlpha with
          | true => exact mayFollow_of_isAlpha letter
          | false =>
              refine absurd ?_ only
              simp [letter]

theorem of_append_right {left right : Text} (followed : IsFollowed (left ++ right)) :
    right.IsFollowed := by
  induction left with
  | nil => exact followed
  | cons c left ih => exact ih followed.2

/-- What stands in front of a character that follows no backslash. -/
theorem of_append_cons {left right : Text} {d : Char} (ends : mayFollow d = false)
    (followed : IsFollowed (left ++ d :: right)) : left.IsFollowed := by
  induction left with
  | nil => trivial
  | cons c left ih =>
      refine ⟨fun back => ?_, ih followed.2⟩
      have next := followed.1 back
      cases left with
      | nil =>
          have follows : mayFollow d = true := next
          rw [ends] at follows
          cases follows
      | cons e left => exact next

theorem append {left right : Text} (first : left.IsFollowed) (second : right.IsFollowed) :
    IsFollowed (left ++ right) := by
  induction left with
  | nil => exact second
  | cons c left ih =>
      refine ⟨fun back => ?_, ih first.2⟩
      have next := first.1 back
      cases left with
      | nil => cases next
      | cons d left => exact next

theorem cons {c : Char} {text : Text} (other : c ≠ '\\') (followed : text.IsFollowed) :
    IsFollowed (c :: text) :=
  ⟨fun back => absurd back other, followed⟩

theorem parenthesized {text : Text} (followed : text.IsFollowed) :
    text.parenthesized.IsFollowed :=
  .cons (by decide) (followed.append (.of_not_mem (by decide)))

theorem trim {text : Text} (followed : text.IsFollowed) : text.trim.IsFollowed := by
  obtain ⟨lead, trail, split, _, allBlank⟩ := text.exists_trim_eq
  rw [split] at followed
  have back := followed.of_append_right
  cases trail with
  | nil => rwa [List.append_nil] at back
  | cons d trail =>
      have blank := List.all_eq_true.1 allBlank d List.mem_cons_self
      exact back.of_append_cons (mayFollow_eq_false_of_isBlank blank)

theorem wrap {text : Text} (followed : text.IsFollowed) : text.wrap.IsFollowed := by
  unfold Text.wrap
  split
  · exact followed.trim
  · exact followed.trim.parenthesized

theorem exponent? {vocabulary : Vocabulary} {text : Text} {exponent : Cut}
    (followed : text.IsFollowed) (found : text.exponent? vocabulary = some exponent) :
    exponent.text.IsFollowed ∧ exponent.rest.IsFollowed := by
  obtain ⟨blanks, skipped, _⟩ := DropsPlain.skipBlanks text
  rw [skipped] at followed
  have start := followed.of_append_right
  simp only [Text.exponent?] at found
  split at found
  · cases found
  · rename_i c rest shape
    rw [shape] at start
    split at found
    · obtain ⟨group, isGroup, rfl⟩ := Option.map_eq_some_iff.1 found
      have within := start.2
      rw [Bracket.eq_of_group? isGroup] at within
      exact ⟨(within.of_append_cons (mayFollow_closer _)).wrap, within.of_append_right.2⟩
    · split at found
      · rename_i name after isConstant
        cases found
        rw [Vocabulary.eq_of_constantAt? isConstant] at start
        exact ⟨.of_not_mem (not_mem_name name), start.of_append_right⟩
      · split at found
        · rename_i word
          cases found
          have other := ne_backslash_of_isAlphanum word
          exact ⟨.of_not_mem (by simpa using Ne.symm other), start.2⟩
        · cases found

theorem power {base exponent : Text} (without : '\\' ∉ base) (raised : exponent.IsFollowed) :
    (Text.power base exponent).IsFollowed := by
  unfold Text.power
  split
  · rename_i coefficient found
    refine (of_not_mem (not_mem_of_beforeEuler? without found)).append ?_
    refine (of_not_mem (by decide)).append ?_
    split
    · exact raised
    · exact raised.parenthesized
  · exact ((of_not_mem without).append (raised.cons (by decide))).parenthesized

end IsFollowed

/-- A letter in front of a base is followed by the base still, or its power begins with another
letter or a parenthesis. -/
theorem head?_resolveExponents_of_isAlpha (vocabulary : Vocabulary) {c : Char}
    (letter : c.isAlpha = true) (text : Text) :
    (resolveExponents vocabulary (c :: text)).head?.any mayFollow = true := by
  have isBase := isBaseChar_of_isAlpha c letter
  have first := mayFollow_of_isAlpha letter
  have nonempty : (c :: text).takeWhile isBaseChar = c :: text.takeWhile isBaseChar :=
    List.takeWhile_cons_of_pos isBase
  rw [resolveExponents]
  simp only [nonempty]
  split
  · exact first
  · split
    · split
      · rename_i exponent _
        unfold power
        split
        · rename_i coefficient found
          simp only [beforeEuler?] at found
          split at found
          · split at found
            · cases found
              cases text.takeWhile isBaseChar with
              | nil => rfl
              | cons d base => exact first
            · cases found
          · cases found
        · rfl
      · exact first
    · exact first

/-- Forming powers leaves a letter or a parenthesis after each backslash. -/
theorem isFollowed_resolveExponents (vocabulary : Vocabulary) {text : Text}
    (only : text.HasWordsOnly) : (text.resolveExponents vocabulary).IsFollowed := by
  revert only
  apply resolveExponents_induct vocabulary (motive := fun text raised =>
    text.HasWordsOnly → raised.IsFollowed)
  · intro run all _
    exact .of_not_mem (not_mem_of_all_isBaseChar all)
  · intro run gap script exponent all _ isExponent ih only
    obtain ⟨ofExponent, ofRest⟩ :=
      (ih only.of_append_right.of_append_right.tail).exponent? isExponent
    exact (IsFollowed.power (not_mem_of_all_isBaseChar all) ofExponent).append ofRest
  · intro run gap script all blank ih only
    have later := ih only.of_append_right.of_append_right.tail
    apply (IsFollowed.of_not_mem (not_mem_of_all_isBaseChar all)).append
    exact (IsFollowed.of_not_mem (not_mem_of_all_isAsciiBlank blank)).append
      (later.cons (by decide))
  · intro run c rest all ih only
    have onlyRest := only.of_append_right
    refine (IsFollowed.of_not_mem (not_mem_of_all_isBaseChar all)).append ⟨?_, ih onlyRest.tail⟩
    rintro rfl
    have next := (IsFollowed.of_hasWordsOnly onlyRest).1 rfl
    cases rest with
    | nil => cases next
    | cons d rest =>
        refine head?_resolveExponents_of_isAlpha vocabulary ?_ rest
        cases letter : d.isAlpha with
        | true => rfl
        | false =>
            refine absurd ?_ onlyRest
            simp [letter]

theorem head?_joinGroups_of_mayFollow {text : Text}
    (follows : text.head?.any mayFollow = true) :
    (joinGroups text).head?.any mayFollow = true := by
  fun_cases joinGroups text with
  | case1 => exact follows
  | case2 => exact absurd (show mayFollow '\x7d' = true from follows) (by decide)
  | case3 => exact follows
  | case4 => exact follows

theorem isFollowed_joinGroups {text : Text} (followed : text.IsFollowed) :
    (joinGroups text).IsFollowed := by
  fun_induction joinGroups text with
  | case1 => trivial
  | case2 rest after next ih =>
      have drops : DropsPlain rest (trimStart rest) := .dropWhile (by decide) rest
      obtain ⟨blanks, split, _⟩ := drops
      rw [next] at split
      have later := followed.2
      rw [split] at later
      exact (IsFollowed.of_not_mem (by decide)).append (ih later.of_append_right.2)
  | case3 rest _ ih => exact (ih followed.2).cons (by decide)
  | case4 c rest _ ih =>
      exact ⟨fun back => head?_joinGroups_of_mayFollow (followed.1 back), ih followed.2⟩

theorem isFollowed_map_flatBracket {text : Text} (followed : text.IsFollowed) :
    IsFollowed (text.map flatBracket) := by
  induction text with
  | nil => trivial
  | cons c rest ih =>
      refine ⟨fun back => ?_, ih followed.2⟩
      have next := followed.1 (flatBracket_eq_backslash_iff.1 back)
      cases rest with
      | nil => cases next
      | cons d rest =>
          have follows : mayFollow d = true := next
          have same : flatBracket d = d := by
            unfold flatBracket
            split
            · rename_i opener
              rcases opener with rfl | rfl <;> exact absurd follows (by decide)
            · split
              · rename_i closer
                rcases closer with rfl | rfl <;> exact absurd follows (by decide)
              · rfl
          rw [List.map_cons, same]
          exact follows

theorem isFollowed_collapseAfter {text : Text} (followed : text.IsFollowed)
    (isBlankBefore : Bool) : (text.collapseAfter isBlankBefore).IsFollowed := by
  fun_induction collapseAfter isBlankBefore text with
  | case1 => trivial
  | case2 c rest blank ih => exact ih followed.2
  | case3 _ c rest blank _ ih => exact (ih followed.2).cons (by decide)
  | case4 _ c rest _ ih =>
      refine ⟨fun back => ?_, ih followed.2⟩
      have next := followed.1 back
      cases rest with
      | nil => cases next
      | cons d rest =>
          rw [collapseAfter]
          split
          · rename_i blank
            rw [List.head?_cons, Option.any_some, mayFollow_eq_false_of_isBlank blank] at next
            cases next
          · exact next

theorem isFollowed_flatten {text : Text} (followed : text.IsFollowed) :
    text.flatten.IsFollowed :=
  (isFollowed_collapseAfter (isFollowed_map_flatBracket (isFollowed_joinGroups followed))
    false).trim

end Text

end TexCalc
