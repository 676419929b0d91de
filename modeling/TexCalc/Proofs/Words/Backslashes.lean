import TexCalc.Proofs.Words.Calls
import TexCalc.Linear.Flat
import TexCalc.Linear.Power
import TexCalc.Linear.Reciprocal

/-!
# The backslashes of the last steps

Once all calls are complete, parked functions are written out, powers are formed, and the
text is made flat.  These steps keep the number of backslashes.  A power whose base follows a
backslash puts a parenthesis between the two, so that it is no longer true that a letter
follows, but two backslashes never come to stand side by side.
-/

namespace TexCalc

/-! ## Parked functions -/

namespace Parked

theorem not_mem_name (parked : Parked) : '\\' ∉ parked.name :=
  (Callable.parked parked).not_mem_text

theorem not_mem_target (parked : Parked) : '\\' ∉ parked.target := by
  rcases parked with ⟨function, inverse⟩
  cases function <;> cases inverse <;> decide

theorem words_applied_append (parked : Parked) (argument right : Text) :
    (parked.applied argument ++ right).words = argument.words ++ right.words := by
  unfold applied
  split
  · rw [List.append_assoc, Text.words_append_of_not_mem parked.not_mem_target,
      Text.words_parenthesized_append, Text.words_append_of_not_mem (by decide),
      Text.words_wrap]
  · rw [Text.words_parenthesized_append, List.append_assoc,
      Text.words_append_of_not_mem (by decide),
      Text.words_append_of_not_mem parked.not_mem_target, Text.words_parenthesized]

theorem words_bare_append (parked : Parked) (right : Text) :
    (parked.bare ++ right).words = right.words := by
  unfold bare
  split
  · exact Text.words_append_of_not_mem parked.not_mem_target right
  · rw [Text.words_parenthesized_append, Text.words_append_of_not_mem (by decide),
      Text.words_of_not_mem parked.not_mem_target, List.nil_append]

/-- Writing out one function keeps the words of the text after it. -/
theorem words_writtenOut (parked : Parked) (text : Text) :
    (parked.writtenOut text).words = text.words := by
  rcases parked.writtenOut_cases text with bare | ⟨bracket, rest, group, start, _, isGroup, applied⟩
  · rw [bare, words_bare_append]
  · have skipped := (Text.DropsPlain.skipBlanks text).words_eq
    rw [applied, words_applied_append, skipped, start,
      Text.words_cons_of_ne (Text.not_isAlpha_opener bracket).2, Text.words_of_group? isGroup]

/-- Writing out the last parked name keeps the backslashes, and the letters after each of
them are not cut off. -/
theorem length_words_writeOutLast? {text written : Text}
    (found : writeOutLast? text = some written) :
    written.words.length = text.words.length ∧
      (text.HasWordsOnly → written.HasWordsOnly) ∧
      text.takeWhile Char.isAlpha <+: written.takeWhile Char.isAlpha := by
  apply writeOutLast?_induct (motive := fun text written =>
    written.words.length = text.words.length ∧ (text.HasWordsOnly → written.HasWordsOnly) ∧
      text.takeWhile Char.isAlpha <+: written.takeWhile Char.isAlpha) _ _ found
  · intro parked after
    have same : (parked.writtenOut after).words = Text.words (parked.name ++ after) := by
      rw [words_writtenOut, Text.words_append_of_not_mem parked.not_mem_name]
    refine ⟨congrArg _ same, fun onlyWords => ?_, ?_⟩
    · rw [Text.HasWordsOnly, same]
      exact onlyWords
    · have mark : (parked.name ++ after).takeWhile Char.isAlpha = [] := by
        rw [name, List.cons_append]
        rfl
      rw [mark]
      exact List.nil_prefix
  · rintro c rest later - ⟨length, only, run⟩
    have runs : (c :: rest).takeWhile Char.isAlpha <+: (c :: later).takeWhile Char.isAlpha := by
      simp only [List.takeWhile_cons]
      split
      · exact (List.prefix_cons_inj c).2 run
      · exact List.prefix_refl _
    refine ⟨?_, ?_, runs⟩
    · by_cases back : c = '\\'
      · subst back
        simp [length]
      · rw [Text.words_cons_of_ne back, Text.words_cons_of_ne back, length]
    · intro onlyWords
      by_cases back : c = '\\'
      · subst back
        simp only [Text.HasWordsOnly, Text.words_cons_backslash, List.mem_cons,
          not_or] at onlyWords ⊢
        refine ⟨fun none => onlyWords.1 ?_, only onlyWords.2⟩
        rw [← none] at run
        exact (List.prefix_nil.1 run).symm
      · rw [Text.HasWordsOnly, Text.words_cons_of_ne back] at onlyWords ⊢
        exact only onlyWords

theorem count_writeOutUpTo (rounds : Nat) (text : Text) :
    (writeOutUpTo rounds text).count '\\' = text.count '\\' := by
  apply writeOutUpTo_induct (motive := fun written => written.count '\\' = text.count '\\') _ _ rfl
  intro text written found kept
  have length := (length_words_writeOutLast? found).1
  rw [Text.length_words, Text.length_words] at length
  exact length.trans kept

theorem hasWordsOnly_writeOutUpTo (rounds : Nat) {text : Text} (only : text.HasWordsOnly) :
    (writeOutUpTo rounds text).HasWordsOnly := by
  apply writeOutUpTo_induct (motive := Text.HasWordsOnly) _ _ only
  intro text written found kept
  exact (length_words_writeOutLast? found).2.1 kept

end Parked

namespace Text

theorem count_expandParked (text : Text) : text.expandParked.count '\\' = text.count '\\' :=
  Parked.count_writeOutUpTo _ text

theorem hasWordsOnly_expandParked {text : Text} (only : text.HasWordsOnly) :
    text.expandParked.HasWordsOnly :=
  Parked.hasWordsOnly_writeOutUpTo _ only

/-! ## Backslashes apart from each other -/

/-- No two backslashes stand side by side. -/
def IsApart : Text → Prop
  | [] => True
  | c :: rest => (c = '\\' → rest.head? ≠ some '\\') ∧ IsApart rest

namespace IsApart

theorem of_not_mem {text : Text} (without : '\\' ∉ text) : text.IsApart := by
  induction text with
  | nil => trivial
  | cons c rest ih =>
      simp only [List.mem_cons, not_or] at without
      exact ⟨fun back => absurd back.symm without.1, ih without.2⟩

theorem of_append_right {left right : Text} (apart : IsApart (left ++ right)) :
    right.IsApart := by
  induction left with
  | nil => exact apart
  | cons c left ih => exact ih apart.2

theorem of_append_left {left right : Text} (apart : IsApart (left ++ right)) :
    left.IsApart := by
  induction left with
  | nil => trivial
  | cons c left ih =>
      refine ⟨fun back same => apart.1 back ?_, ih apart.2⟩
      cases left with
      | nil => cases same
      | cons d left => exact same

theorem append {left right : Text} (first : left.IsApart) (second : right.IsApart)
    (seam : left.getLast? ≠ some '\\' ∨ right.head? ≠ some '\\') : IsApart (left ++ right) := by
  induction left with
  | nil => exact second
  | cons c left ih =>
      cases left with
      | nil =>
          refine ⟨fun back same => ?_, second⟩
          subst back
          exact seam.elim (fun last => last rfl) fun head => head same
      | cons d left =>
          rw [List.getLast?_cons_cons] at seam
          exact ⟨first.1, ih first.2 seam⟩

/-- A text without a backslash may stand in front of any other. -/
theorem append_left {left right : Text} (without : '\\' ∉ left) (second : right.IsApart) :
    IsApart (left ++ right) :=
  (of_not_mem without).append second (.inl fun last => without (List.mem_of_getLast? last))

theorem parenthesized_append {text right : Text} (inside : text.IsApart)
    (after : right.IsApart) : IsApart (text.parenthesized ++ right) := by
  rw [parenthesized, List.cons_append, List.append_assoc]
  refine ⟨fun back => absurd back (by decide), inside.append ?_ (.inr (by simp))⟩
  exact ⟨fun back => absurd back (by decide), after⟩

theorem trim {text : Text} (apart : text.IsApart) : text.trim.IsApart := by
  obtain ⟨lead, trail, split, _, _⟩ := text.exists_trim_eq
  rw [split] at apart
  exact apart.of_append_right.of_append_left

theorem skipBlanks {text : Text} (apart : text.IsApart) : text.skipBlanks.IsApart := by
  have whole : text.takeWhile isAsciiBlank ++ text.skipBlanks = text :=
    List.takeWhile_append_dropWhile
  rw [← whole] at apart
  exact apart.of_append_right

end IsApart

/-! ## Powers -/

theorem not_mem_of_all_isBaseChar {run : Text} (all : run.all isBaseChar = true) :
    '\\' ∉ run := by
  intro isMember
  exact absurd (List.all_eq_true.1 all _ isMember) (by decide)

theorem not_mem_of_all_isAsciiBlank {gap : Text} (blank : gap.all isAsciiBlank = true) :
    '\\' ∉ gap := by
  intro isMember
  exact absurd (List.all_eq_true.1 blank _ isMember) (by decide)

/-- A wrapped text ends with a parenthesis. -/
theorem getLast?_wrap (text : Text) : text.wrap.getLast? ≠ some '\\' := by
  obtain ⟨inside, isWrapped, _⟩ := text.exists_wrap_eq
  rw [isWrapped, parenthesized, ← List.cons_append, List.getLast?_concat]
  decide

theorem IsApart.wrap {text : Text} (apart : text.IsApart) : text.wrap.IsApart := by
  have trimmed := apart.trim
  unfold Text.wrap
  split
  · exact trimmed
  · have nothing : IsApart [] := trivial
    have alone := trimmed.parenthesized_append nothing
    rwa [List.append_nil] at alone

/-- An exponent has the backslashes of the text that it is read from, and ends with none. -/
theorem IsApart.exponent? {vocabulary : Vocabulary} {text : Text} {exponent : Cut}
    (apart : text.IsApart) (found : text.exponent? vocabulary = some exponent) :
    exponent.text.IsApart ∧ exponent.rest.IsApart ∧ exponent.text.getLast? ≠ some '\\' := by
  have skipped := apart.skipBlanks
  simp only [Text.exponent?] at found
  split at found
  · cases found
  · rename_i c rest start
    rw [start] at skipped
    split at found
    · rename_i bracket opens
      obtain ⟨group, isGroup, rfl⟩ := Option.map_eq_some_iff.1 found
      have within := skipped.2
      rw [Bracket.eq_of_group? isGroup] at within
      exact ⟨within.of_append_left.wrap, within.of_append_right.2, group.inside.getLast?_wrap⟩
    · split at found
      · rename_i name after isConstant
        cases found
        have plain := not_mem_name name
        rw [Vocabulary.eq_of_constantAt? isConstant] at skipped
        exact ⟨.of_not_mem plain, skipped.of_append_right,
          fun last => plain (List.mem_of_getLast? last)⟩
      · split at found
        · rename_i word
          cases found
          have other := ne_backslash_of_isAlphanum word
          exact ⟨.of_not_mem (by simpa using Ne.symm other), skipped.2, by simpa using other⟩
        · cases found

/-- The coefficient in front of Euler's number is a part of the base. -/
theorem not_mem_of_beforeEuler? {base coefficient : Text} (without : '\\' ∉ base)
    (found : base.beforeEuler? = some coefficient) : '\\' ∉ coefficient := by
  simp only [beforeEuler?] at found
  split at found
  · split at found
    · cases found
      exact fun isMember => without (List.dropLast_subset _ isMember)
    · cases found
  · cases found

/-- An exponential has the backslashes of its exponent. -/
theorem count_exponential (exponent : Text) :
    exponent.exponential.count '\\' = exponent.count '\\' := by
  have name : List.count '\\' "exp".toList = 0 := by decide
  unfold exponential
  split
  · rw [List.count_append, name, Nat.zero_add]
  · rw [List.count_append, name, Nat.zero_add, count_parenthesized (by decide)]

theorem count_power {base : Text} (without : '\\' ∉ base) (exponent : Text) :
    (power base exponent).count '\\' = exponent.count '\\' := by
  unfold power
  split
  · rename_i coefficient found
    rw [List.count_append, count_exponential,
      List.count_eq_zero.2 (not_mem_of_beforeEuler? without found), Nat.zero_add]
  · rw [count_parenthesized (by decide), List.count_append, List.count_eq_zero.2 without,
      Nat.zero_add, List.count_cons_of_ne (by decide)]

theorem isApart_power_append {base exponent right : Text} (without : '\\' ∉ base)
    (raised : exponent.IsApart) (last : exponent.getLast? ≠ some '\\')
    (after : right.IsApart) : IsApart (power base exponent ++ right) := by
  unfold power
  split
  · rename_i coefficient found
    rw [exponential, List.append_assoc, List.append_assoc]
    refine .append_left (not_mem_of_beforeEuler? without found) (.append_left (by decide) ?_)
    split
    · exact raised.append after (.inl last)
    · exact raised.parenthesized_append after
  · refine IsApart.parenthesized_append (.append_left without ?_) after
    exact ⟨fun back => absurd back (by decide), raised⟩

/-- A base stays in front of its power, or a parenthesis or a name comes there. -/
theorem head?_resolveExponents (vocabulary : Vocabulary) {c : Char} (isBase : isBaseChar c = true)
    (text : Text) : (resolveExponents vocabulary (c :: text)).head? ≠ some '\\' := by
  have first : c ≠ '\\' := by
    rintro rfl
    exact absurd isBase (by decide)
  have nonempty : (c :: text).takeWhile isBaseChar = c :: text.takeWhile isBaseChar :=
    List.takeWhile_cons_of_pos isBase
  have without : '\\' ∉ (c :: text).takeWhile isBaseChar :=
    not_mem_of_all_isBaseChar List.all_takeWhile
  rw [resolveExponents]
  simp only [nonempty]
  split
  · simpa using first
  · split
    · split
      · rename_i exponent _
        unfold power
        split
        · rename_i coefficient found
          have plain := not_mem_of_beforeEuler? (nonempty ▸ without) found
          cases coefficient with
          | nil => exact fun same => by cases same
          | cons d coefficient =>
              simp only [List.mem_cons, not_or] at plain
              simpa using Ne.symm plain.1
        · exact fun same => by cases same
      · simpa using first
    · simpa using first

/-- Forming powers keeps the number of backslashes, and keeps them apart. -/
theorem backslashes_resolveExponents (vocabulary : Vocabulary) {text : Text}
    (only : text.HasWordsOnly) :
    (text.resolveExponents vocabulary).IsApart ∧
      (text.resolveExponents vocabulary).count '\\' = text.count '\\' := by
  have noCaret (text : Text) : List.count '\\' ('^' :: text) = text.count '\\' :=
    List.count_cons_of_ne (by decide)
  revert only
  apply resolveExponents_induct vocabulary (motive := fun text raised =>
    text.HasWordsOnly → raised.IsApart ∧ raised.count '\\' = text.count '\\')
  · intro run all _
    exact ⟨.of_not_mem (not_mem_of_all_isBaseChar all), rfl⟩
  · intro run gap script exponent all blank isExponent ih only
    have without := not_mem_of_all_isBaseChar all
    obtain ⟨apart, count⟩ := ih only.of_append_right.of_append_right.tail
    obtain ⟨exponentApart, restApart, last⟩ := apart.exponent? isExponent
    refine ⟨isApart_power_append without exponentApart last restApart, ?_⟩
    have read := congrArg List.length (words_of_exponent? isExponent)
    rw [List.length_append, length_words, length_words, length_words] at read
    rw [List.count_append, count_power without, ← read, List.count_append,
      List.count_eq_zero.2 without, List.count_append,
      List.count_eq_zero.2 (not_mem_of_all_isAsciiBlank blank), noCaret, Nat.zero_add,
      Nat.zero_add]
    exact count
  · intro run gap script all blank ih only
    obtain ⟨apart, count⟩ := ih only.of_append_right.of_append_right.tail
    refine ⟨.append_left (not_mem_of_all_isBaseChar all)
      (.append_left (not_mem_of_all_isAsciiBlank blank)
        ⟨fun back => absurd back (by decide), apart⟩), ?_⟩
    rw [List.count_append, List.count_append, noCaret, List.count_append, List.count_append,
      noCaret, count]
  · intro run c rest all ih only
    have onlyRest := only.of_append_right
    obtain ⟨apart, count⟩ := ih onlyRest.tail
    refine ⟨.append_left (not_mem_of_all_isBaseChar all) ⟨?_, apart⟩, ?_⟩
    · rintro rfl
      cases rest with
      | nil => exact absurd List.mem_cons_self onlyRest
      | cons d rest =>
          have letter : d.isAlpha = true := by
            cases letter : d.isAlpha with
            | true => rfl
            | false =>
                refine absurd ?_ onlyRest
                simp [letter]
          exact head?_resolveExponents vocabulary (by simp [isBaseChar, Char.isAlphanum, letter])
            rest
    · rw [List.count_append, List.count_append, List.count_cons, List.count_cons, count]

/-! ## Flat text -/

theorem head?_joinGroups {text : Text} (other : text.head? ≠ some '\\') :
    (joinGroups text).head? ≠ some '\\' := by
  fun_cases joinGroups text with
  | case1 => exact other
  | case2 => exact fun same => by cases same
  | case3 => exact other
  | case4 => exact other

theorem isApart_joinGroups {text : Text} (apart : text.IsApart) : (joinGroups text).IsApart := by
  fun_induction joinGroups text with
  | case1 => trivial
  | case2 rest after next ih =>
      have drops : DropsPlain rest (trimStart rest) := .dropWhile (by decide) rest
      obtain ⟨blanks, split, _⟩ := drops
      rw [next] at split
      have later := apart.2
      rw [split] at later
      exact .append_left (by decide) (ih later.of_append_right.2)
  | case3 rest _ ih => exact ⟨fun back => absurd back (by decide), ih apart.2⟩
  | case4 c rest _ ih => exact ⟨fun back => head?_joinGroups (apart.1 back), ih apart.2⟩

theorem count_joinGroups (text : Text) : (joinGroups text).count '\\' = text.count '\\' := by
  fun_induction joinGroups text with
  | case1 => rfl
  | case2 rest after next ih =>
      have trimmed : rest.count '\\' = (trimStart rest).count '\\' := by
        rw [← length_words, ← length_words]
        exact congrArg _ (DropsPlain.dropWhile (by decide) rest).words_eq
      have sign : List.count '\\' ")*(".toList = 0 := by decide
      rw [List.count_append, sign, Nat.zero_add, ih, List.count_cons_of_ne (by decide), trimmed,
        next, List.count_cons_of_ne (by decide)]
  | case3 rest _ ih => rw [List.count_cons, List.count_cons, ih]
  | case4 c rest _ ih => rw [List.count_cons, List.count_cons, ih]

theorem flatBracket_eq_backslash_iff {c : Char} : flatBracket c = '\\' ↔ c = '\\' := by
  unfold flatBracket
  split
  · rename_i opener
    rcases opener with rfl | rfl <;> decide
  · split
    · rename_i closer
      rcases closer with rfl | rfl <;> decide
    · exact Iff.rfl

theorem isApart_map_flatBracket {text : Text} (apart : text.IsApart) :
    IsApart (text.map flatBracket) := by
  induction text with
  | nil => trivial
  | cons c rest ih =>
      refine ⟨fun back same => ?_, ih apart.2⟩
      cases rest with
      | nil => cases same
      | cons d rest =>
          have second : flatBracket d = '\\' := by simpa using same
          exact apart.1 (flatBracket_eq_backslash_iff.1 back)
            (by rw [flatBracket_eq_backslash_iff.1 second]; rfl)

theorem count_map_flatBracket (text : Text) :
    List.count '\\' (text.map flatBracket) = text.count '\\' := by
  induction text with
  | nil => rfl
  | cons c rest ih =>
      by_cases back : c = '\\'
      · subst back
        rw [List.map_cons, flatBracket_eq_backslash_iff.2 rfl, List.count_cons_self,
          List.count_cons_self, ih]
      · rw [List.map_cons, List.count_cons_of_ne (mt flatBracket_eq_backslash_iff.1 back),
          List.count_cons_of_ne back, ih]

theorem isApart_collapseAfter {text : Text} (apart : text.IsApart) (isBlankBefore : Bool) :
    (text.collapseAfter isBlankBefore).IsApart := by
  fun_induction collapseAfter isBlankBefore text with
  | case1 => trivial
  | case2 c rest blank ih => exact ih apart.2
  | case3 _ c rest blank _ ih => exact ⟨fun back => absurd back (by decide), ih apart.2⟩
  | case4 _ c rest _ ih =>
      refine ⟨fun back same => apart.1 back ?_, ih apart.2⟩
      cases rest with
      | nil => cases same
      | cons d rest =>
          rw [collapseAfter] at same
          split at same
          · cases same
          · exact same

theorem filter_collapseAfter {accept : Char → Bool}
    (visible : ∀ c, isBlank c = true → accept c = false) (isBlankBefore : Bool) (text : Text) :
    (text.collapseAfter isBlankBefore).filter accept = text.filter accept := by
  have skips {c : Char} (blank : isBlank c = true) (rest : Text) :
      List.filter accept (c :: rest) = rest.filter accept := by
    rw [List.filter_cons_of_neg]
    rw [visible c blank]
    exact Bool.false_ne_true
  fun_induction collapseAfter isBlankBefore text with
  | case1 => rfl
  | case2 c rest blank ih => rw [ih, skips blank]
  | case3 _ c rest blank _ ih => rw [skips (by decide), ih, skips blank]
  | case4 _ c rest _ ih => rw [List.filter_cons, List.filter_cons, ih]

theorem count_collapseAfter {c : Char} (visible : isBlank c = false) (isBlankBefore : Bool)
    (text : Text) : (text.collapseAfter isBlankBefore).count c = text.count c :=
  count_eq_of_filter_eq (filter_collapseAfter (beq_eq_false_of_isBlank visible) isBlankBefore text)

/-- Making a text flat keeps its backslashes apart. -/
theorem isApart_flatten {text : Text} (apart : text.IsApart) : text.flatten.IsApart :=
  (isApart_collapseAfter (isApart_map_flatBracket (isApart_joinGroups apart)) false).trim

theorem count_flatten (text : Text) : text.flatten.count '\\' = text.count '\\' := by
  rw [flatten, count_trim (by decide), collapseBlanks, count_collapseAfter (by decide),
    count_map_flatBracket, count_joinGroups]

end Text

end TexCalc
