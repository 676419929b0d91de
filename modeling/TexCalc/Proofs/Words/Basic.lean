import TexCalc.Proofs.Text.Characters
import TexCalc.Proofs.Text.Runs
import TexCalc.Proofs.Text.Trimming
import TexCalc.Tex.Argument

/-!
# The control words of a text

The names of the control words are read off a text without cutting it into pieces: they
are the letters that follow each backslash.  A text in which every backslash is followed
by a letter has control words and no other control sequences.

The names in two texts put together are the names in the one and then those in the other,
unless the first text ends inside a control word that the second one continues.  Where a
reader stops, no control word is cut in two.
-/

namespace TexCalc

namespace Text

/-- The letters that follow each backslash of a text. -/
def words : Text → List Text
  | [] => []
  | c :: rest => if c = '\\' then rest.takeWhile Char.isAlpha :: words rest else words rest

/-- Every backslash of the text is followed by a letter. -/
def HasWordsOnly (text : Text) : Prop :=
  [] ∉ text.words

instance (text : Text) : Decidable text.HasWordsOnly :=
  inferInstanceAs (Decidable (¬ _))

/-- Whether no control word that ends here could be continued by the text. -/
def endsWord (text : Text) : Bool :=
  text.endsRun Char.isAlpha

/-- Whether the end of a text is inside a control word, its start being inside one or
not. -/
def insideWord (inside : Bool) : Text → Bool
  | [] => inside
  | c :: rest => insideWord (c == '\\' || inside && c.isAlpha) rest

@[simp] theorem words_nil : words [] = [] :=
  rfl

@[simp] theorem words_cons_backslash (rest : Text) :
    words ('\\' :: rest) = rest.takeWhile Char.isAlpha :: words rest :=
  rfl

@[simp] theorem words_cons_of_ne {c : Char} (other : c ≠ '\\') (rest : Text) :
    words (c :: rest) = words rest :=
  if_neg other

theorem ne_backslash_of_isAlpha {c : Char} (letter : c.isAlpha = true) : c ≠ '\\' := by
  rintro rfl
  exact absurd letter (by decide)

theorem takeWhile_eq_nil_of_endsWord {text : Text} (ends : text.endsWord = true) :
    text.takeWhile Char.isAlpha = [] :=
  takeWhile_eq_nil_of_endsRun ends

/-- What follows a run of letters ends a control word. -/
theorem endsWord_dropWhile (text : Text) :
    endsWord (text.dropWhile Char.isAlpha) = true := by
  cases left : text.dropWhile Char.isAlpha with
  | nil => rfl
  | cons c rest =>
      have holds := List.head?_dropWhile_not Char.isAlpha text
      rw [left] at holds
      simpa [endsWord, endsRun] using holds

@[simp] theorem insideWord_append (inside : Bool) (left right : Text) :
    insideWord inside (left ++ right) = insideWord (insideWord inside left) right := by
  induction left generalizing inside with
  | nil => rfl
  | cons c left ih => exact ih _

/-- A text that is inside a control word only if its start is, is inside one at its end
when its start is. -/
theorem insideWord_true_of_false {text : Text} (ends : insideWord false text = true) :
    insideWord true text = true := by
  induction text with
  | nil => cases ends
  | cons c rest ih =>
      simp only [insideWord, Bool.false_and, Bool.or_false, Bool.true_and] at ends ⊢
      cases letter : c.isAlpha with
      | false => simpa using ends
      | true =>
          cases back : c == '\\' with
          | false => exact ih (back ▸ ends)
          | true => simpa [back] using ends

/-- A run of letters stays inside the control word in which it begins. -/
theorem insideWord_true_of_all {letters : Text} (all : letters.all Char.isAlpha = true) :
    insideWord true letters = true := by
  induction letters with
  | nil => rfl
  | cons c rest ih =>
      simp only [List.all_cons, Bool.and_eq_true] at all
      simp [insideWord, all.1, ih all.2]

theorem insideWord_of_not_mem {text : Text} (without : '\\' ∉ text) :
    insideWord false text = false := by
  induction text with
  | nil => rfl
  | cons c rest ih =>
      simp only [List.mem_cons, not_or] at without
      have other : (c == '\\') = false := by simpa using Ne.symm without.1
      simp [insideWord, other, ih without.2]

/-- The names of two texts put together, when no control word runs from the one into the
other. -/
theorem words_append {left right : Text}
    (seam : insideWord false left = true → right.endsWord = true) :
    words (left ++ right) = words left ++ words right := by
  induction left with
  | nil => rfl
  | cons c left ih =>
      by_cases back : c = '\\'
      · subst back
        have later : insideWord false left = true → right.endsWord = true :=
          fun inside => seam (insideWord_true_of_false inside)
        have name : (left ++ right).takeWhile Char.isAlpha = left.takeWhile Char.isAlpha := by
          rw [List.takeWhile_append]
          split
          · rename_i whole
            have run := (List.takeWhile_prefix Char.isAlpha).eq_of_length whole
            have letters : left.all Char.isAlpha = true := run ▸ List.all_takeWhile
            rw [takeWhile_eq_nil_of_endsWord (seam (insideWord_true_of_all letters)),
              List.append_nil, run]
          · rfl
        rw [List.cons_append, words_cons_backslash, words_cons_backslash, name, ih later,
          List.cons_append]
      · rw [List.cons_append, words_cons_of_ne back, words_cons_of_ne back]
        apply ih
        intro inside
        apply seam
        have other : (c == '\\') = false := by simpa using back
        simpa [insideWord, other] using inside

theorem words_append_of_endsWord {left right : Text} (ends : right.endsWord = true) :
    words (left ++ right) = words left ++ words right :=
  words_append fun _ => ends

/-- A character that is neither a letter nor a backslash stands between control words. -/
theorem words_append_cons {left right : Text} {c : Char} (noLetter : c.isAlpha = false)
    (other : c ≠ '\\') : words (left ++ c :: right) = words left ++ words right := by
  rw [words_append_of_endsWord (by simp [endsWord, endsRun, noLetter]), words_cons_of_ne other]

theorem words_of_not_mem {text : Text} (without : '\\' ∉ text) : text.words = [] := by
  induction text with
  | nil => rfl
  | cons c rest ih =>
      simp only [List.mem_cons, not_or] at without
      rw [words_cons_of_ne (Ne.symm without.1), ih without.2]

theorem words_append_of_not_mem {left : Text} (without : '\\' ∉ left) (right : Text) :
    words (left ++ right) = words right := by
  rw [words_append (by simp [insideWord_of_not_mem without]), words_of_not_mem without,
    List.nil_append]

/-- There are as many names as backslashes. -/
theorem length_words (text : Text) : text.words.length = text.count '\\' := by
  induction text with
  | nil => rfl
  | cons c rest ih =>
      by_cases back : c = '\\'
      · subst back
        rw [words_cons_backslash, List.length_cons, ih, List.count_cons_self]
      · rw [words_cons_of_ne back, ih, List.count_cons_of_ne back]

theorem not_mem_of_all_isAlpha {letters : Text} (all : letters.all Char.isAlpha = true) :
    '\\' ∉ letters := by
  intro isMember
  exact ne_backslash_of_isAlpha (List.all_eq_true.1 all _ isMember) rfl

theorem takeWhile_of_all_isAlpha {letters : Text} (all : letters.all Char.isAlpha = true) :
    letters.takeWhile Char.isAlpha = letters :=
  takeWhile_of_all all

theorem hasWordsOnly_of_not_mem {text : Text} (without : '\\' ∉ text) : text.HasWordsOnly := by
  simp [HasWordsOnly, words_of_not_mem without]

theorem HasWordsOnly.append {left right : Text} (first : left.HasWordsOnly)
    (second : right.HasWordsOnly) : HasWordsOnly (left ++ right) := by
  induction left with
  | nil => exact second
  | cons c left ih =>
      by_cases back : c = '\\'
      · subst back
        simp only [HasWordsOnly, words_cons_backslash, List.mem_cons, not_or] at first
        simp only [HasWordsOnly, List.cons_append, words_cons_backslash, List.mem_cons, not_or]
        refine ⟨fun none => ?_, ih first.2⟩
        cases left with
        | nil => exact first.1 rfl
        | cons d left =>
            have noLetter : d.isAlpha = false := by
              cases letter : d.isAlpha with
              | false => rfl
              | true => simp [letter] at none
            exact first.1 (by simp [noLetter])
      · rw [HasWordsOnly, words_cons_of_ne back] at first
        rw [HasWordsOnly, List.cons_append, words_cons_of_ne back]
        exact ih first

/-! ## Blanks and parentheses -/

theorem not_isAlpha_of_isBlank {c : Char} (blank : isBlank c = true) :
    c.isAlpha = false ∧ c ≠ '\\' := by
  refine ⟨isAlpha_eq_false_of_isBlank blank, ?_⟩
  rintro rfl
  exact absurd blank (by decide)

theorem not_mem_of_isAllBlank {blanks : Text} (allBlank : blanks.isAllBlank = true) :
    '\\' ∉ blanks := by
  intro isMember
  exact (not_isAlpha_of_isBlank (List.all_eq_true.1 allBlank _ isMember)).2 rfl

theorem endsWord_of_isAllBlank {blanks : Text} (allBlank : blanks.isAllBlank = true) :
    blanks.endsWord = true := by
  cases blanks with
  | nil => rfl
  | cons c rest =>
      have blank := List.all_eq_true.1 allBlank c List.mem_cons_self
      simp [endsWord, endsRun, (not_isAlpha_of_isBlank blank).1]

@[simp] theorem words_trim (text : Text) : text.trim.words = text.words := by
  obtain ⟨lead, trail, split, leadBlank, trailBlank⟩ := text.exists_trim_eq
  conv => rhs; rw [split]
  rw [words_append_of_not_mem (not_mem_of_isAllBlank leadBlank),
    words_append_of_endsWord (endsWord_of_isAllBlank trailBlank),
    words_of_not_mem (not_mem_of_isAllBlank trailBlank), List.append_nil]

@[simp] theorem words_parenthesized (text : Text) : text.parenthesized.words = text.words := by
  rw [parenthesized, words_cons_of_ne (by decide),
    words_append_cons (by decide) (by decide), words_nil, List.append_nil]

@[simp] theorem words_wrap (text : Text) : text.wrap.words = text.words := by
  rw [wrap]
  split <;> simp

/-- Text in parentheses ends whatever stands before it, and the text after it begins
anew. -/
theorem words_parenthesized_append (text right : Text) :
    words (text.parenthesized ++ right) = text.words ++ words right := by
  rw [parenthesized, List.cons_append, List.append_assoc, List.cons_append, List.nil_append,
    words_cons_of_ne (by decide), words_append_cons (by decide) (by decide)]

end Text

end TexCalc
