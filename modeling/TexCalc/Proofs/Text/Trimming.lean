import TexCalc.Text.Bracket

/-!
# What trimming and wrapping leave in place

Trimming takes nothing but blanks from the two ends of a text, and wrapping adds
nothing but one pair of parentheses.  Whatever is blind to blanks and parentheses can
therefore be read off the text before or after, in particular the number of times that
any other character occurs.
-/

namespace TexCalc

namespace Text

theorem parenthesized_append (text right : Text) :
    text.parenthesized ++ right = '(' :: (text ++ ')' :: right) := by
  rw [parenthesized, List.cons_append, List.append_assoc, List.singleton_append]

/-- A text is its trimmed form between two runs of blanks. -/
theorem exists_trim_eq (text : Text) :
    ∃ lead trail : Text, text = lead ++ (text.trim ++ trail) ∧
      lead.isAllBlank = true ∧ trail.isAllBlank = true := by
  refine ⟨text.takeWhile isBlank,
    (text.trimStart.reverse.takeWhile isBlank).reverse, ?_, ?_, ?_⟩
  · have back : text.trim ++ (text.trimStart.reverse.takeWhile isBlank).reverse =
        text.trimStart := by
      rw [trim, trimEnd, ← List.reverse_append, List.takeWhile_append_dropWhile,
        List.reverse_reverse]
    rw [back, trimStart, List.takeWhile_append_dropWhile]
  · exact List.all_takeWhile
  · rw [isAllBlank, List.all_reverse]
    exact List.all_takeWhile

theorem trimStart_eq_of_head {c : Char} {rest : Text} (visible : isBlank c = false) :
    trimStart (c :: rest) = c :: rest := by
  simp [trimStart, visible]

theorem trimEnd_eq_of_last {c : Char} {lead : Text} (visible : isBlank c = false) :
    trimEnd (lead ++ [c]) = lead ++ [c] := by
  simp [trimEnd, visible]

/-- A text that neither begins nor ends with a blank is trimmed already. -/
theorem trim_eq_of_ends {first last : Char} {text lead rest : Text}
    (begins : text = first :: rest) (ends : text = lead ++ [last])
    (firstVisible : isBlank first = false) (lastVisible : isBlank last = false) :
    text.trim = text := by
  rw [trim, begins, trimStart_eq_of_head firstVisible, ← begins, ends,
    trimEnd_eq_of_last lastVisible]

/-- What is left after trimming neither begins nor ends with a blank. -/
theorem trim_trim (text : Text) : text.trim.trim = text.trim := by
  have kept : ∀ tail : Text, trimStart tail = tail → trimStart tail.trimEnd = tail.trimEnd := by
    intro tail whole
    cases shape : tail.trimEnd with
    | nil => rfl
    | cons c rest =>
        obtain ⟨trail, split⟩ : ∃ trail, tail = tail.trimEnd ++ trail :=
          ⟨(tail.reverse.takeWhile isBlank).reverse, by
            rw [trimEnd, ← List.reverse_append, List.takeWhile_append_dropWhile,
              List.reverse_reverse]⟩
        rw [shape] at split
        apply trimStart_eq_of_head
        cases blank : isBlank c with
        | false => rfl
        | true =>
            rw [split, List.cons_append, trimStart, List.dropWhile_cons_of_pos blank] at whole
            have shorter := length_dropWhile_le isBlank (rest ++ trail)
            rw [whole, List.length_cons] at shorter
            omega
  have start : trimStart text.trimStart = text.trimStart := by
    cases shape : text.trimStart with
    | nil => rfl
    | cons c rest =>
        have holds := List.head?_dropWhile_not isBlank text
        rw [show text.dropWhile isBlank = c :: rest from shape] at holds
        exact trimStart_eq_of_head (by simpa using holds)
  have finish (tail : Text) : tail.trimEnd.trimEnd = tail.trimEnd := by
    cases shape : tail.reverse.dropWhile isBlank with
    | nil => simp [trimEnd, shape]
    | cons c rest =>
        have holds := List.head?_dropWhile_not isBlank tail.reverse
        rw [shape] at holds
        have visible : isBlank c = false := by simpa using holds
        have shown : tail.trimEnd = rest.reverse ++ [c] := by
          rw [trimEnd, shape, List.reverse_cons]
        rw [shown, trimEnd_eq_of_last visible]
  rw [trim, trim, kept _ start, finish]

/-! ## Wrapped text -/

/-- A text that is one group in parentheses, blanks apart, has something between them. -/
theorem exists_of_isEnclosed {text : Text} (enclosed : text.isEnclosed = true) :
    ∃ inside, text.trim = parenthesized inside := by
  simp only [isEnclosed] at enclosed
  split at enclosed
  · rename_i rest trimmed
    split at enclosed
    · rename_i group isGroup
      have whole := Bracket.eq_of_group? isGroup
      rw [List.isEmpty_iff.1 enclosed] at whole
      exact ⟨group.inside, by rw [trimmed, whole]; rfl⟩
    · cases enclosed
  · cases enclosed

/-- A wrapped text is in parentheses, its own or new ones. -/
theorem exists_wrap_eq (text : Text) :
    ∃ inside, text.wrap = parenthesized inside ∧
      (text.trim = parenthesized inside ∨ text.trim = inside) := by
  unfold wrap
  split
  · rename_i enclosed
    obtain ⟨inside, trimmed⟩ := exists_of_isEnclosed enclosed
    exact ⟨inside, trimmed, .inl trimmed⟩
  · exact ⟨text.trim, rfl, .inr rfl⟩

/-! ## Counting characters -/

theorem count_eq_of_filter_eq {c : Char} {first second : Text}
    (same : first.filter (· == c) = second.filter (· == c)) : first.count c = second.count c := by
  rw [List.count_eq_length_filter, List.count_eq_length_filter, same]

/-- A character that is no blank makes up a class without blanks. -/
theorem beq_eq_false_of_isBlank {c : Char} (visible : isBlank c = false) (blank : Char)
    (isSpace : isBlank blank = true) : (blank == c) = false := by
  rw [beq_eq_false_iff_ne]
  rintro rfl
  rw [isSpace] at visible
  cases visible

theorem filter_eq_nil_of_isAllBlank {accept : Char → Bool} {blanks : Text}
    (visible : ∀ c, isBlank c = true → accept c = false) (allBlank : blanks.isAllBlank = true) :
    blanks.filter accept = [] := by
  rw [List.filter_eq_nil_iff]
  intro c isMember
  rw [visible c (List.all_eq_true.1 allBlank c isMember)]
  exact Bool.false_ne_true

theorem filter_trim {accept : Char → Bool} (visible : ∀ c, isBlank c = true → accept c = false)
    (text : Text) : text.trim.filter accept = text.filter accept := by
  obtain ⟨lead, trail, split, leadBlank, trailBlank⟩ := text.exists_trim_eq
  conv => rhs; rw [split]
  rw [List.filter_append, List.filter_append, filter_eq_nil_of_isAllBlank visible leadBlank,
    filter_eq_nil_of_isAllBlank visible trailBlank, List.nil_append, List.append_nil]

theorem count_eq_zero_of_isAllBlank {c : Char} {blanks : Text}
    (visible : isBlank c = false) (allBlank : blanks.isAllBlank = true) :
    blanks.count c = 0 := by
  rw [List.count_eq_length_filter,
    filter_eq_nil_of_isAllBlank (beq_eq_false_of_isBlank visible) allBlank]
  rfl

theorem count_skipBlanks {c : Char} (visible : isBlank c = false) (text : Text) :
    text.skipBlanks.count c = text.count c := by
  have allBlank : isAllBlank (text.takeWhile isAsciiBlank) = true := by
    rw [isAllBlank, List.all_eq_true]
    intro blank isMember
    exact isBlank_of_isAsciiBlank (List.all_eq_true.1 List.all_takeWhile blank isMember)
  conv => rhs; rw [← List.takeWhile_append_dropWhile (p := isAsciiBlank) (l := text)]
  rw [List.count_append, count_eq_zero_of_isAllBlank visible allBlank, Nat.zero_add]
  rfl

theorem count_trim {c : Char} (visible : isBlank c = false) (text : Text) :
    text.trim.count c = text.count c :=
  count_eq_of_filter_eq (filter_trim (beq_eq_false_of_isBlank visible) text)

theorem count_parenthesized {c : Char} (other : c ≠ '(' ∧ c ≠ ')') (text : Text) :
    text.parenthesized.count c = text.count c := by
  simp [parenthesized, Ne.symm other.1, Ne.symm other.2]

theorem count_wrap {c : Char} (visible : isBlank c = false) (other : c ≠ '(' ∧ c ≠ ')')
    (text : Text) : text.wrap.count c = text.count c := by
  rw [wrap]
  split
  · exact count_trim visible text
  · rw [count_parenthesized other, count_trim visible]

end Text

end TexCalc
