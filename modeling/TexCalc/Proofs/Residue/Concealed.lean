import TexCalc.Proofs.Linear.Operands
import TexCalc.Proofs.Words.Cut

/-!
# Residue behind backslashes

Dollar and percent signs, ties and bars have a meaning in a formula and none in an expression.  In
normal text they are left only as names of control sequences, each behind the backslash that it
belongs to.  A backslash that itself stands behind such a backslash belongs to it and hides
nothing.  What a reader takes from a text therefore keeps its residue hidden when the reader begins
and ends where nothing is hidden.
-/

namespace TexCalc

/-- Characters with a meaning in a formula that have none in an expression. -/
def isResidue (c : Char) : Bool :=
  c ∈ ['$', '%', '~', '|']

/-- Characters that are no residue and hide none. -/
def isClean (c : Char) : Bool :=
  !isResidue c && c != '\\'

theorem isResidue_eq_false {c : Char} (clean : isClean c = true) : isResidue c = false := by
  simpa using (Bool.and_eq_true_iff.1 clean).1

theorem ne_backslash_of_isClean {c : Char} (clean : isClean c = true) : c ≠ '\\' := by
  simpa using (Bool.and_eq_true_iff.1 clean).2

theorem isClean_of_ne {c : Char} (noResidue : isResidue c = false) (plain : c ≠ '\\') :
    isClean c = true := by
  simp [isClean, noResidue, plain]

/-- Every character that accepts no residue and no backslash is clean. -/
theorem isClean_of_accept {accept : Char → Bool}
    (refused : ['$', '%', '~', '|', '\\'].any accept = false) {c : Char}
    (accepted : accept c = true) : isClean c = true := by
  cases clean : isClean c with
  | true => rfl
  | false =>
      have listed : c ∈ ['$', '%', '~', '|', '\\'] := by
        simp only [isClean, isResidue, Bool.and_eq_false_iff, Bool.not_eq_false',
          decide_eq_true_eq, bne_eq_false_iff_eq] at clean
        rcases clean with residue | rfl
        · exact List.mem_append_left ['\\'] residue
        · decide
      rw [List.any_eq_true.2 ⟨c, listed, accepted⟩] at refused
      cases refused

theorem isClean_of_isAlphanum {c : Char} (word : c.isAlphanum = true) : isClean c = true :=
  isClean_of_accept rfl word

theorem isClean_of_isBlank {c : Char} (blank : isBlank c = true) : isClean c = true :=
  isClean_of_accept rfl blank

theorem isClean_of_isOperandChar {c : Char} (operand : isOperandChar c = true) :
    isClean c = true :=
  isClean_of_accept rfl operand

theorem isClean_opener (bracket : Bracket) : isClean bracket.opener = true := by
  cases bracket <;> decide

theorem isClean_closer (bracket : Bracket) : isClean bracket.closer = true := by
  cases bracket <;> decide

namespace Text

/-- Whether what follows a text is hidden by its last backslash, its start being hidden or not. -/
def hidesNext (hidden : Bool) : Text → Bool
  | [] => hidden
  | c :: rest => hidesNext (c == '\\' && !hidden) rest

/-- Every residue is hidden, the start of the text being hidden or not. -/
def Conceals (hidden : Bool) : Text → Prop
  | [] => True
  | c :: rest => (isResidue c = true → hidden = true) ∧ Conceals (c == '\\' && !hidden) rest

variable {hidden : Bool} {text left right middle rest : Text} {c : Char}

theorem hidesNext_append (hidden : Bool) (left right : Text) :
    hidesNext hidden (left ++ right) = hidesNext (hidesNext hidden left) right := by
  induction left generalizing hidden with
  | nil => rfl
  | cons c left ih => exact ih _

/-- Only a backslash hides. -/
theorem hidesNext_concat (plain : c ≠ '\\') (hidden : Bool) (text : Text) :
    hidesNext hidden (text ++ [c]) = false := by
  rw [hidesNext_append, hidesNext, hidesNext, beq_false_of_ne plain, Bool.false_and]

theorem hidesNext_of_clean (clean : text.all isClean = true) : hidesNext false text = false := by
  induction text with
  | nil => rfl
  | cons c text ih =>
      rw [List.all_cons, Bool.and_eq_true] at clean
      rw [hidesNext, beq_false_of_ne (ne_backslash_of_isClean clean.1), Bool.false_and, ih clean.2]

/-- A name that a backslash begins ends what the backslash hides. -/
theorem hidesNext_word (clean : text.all isClean = true) (nonempty : text ≠ []) (hidden : Bool) :
    hidesNext hidden text = false := by
  cases text with
  | nil => exact absurd rfl nonempty
  | cons c text =>
      rw [List.all_cons, Bool.and_eq_true] at clean
      rw [hidesNext, beq_false_of_ne (ne_backslash_of_isClean clean.1), Bool.false_and,
        hidesNext_of_clean clean.2]

namespace Conceals

theorem append (first : Conceals hidden left) (second : Conceals (hidesNext hidden left) right) :
    Conceals hidden (left ++ right) := by
  induction left generalizing hidden with
  | nil => exact second
  | cons c left ih => exact ⟨first.1, ih first.2 second⟩

theorem of_append (conceals : Conceals hidden (left ++ right)) :
    Conceals hidden left ∧ Conceals (hidesNext hidden left) right := by
  induction left generalizing hidden with
  | nil => exact ⟨trivial, conceals⟩
  | cons c left ih => exact ⟨⟨conceals.1, (ih conceals.2).1⟩, (ih conceals.2).2⟩

/-- After a character that is no backslash nothing is hidden. -/
theorem tail (plain : c ≠ '\\') (conceals : Conceals hidden (c :: text)) : Conceals false text := by
  have later := conceals.2
  rwa [beq_false_of_ne plain, Bool.false_and] at later

theorem cons (clean : isClean c = true) (later : Conceals false text) :
    Conceals hidden (c :: text) := by
  refine ⟨fun residue => ?_, ?_⟩
  · rw [isResidue_eq_false clean] at residue
    cases residue
  · rwa [beq_false_of_ne (ne_backslash_of_isClean clean), Bool.false_and]

theorem clean_append (clean : left.all isClean = true) (later : Conceals false right) :
    Conceals false (left ++ right) := by
  induction left with
  | nil => exact later
  | cons c left ih =>
      rw [List.all_cons, Bool.and_eq_true] at clean
      exact .cons clean.1 (ih clean.2)

theorem of_clean (clean : text.all isClean = true) : Conceals false text := by
  have alone : Conceals false (text ++ []) := clean_append clean trivial
  rwa [List.append_nil] at alone

/-- A clean character ends what stands before it. -/
theorem append_cons (clean : isClean c = true) (first : Conceals hidden left)
    (later : Conceals false right) : Conceals hidden (left ++ c :: right) :=
  first.append (.cons clean later)

theorem of_append_cons (plain : c ≠ '\\') (conceals : Conceals hidden (left ++ c :: right)) :
    Conceals hidden left ∧ Conceals false right :=
  ⟨conceals.of_append.1, conceals.of_append.2.tail plain⟩

theorem parenthesized_append (inside : Conceals false text) (later : Conceals false right) :
    Conceals hidden (text.parenthesized ++ right) := by
  rw [Text.parenthesized_append]
  exact .cons (by decide) (inside.append_cons (by decide) later)

theorem parenthesized (inside : Conceals false text) : Conceals hidden text.parenthesized := by
  have alone : Conceals hidden (text.parenthesized ++ []) := inside.parenthesized_append trivial
  rwa [List.append_nil] at alone

theorem dropWhile {accept : Char → Bool} (refuses : accept '\\' = false)
    (conceals : Conceals false text) : Conceals false (text.dropWhile accept) := by
  induction text with
  | nil => exact conceals
  | cons c text ih =>
      cases accepted : accept c with
      | false => rwa [List.dropWhile_cons_of_neg (by simp [accepted])]
      | true =>
          have plain : c ≠ '\\' := by
            rintro rfl
            rw [refuses] at accepted
            cases accepted
          rw [List.dropWhile_cons_of_pos accepted]
          exact ih (conceals.tail plain)

theorem skipBlanks (conceals : Conceals false text) : Conceals false text.skipBlanks :=
  conceals.dropWhile (by decide)

theorem trim (conceals : Conceals false text) : Conceals false text.trim := by
  obtain ⟨lead, trail, whole, leadBlank, _⟩ := exists_trim_eq text
  rw [whole] at conceals
  have clean : lead.all isClean = true := List.all_eq_true.2 fun c isMember =>
    isClean_of_isBlank (List.all_eq_true.1 leadBlank c isMember)
  have back := conceals.of_append.2
  rw [hidesNext_of_clean clean] at back
  exact back.of_append.1

theorem wrap (conceals : Conceals false text) : Conceals false text.wrap := by
  unfold Text.wrap
  split
  · exact conceals.trim
  · exact conceals.trim.parenthesized

/-- A group keeps its residue hidden, and nothing is hidden after it. -/
theorem of_group? {bracket : Bracket} {group : Group} (conceals : Conceals false text)
    (found : bracket.group? text = some group) :
    Conceals false group.inside ∧ Conceals false group.rest := by
  rw [Bracket.eq_of_group? found] at conceals
  exact conceals.of_append_cons (ne_backslash_of_isClean (isClean_closer bracket))

end Conceals

theorem hidesNext_wrap (text : Text) : hidesNext false text.wrap = false := by
  obtain ⟨inside, shape⟩ : ∃ inside : Text, text.wrap = inside ++ [')'] := by
    obtain ⟨inside, shape, _⟩ := exists_wrap_eq text
    exact ⟨'(' :: inside, shape⟩
  rw [shape, hidesNext_concat (by decide)]

/-! ## Readers -/

/-- `rest` is an ending of `text` at which nothing is hidden. -/
def CutsOpenly (text rest : Text) : Prop :=
  ∃ lead, text = lead ++ rest ∧ hidesNext false lead = false

namespace CutsOpenly

theorem refl (text : Text) : text.CutsOpenly text :=
  ⟨[], rfl, rfl⟩

theorem trans (first : text.CutsOpenly middle) (second : middle.CutsOpenly rest) :
    text.CutsOpenly rest := by
  obtain ⟨lead, rfl, openLead⟩ := first
  obtain ⟨next, rfl, openNext⟩ := second
  exact ⟨lead ++ next, by rw [List.append_assoc], by rw [hidesNext_append, openLead, openNext]⟩

theorem cons (clean : isClean c = true) (cuts : text.CutsOpenly rest) :
    CutsOpenly (c :: text) rest := by
  obtain ⟨lead, rfl, openLead⟩ := cuts
  refine ⟨c :: lead, rfl, ?_⟩
  rw [hidesNext, beq_false_of_ne (ne_backslash_of_isClean clean), Bool.false_and, openLead]

theorem of_group? {bracket : Bracket} {group : Group} (found : bracket.group? text = some group) :
    text.CutsOpenly group.rest := by
  refine ⟨group.inside ++ [bracket.closer], ?_, ?_⟩
  · rw [Bracket.eq_of_group? found, List.append_assoc, List.singleton_append]
  · exact hidesNext_concat (ne_backslash_of_isClean (isClean_closer bracket)) false _

/-- A control sequence hides at most its own name. -/
theorem hidesNext_control {control : Control} (found : Control.read? text = some control) :
    hidesNext true control.name = false := by
  cases text with
  | nil => cases found
  | cons c rest =>
      rw [Control.read?] at found
      split at found
      · rename_i letter
        cases found
        have clean : (rest.takeWhile Char.isAlpha).all isClean = true :=
          List.all_eq_true.2 fun d isMember => isClean_of_isAlphanum
            (Bool.or_eq_true_iff.2 (.inl (List.all_eq_true.1 List.all_takeWhile d isMember)))
        rw [hidesNext, Bool.not_true, Bool.and_false]
        exact hidesNext_of_clean clean
      · cases found
        rw [hidesNext, hidesNext, Bool.not_true, Bool.and_false]

theorem of_control {control : Control} (found : Control.read? text = some control) :
    CutsOpenly ('\\' :: text) control.rest :=
  ⟨'\\' :: control.name, by rw [List.cons_append, ← Control.eq_of_read? found],
    hidesNext_control found⟩

theorem of_passes {withCommands : Bool} (passes : Passes withCommands text rest) :
    text.CutsOpenly rest := by
  induction passes with
  | done text => exact .refl text
  | @char c text rest plain _ ih =>
      refine ih.cons ?_
      rcases plain with operand | listed
      · exact isClean_of_isOperandChar operand
      · simp only [List.mem_cons, List.not_mem_nil, or_false] at listed
        rcases listed with rfl | rfl | rfl <;> decide
  | @group bracket text rest group _ found _ ih =>
      exact ((of_group? found).cons (isClean_opener bracket)).trans ih
  | control _ found _ ih => exact (of_control found).trans ih

theorem of_drops (drops : text.Drops isOperandChar rest) : text.CutsOpenly rest := by
  have passes : Passes false text rest := .of_drops drops
  exact of_passes passes

/-- What is taken from a text and what is left keep their residue hidden. -/
theorem conceals (cuts : text.CutsOpenly rest) (conceals : Conceals false text) :
    Conceals false (text.before rest) ∧ Conceals false rest := by
  obtain ⟨lead, rfl, openLead⟩ := cuts
  have parts := conceals.of_append
  rw [openLead] at parts
  rwa [before_append]

end CutsOpenly

theorem Conceals.of_exponent? {vocabulary : Vocabulary} {exponent : Cut}
    (conceals : Conceals false text) (found : text.exponent? vocabulary = some exponent) :
    Conceals false exponent.text ∧ hidesNext false exponent.text = false ∧
      Conceals false exponent.rest := by
  have passes : Passes false text exponent.rest := passes_of_exponent? found
  have later := ((CutsOpenly.of_passes passes).conceals conceals).2
  suffices taken : Conceals false exponent.text ∧ hidesNext false exponent.text = false from
    ⟨taken.1, taken.2, later⟩
  have skipped := conceals.skipBlanks
  simp only [exponent?] at found
  split at found
  · cases found
  · rename_i c rest start
    rw [start] at skipped
    split at found
    · rename_i bracket opens
      obtain ⟨group, isGroup, rfl⟩ := Option.map_eq_some_iff.1 found
      have plain : c ≠ '\\' := by
        rw [← opener_of_ofArgument? opens]
        exact ne_backslash_of_isClean (isClean_opener bracket)
      exact ⟨((skipped.tail plain).of_group? isGroup).1.wrap, hidesNext_wrap _⟩
    · have ofWord {word : Text} (all : word.all Char.isAlphanum = true) :
          Conceals false word ∧ hidesNext false word = false := by
        have clean : word.all isClean = true := List.all_eq_true.2 fun d isMember =>
          isClean_of_isAlphanum (List.all_eq_true.1 all d isMember)
        exact ⟨.of_clean clean, hidesNext_of_clean clean⟩
      split at found
      · rename_i name after _
        cases found
        exact ofWord name.all_isAlphanum
      · split at found
        · rename_i word
          cases found
          exact ofWord (by simp [word])
        · cases found

end Text

end TexCalc
