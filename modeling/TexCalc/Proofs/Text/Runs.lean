import TexCalc.Text.Basic

/-!
# Runs of characters

A run of accepted characters in front of a text whose first character is not accepted is
exactly what is taken from the whole.
-/

namespace TexCalc

namespace Text

/-- Whether a text is empty or begins with a character that is not accepted. -/
def endsRun (accept : Char → Bool) (text : Text) : Bool :=
  text.head?.all (!accept ·)

variable {accept : Char → Bool} {run rest : Text}

theorem not_mem_of_all {c : Char} (refused : accept c = false) (all : run.all accept = true) :
    c ∉ run := fun isMember => by
  rw [List.all_eq_true.1 all c isMember] at refused
  cases refused

theorem takeWhile_eq_nil_of_endsRun (ends : rest.endsRun accept = true) :
    rest.takeWhile accept = [] := by
  cases rest with
  | nil => rfl
  | cons c rest =>
      simp only [endsRun, List.head?_cons, Option.all_some, Bool.not_eq_true'] at ends
      exact List.takeWhile_cons_of_neg (by simp [ends])

theorem dropWhile_eq_self_of_endsRun (ends : rest.endsRun accept = true) :
    rest.dropWhile accept = rest := by
  cases rest with
  | nil => rfl
  | cons c rest =>
      simp only [endsRun, List.head?_cons, Option.all_some, Bool.not_eq_true'] at ends
      exact List.dropWhile_cons_of_neg (by simp [ends])

/-- What is left behind a whole run. -/
theorem endsRun_dropWhile (accept : Char → Bool) (text : Text) :
    endsRun accept (text.dropWhile accept) = true := by
  have stops := List.head?_dropWhile_not accept text
  cases after : text.dropWhile accept with
  | nil => rfl
  | cons c rest =>
      rw [after] at stops
      simpa [endsRun] using stops

theorem takeWhile_append_of_endsRun (all : run.all accept = true)
    (ends : rest.endsRun accept = true) : (run ++ rest).takeWhile accept = run := by
  rw [List.takeWhile_append_of_pos (List.all_eq_true.1 all), takeWhile_eq_nil_of_endsRun ends,
    List.append_nil]

theorem dropWhile_append_of_endsRun (all : run.all accept = true)
    (ends : rest.endsRun accept = true) : (run ++ rest).dropWhile accept = rest := by
  rw [List.dropWhile_append_of_pos (List.all_eq_true.1 all), dropWhile_eq_self_of_endsRun ends]

theorem takeWhile_of_all (all : run.all accept = true) : run.takeWhile accept = run := by
  have whole : (run ++ []).takeWhile accept = run := takeWhile_append_of_endsRun all rfl
  rwa [List.append_nil] at whole

theorem dropWhile_of_all (all : run.all accept = true) : run.dropWhile accept = [] := by
  rw [← List.append_nil run, dropWhile_append_of_endsRun all rfl]

/-- What ends a run is not taken, wherever the run is ended before. -/
theorem takeWhile_append_rest (text : Text) (ends : rest.endsRun accept = true) :
    (text ++ rest).takeWhile accept = text.takeWhile accept := by
  induction text with
  | nil => exact takeWhile_eq_nil_of_endsRun ends
  | cons c text ih => cases accepted : accept c <;> simp [accepted, ih]

theorem dropWhile_append_rest (text : Text) (ends : rest.endsRun accept = true) :
    (text ++ rest).dropWhile accept = text.dropWhile accept ++ rest := by
  induction text with
  | nil => exact dropWhile_eq_self_of_endsRun ends
  | cons c text ih => cases accepted : accept c <;> simp [accepted, ih]

theorem all_getLast?_of_suffix {text : Text} (last : text.getLast?.all accept = true)
    (ending : rest <:+ text) : rest.getLast?.all accept = true := by
  obtain ⟨lead, rfl⟩ := ending
  rw [List.getLast?_append] at last
  cases found : rest.getLast? with
  | none => rfl
  | some c => rwa [found, Option.some_or] at last

theorem any_getLast?_append (lead : Text) (last : run.getLast?.any accept = true) :
    (lead ++ run).getLast?.any accept = true := by
  rw [List.getLast?_append]
  cases found : run.getLast? with
  | none =>
      rw [found] at last
      cases last
  | some c => rwa [found] at last

theorem any_head?_of_all (all : run.all accept = true) (nonempty : run ≠ []) :
    run.head?.any accept = true := by
  obtain ⟨c, rest, rfl⟩ := List.exists_cons_of_ne_nil nonempty
  exact List.all_eq_true.1 all c List.mem_cons_self

theorem any_getLast?_of_all (all : run.all accept = true) (nonempty : run ≠ []) :
    run.getLast?.any accept = true := by
  rw [List.getLast?_eq_some_getLast nonempty]
  exact List.all_eq_true.1 all _ (List.getLast_mem nonempty)

/-- A run ends in front of the last character of the text when that is not accepted. -/
theorem dropWhile_ne_nil {text : Text} (last : text.getLast?.all (!accept ·) = true)
    (nonempty : text ≠ []) : text.dropWhile accept ≠ [] := by
  intro nothing
  have whole : text.takeWhile accept ++ text.dropWhile accept = text :=
    List.takeWhile_append_dropWhile
  rw [nothing, List.append_nil] at whole
  have all : (text.takeWhile accept).all accept = true := List.all_takeWhile
  rw [whole] at all
  have accepted := List.all_eq_true.1 all _ (List.getLast_mem nonempty)
  rw [List.getLast?_eq_some_getLast nonempty, Option.all_some, accepted] at last
  cases last

/-- A run that ends inside the text is not continued behind it. -/
theorem takeWhile_append_of_ne_nil {text : Text} (stops : text.dropWhile accept ≠ [])
    (trail : Text) :
    (text ++ trail).takeWhile accept = text.takeWhile accept ∧
      (text ++ trail).dropWhile accept = text.dropWhile accept ++ trail := by
  induction text with
  | nil => exact absurd rfl stops
  | cons c text ih =>
      cases accepted : accept c with
      | false => simp [accepted]
      | true =>
          rw [List.dropWhile_cons_of_pos accepted] at stops
          simp [accepted, ih stops]

/-- Fewer accepted characters end a run earlier. -/
theorem endsRun_mono {fewer : Char → Bool} (ends : rest.endsRun accept = true)
    (less : ∀ c, fewer c = true → accept c = true) : rest.endsRun fewer = true := by
  cases rest with
  | nil => rfl
  | cons c rest =>
      simp only [endsRun, List.head?_cons, Option.all_some, Bool.not_eq_true'] at ends ⊢
      cases accepted : fewer c with
      | false => rfl
      | true =>
          rw [less c accepted] at ends
          cases ends

end Text

end TexCalc
