import TexCalc.Text.Basic

/-!
# Openings and closings in balance

Whether everything that is opened is closed again is a matter of counting: nowhere may more have
been closed than was opened, and in the end nothing may be open.  What is counted can be characters
or longer units of a text.
-/

namespace TexCalc

/-- No front of the values closes more than it opens and the `depth` openings that are still to be
closed in front of it, and all values together close all of them. -/
structure Balances {α : Type} [BEq α] (opening closing : α) (depth : Nat) (values : List α) :
    Prop where
  never_below : ∀ front, front <+: values → front.count closing ≤ front.count opening + depth
  settled : values.count closing = values.count opening + depth

namespace Balances

variable {α : Type} [BEq α] {opening closing value : α} {values : List α} {depth later : Nat}

theorem nil_iff : Balances opening closing depth [] ↔ depth = 0 := by
  constructor
  · intro balances
    simpa using balances.settled.symm
  · rintro rfl
    exact ⟨fun front isFront => by simp [List.prefix_nil.1 isFront], rfl⟩

/-- What one value opens or closes is settled by those behind it. -/
theorem cons_iff (here : (if value == closing then 1 else 0) + later =
      (if value == opening then 1 else 0) + depth) :
    Balances opening closing depth (value :: values) ↔ Balances opening closing later values := by
  constructor
  · rintro ⟨below, settled⟩
    constructor
    · intro front isFront
      have longer := below (value :: front) ((List.prefix_cons_inj value).2 isFront)
      rw [List.count_cons, List.count_cons] at longer
      omega
    · rw [List.count_cons, List.count_cons] at settled
      omega
  · rintro ⟨below, settled⟩
    constructor
    · intro front isFront
      cases front with
      | nil => simp
      | cons first front =>
          obtain ⟨rfl, shorter⟩ := List.cons_prefix_cons.1 isFront
          have inner := below front shorter
          rw [List.count_cons, List.count_cons]
          omega
    · rw [List.count_cons, List.count_cons]
      omega

section

variable [LawfulBEq α] (differs : opening ≠ closing)

include differs

theorem opening_iff : Balances opening closing depth (opening :: values) ↔
    Balances opening closing (depth + 1) values := by
  apply cons_iff
  simp [differs, Nat.add_comm]

theorem closing_iff : Balances opening closing (depth + 1) (closing :: values) ↔
    Balances opening closing depth values := by
  apply cons_iff
  simp [differs.symm, Nat.add_comm]

theorem not_closing : ¬ Balances opening closing 0 (closing :: values) := by
  intro balances
  have first := balances.never_below [closing] (by simp)
  simp [differs.symm] at first

end

theorem other_iff [LawfulBEq α] (noOpening : value ≠ opening) (noClosing : value ≠ closing) :
    Balances opening closing depth (value :: values) ↔ Balances opening closing depth values := by
  apply cons_iff
  simp [noOpening, noClosing]

/-- What is open in front of the first values or behind them is closed by the second ones. -/
theorem append {more : Nat} {others : List α} (first : Balances opening closing depth values)
    (second : Balances opening closing more others) :
    Balances opening closing (depth + more) (values ++ others) := by
  constructor
  · intro front isFront
    rcases List.prefix_or_prefix_of_prefix isFront (List.prefix_append values others) with
      within | ⟨behind, rfl⟩
    · have below := first.never_below front within
      omega
    · have below :=
        second.never_below behind ((List.prefix_append_right_inj values).1 isFront)
      have settled := first.settled
      rw [List.count_append, List.count_append]
      omega
  · rw [List.count_append, List.count_append, first.settled, second.settled]
    omega

end Balances

end TexCalc
