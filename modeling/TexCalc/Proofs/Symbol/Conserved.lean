import Mathlib.Data.List.Flatten
import TexCalc.Proofs.Alphabet.Expression
import TexCalc.Proofs.Linear.Commands

/-!
# What is printed of a text

The symbols of a text are printed without its control sequences and its blanks, and every control
sequence is named by a warning.  All other characters are printed in the order in which they stand
in the text, whatever the vocabulary takes for a name: the vocabulary decides only where product
signs go.
-/

namespace TexCalc

namespace Piece

/-- The name of a control sequence.  The backslash that ends a text counts as one without a name. -/
def removed? : Piece → Option Text
  | control name => some name
  | plain c => if c = '\\' then some [] else none

/-- The character that is printed of a piece: control sequences and blanks are left out. -/
def shown? : Piece → Option Char
  | control _ => none
  | plain c => if c = '\\' ∨ isBlank c = true then none else some c

end Piece

namespace Text

/-- The names of the control sequences of a text, from left to right. -/
def removed (text : Text) : List Text :=
  text.pieces.filterMap Piece.removed?

/-- A text without its control sequences and without its blanks. -/
def shown (text : Text) : Text :=
  text.pieces.filterMap Piece.shown?

/-- Characters that are no blanks and no backslashes are shown. -/
theorem shown_and_removed_append {run : Text}
    (visible : ∀ c ∈ run, isBlank c = false ∧ c ≠ '\\') (rest : Text) :
    (run ++ rest).shown = run ++ rest.shown ∧ (run ++ rest).removed = rest.removed := by
  induction run with
  | nil => exact ⟨rfl, rfl⟩
  | cons c run ih =>
      rw [List.forall_mem_cons] at visible
      obtain ⟨⟨noBlank, plain⟩, later⟩ := visible
      obtain ⟨laterShown, laterRemoved⟩ := ih later
      have kept : Piece.shown? (.plain c) = some c := if_neg (by simp [noBlank, plain])
      have unnamed : Piece.removed? (.plain c) = none := if_neg plain
      constructor
      · rw [List.cons_append, shown, pieces_cons plain, List.filterMap_cons_some kept]
        exact congrArg (c :: ·) laterShown
      · rw [List.cons_append, removed, pieces_cons plain,
          List.filterMap_cons_none unnamed]
        exact laterRemoved

end Text

/-- The symbols print what is shown of a text, and those left over are what is removed of it. -/
structure Symbol.Account (symbols : List Symbol) (text : Text) : Prop where
  shown : Text.ofSymbols (printed symbols) = text.shown
  removed : symbols.filterMap leftover? = text.removed

namespace Symbol.Account

variable {symbol : Symbol} {symbols : List Symbol} {rest : Text} {c : Char}

theorem nil : Account [] [] := by
  constructor
  · rw [Text.shown, Text.pieces]
    rfl
  · rw [Text.removed, Text.pieces]
    rfl

theorem blank (blank : isBlank c = true) (plain : c ≠ '\\') (later : Account symbols rest) :
    Account symbols (c :: rest) := by
  have unshown : Piece.shown? (.plain c) = none := if_pos (.inr blank)
  have unnamed : Piece.removed? (.plain c) = none := if_neg plain
  constructor
  · rw [later.shown, Text.shown, Text.shown, Text.pieces_cons plain,
      List.filterMap_cons_none unshown]
  · rw [later.removed, Text.removed, Text.removed, Text.pieces_cons plain,
      List.filterMap_cons_none unnamed]

/-- A symbol for characters that are no blanks and no backslashes. -/
theorem visible (stays : symbol.leftover? = none)
    (visible : ∀ c ∈ symbol.print, isBlank c = false ∧ c ≠ '\\') (later : Account symbols rest) :
    Account (symbol :: symbols) (symbol.print ++ rest) := by
  obtain ⟨shown, removed⟩ := Text.shown_and_removed_append visible rest
  constructor
  · rw [ofSymbols_printed_cons stays, later.shown, shown]
  · rw [List.filterMap_cons_none stays, later.removed, removed]

theorem control {control : Control} (found : Control.read? rest = some control)
    (later : Account symbols control.rest) :
    Account (.leftover control.name :: symbols) ('\\' :: rest) := by
  have named : (leftover control.name).leftover? = some control.name := rfl
  constructor
  · rw [printed_leftover_cons, later.shown, Text.shown, Text.shown, Text.pieces_control found]
    rfl
  · rw [List.filterMap_cons_some named, later.removed, Text.removed, Text.removed,
      Text.pieces_control found]
    rfl

theorem backslash : Account [.leftover []] ['\\'] := by
  have pieces : Text.pieces ['\\'] = [.plain '\\'] := by
    rw [Text.pieces, if_pos rfl]
    rfl
  constructor
  · rw [Text.shown, pieces]
    rfl
  · rw [Text.removed, pieces]
    rfl

end Symbol.Account

/-- The symbols of a text account for all of it, whichever names the vocabulary has. -/
theorem Text.account_symbols (vocabulary : Vocabulary) (text : Text) :
    Symbol.Account (text.symbols vocabulary) text := by
  fun_induction symbols vocabulary text with
  | case1 => exact .nil
  | case2 c rest begins later =>
      have split : c :: rest =
          (Symbol.number (c :: rest.takeWhile isNumeralChar)).print ++
            rest.dropWhile isNumeralChar := by
        rw [Symbol.print, List.cons_append, List.takeWhile_append_dropWhile]
      rw [split]
      refine .visible rfl ?_ later
      intro d isMember
      exact visible_of_isNumeralChar (isNumeralChar_of_mem begins isMember)
  | case3 c rest _ _ entry after found later =>
      rw [Vocabulary.eq_of_entryAt? found, ← Symbol.print_ofEntry]
      refine .visible (Symbol.leftover?_ofEntry entry) ?_ later
      intro d isMember
      rw [Symbol.print_ofEntry] at isMember
      have word := List.all_eq_true.1 entry.name.all_isAlphanum d isMember
      exact ⟨isBlank_eq_false_of_isAlphanum word, ne_backslash_of_isAlphanum word⟩
  | case4 c rest _ letter _ later =>
      refine Symbol.Account.visible rfl ?_ later
      exact List.forall_mem_singleton.2 (visible_of_isLetter letter)
  | case5 rest control found _ _ later => exact .control found later
  | case6 rest found _ _ =>
      rw [Control.read?_eq_none_iff.1 found]
      exact .backslash
  | case7 c rest _ _ plain blank later => exact .blank blank plain later
  | case8 c rest _ _ plain visible later =>
      have isPrinted := Symbol.print_ofPunctuation c
      have account := Symbol.Account.visible (Symbol.leftover?_ofPunctuation c) (by
        rw [isPrinted]
        exact List.forall_mem_singleton.2 ⟨Bool.eq_false_iff.2 visible, plain⟩) later
      rwa [isPrinted] at account

namespace Symbol

/-- Putting signs between symbols takes nothing away. -/
theorem printed_sublist_multiplyAfter (joins : Symbol → Symbol → Bool) (previous? : Option Symbol)
    (symbols : List Symbol) :
    (printed symbols).Sublist (printed (multiplyAfter joins previous? symbols)) := by
  apply List.Sublist.filter
  induction symbols generalizing previous? with
  | nil => exact List.nil_sublist _
  | cons symbol symbols ih =>
      simp only [multiplyAfter]
      split
      · exact ((ih _).cons_cons symbol).cons times
      · exact (ih _).cons_cons symbol

-- No symbol is left over in front of the second stage, so that nothing more is removed by it.

theorem printed_sublist_finished (symbols : List Symbol) :
    (printed symbols).Sublist (finished symbols) := by
  have signs := printed_sublist_multiplyAfter isJuxtaposed none (printed symbols)
  rwa [printed_printed, printed_multiplyAfter_printed] at signs

theorem filter_ofSymbols_finished {accept : Char → Bool} (noSign : accept '*' = false)
    (symbols : List Symbol) :
    (Text.ofSymbols (finished symbols)).filter accept =
      (Text.ofSymbols (printed symbols)).filter accept := by
  have same := filter_printed_multiplyAfter noSign isJuxtaposed none (printed symbols)
  rwa [printed_printed, printed_multiplyAfter_printed] at same

end Symbol

/-- Classification and printing lose and invent nothing but product signs.  The expression is the
text without control sequences and blanks into which signs have been put, and each control sequence
is named by one warning, in the order of the text. -/
theorem Report.ofSymbols_classify (vocabulary : Vocabulary) (text : Text) :
    let report := Report.ofSymbols (text.classify vocabulary)
    report.expression.filter (· != '*') = text.shown.filter (· != '*') ∧
      text.shown.Sublist report.expression ∧
        report.warnings = text.removed.map Warning.removed := by
  have account := text.account_symbols vocabulary
  refine ⟨?_, ?_, ?_⟩
  · have named := @Symbol.filter_printed_multiplyAfter (· != '*') (by decide) Symbol.joinsNames none
    have finished := @Symbol.filter_ofSymbols_finished (· != '*') (by decide)
    refine (finished _).trans ?_
    rw [Text.classify, Symbol.multiply, named, account.shown]
  · rw [← account.shown]
    have first := Symbol.printed_sublist_multiplyAfter Symbol.joinsNames none
      (text.symbols vocabulary)
    exact (first.trans (Symbol.printed_sublist_finished _)).flatMap Symbol.print
  · have leftovers : (text.classify vocabulary).filterMap Symbol.leftover? = text.removed := by
      rw [Text.classify, Symbol.multiply, Symbol.filterMap_leftover?_multiplyAfter,
        account.removed]
    rw [Report.ofSymbols, leftovers]

end TexCalc
