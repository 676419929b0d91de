import TexCalc.Proofs.Alphabet.Expression
import TexCalc.Proofs.Symbol.Products

/-!
# Printing from operator to operator

Operators and commas end every numeral, every name and every control word, and no product sign is
put beside them.  What stands in front of one and what stands behind it are therefore classified
and printed apart.
-/

namespace TexCalc

namespace Symbol

/-- A symbol that is printed, and beside which no product sign is put. -/
structure IsBarrier (symbol : Symbol) : Prop where
  noGap : symbol.isGap = false
  stays : symbol.leftover? = none
  named (other : Symbol) : joinsNames symbol other = false ∧ joinsNames other symbol = false
  juxtaposed (other : Symbol) :
    isJuxtaposed symbol other = false ∧ isJuxtaposed other symbol = false

theorem isBarrier_operator (c : Char) : IsBarrier (operator c) where
  noGap := rfl
  stays := rfl
  named other := by
    constructor
    · exact joinsFactors_joinsNames.leads rfl
    · exact joinsFactors_joinsNames.separates rfl
  juxtaposed other := by
    constructor
    · exact joinsFactors_isJuxtaposed.leads rfl
    · exact joinsFactors_isJuxtaposed.separates rfl

theorem isBarrier_comma : IsBarrier comma where
  noGap := rfl
  stays := rfl
  named other := by
    constructor
    · rfl
    · exact Bool.and_false _
  juxtaposed other := by
    constructor
    · rfl
    · rw [isJuxtaposed]
      split
      · rfl
      · exact Bool.and_false _

section

variable {joins : Symbol → Symbol → Bool} {symbol : Symbol}

/-- A symbol that is joined to nothing behind it could as well be the start of the list. -/
theorem multiplyAfter_some_eq_none (alone : ∀ other, joins symbol other = false)
    (symbols : List Symbol) :
    multiplyAfter joins (some symbol) symbols = multiplyAfter joins none symbols := by
  induction symbols with
  | nil => rfl
  | cons other symbols ih =>
      simp only [multiplyAfter, Option.any_some, Option.any_none, alone other, Bool.false_eq_true,
        if_false]
      split
      · rw [ih]
      · rfl

theorem multiply_append_cons (noGap : symbol.isGap = false)
    (alone : ∀ other, joins symbol other = false ∧ joins other symbol = false)
    (front back : List Symbol) :
    multiply joins (front ++ symbol :: back) =
      multiply joins front ++ symbol :: multiply joins back := by
  have apart (other : Symbol) : joins other symbol = false := (alone other).2
  have joinsNothing (other : Symbol) : joins symbol other = false := (alone other).1
  rw [multiply, multiplyAfter_append_of_apart noGap apart, multiplyAfter_some_eq_none joinsNothing]
  rfl

theorem finished_append_cons (barrier : symbol.IsBarrier) (front back : List Symbol) :
    finished (front ++ symbol :: back) = finished front ++ symbol :: finished back := by
  have kept : (symbol :: back).filter (·.leftover?.isNone) =
      symbol :: back.filter (·.leftover?.isNone) :=
    List.filter_cons_of_pos (by rw [barrier.stays]; rfl)
  rw [finished, List.filter_append, kept, multiply_append_cons barrier.noGap barrier.juxtaposed]
  rfl

end

end Symbol

/-- Two reports around a character. -/
def Report.around (first : Report) (c : Char) (second : Report) : Report where
  expression := first.expression ++ c :: second.expression
  warnings := first.warnings ++ second.warnings

theorem Report.ofSymbols_append_cons {symbol : Symbol} {c : Char} (barrier : symbol.IsBarrier)
    (isPrinted : symbol.print = [c]) (front back : List Symbol) :
    ofSymbols (front ++ symbol :: back) = (ofSymbols front).around c (ofSymbols back) := by
  have expression : Text.ofSymbols (Symbol.finished (front ++ symbol :: back)) =
      Text.ofSymbols (Symbol.finished front) ++ c :: Text.ofSymbols (Symbol.finished back) := by
    rw [Symbol.finished_append_cons barrier, Text.ofSymbols, List.flatMap_append,
      List.flatMap_cons, isPrinted]
    rfl
  have warnings : (front ++ symbol :: back).filterMap Symbol.leftover? =
      front.filterMap Symbol.leftover? ++ back.filterMap Symbol.leftover? := by
    rw [List.filterMap_append, List.filterMap_cons_none barrier.stays]
  rw [ofSymbols, expression, warnings, List.map_append]
  rfl

namespace Text

variable {vocabulary : Vocabulary} {c : Char} {front : Text}

theorem isBarrier_ofPunctuation (isOperator : c ∈ ['+', '-', '*', '/', '^', ',']) :
    (Symbol.ofPunctuation c).IsBarrier := by
  simp only [List.mem_cons, List.not_mem_nil, or_false] at isOperator
  rcases isOperator with rfl | rfl | rfl | rfl | rfl | rfl
  all_goals first | exact Symbol.isBarrier_operator _ | exact Symbol.isBarrier_comma

/-- An operator that no backslash hides is a symbol of its own, and so is a comma. -/
theorem symbols_append_operator (isOperator : c ∈ ['+', '-', '*', '/', '^', ','])
    (whole : front.IsWhole) (back : Text) :
    symbols vocabulary (front ++ c :: back) =
      symbols vocabulary front ++ .ofPunctuation c :: symbols vocabulary back := by
  have facts : isBaseChar c = false ∧ c ≠ '\\' ∧ markSymbols c = [.ofPunctuation c] := by
    simp only [List.mem_cons, List.not_mem_nil, or_false] at isOperator
    rcases isOperator with rfl | rfl | rfl | rfl | rfl | rfl
    all_goals exact ⟨by decide, by decide, by decide +kernel⟩
  obtain ⟨noWord, plain, isMark⟩ := facts
  rw [symbols_append_of_isWhole whole (by simp [endsRun, noWord]), symbols_cons noWord plain, isMark]
  rfl

end Text

/-- The two stages behind the linear form work from operator to operator: what stands in front of an
operator or a comma, and what stands behind it, are printed as if each were the whole text. -/
theorem Report.ofSymbols_classify_append {c : Char}
    (isOperator : c ∈ ['+', '-', '*', '/', '^', ',']) {front : Text} (whole : front.IsWhole)
    (vocabulary : Vocabulary) (back : Text) :
    ofSymbols ((front ++ c :: back).classify vocabulary) =
      (ofSymbols (front.classify vocabulary)).around c
        (ofSymbols (back.classify vocabulary)) := by
  have barrier := Text.isBarrier_ofPunctuation isOperator
  rw [Text.classify, Text.symbols_append_operator isOperator whole,
    Symbol.multiply_append_cons barrier.noGap barrier.named]
  exact ofSymbols_append_cons barrier (Symbol.print_ofPunctuation c) _ _

/-- A command in front of a sign, and a decimal point behind it. -/
theorem Report.ofSymbols_classify_append_of_minus :
    '-' ∈ ['+', '-', '*', '/', '^', ','] ∧ Text.IsWhole "2x\\foo".toList ∧
      ofSymbols (Text.classify .standard ("2x\\foo".toList ++ '-' :: ".5\\bar pi".toList)) =
        (ofSymbols (Text.classify .standard "2x\\foo".toList)).around '-'
          (ofSymbols (Text.classify .standard ".5\\bar pi".toList)) := by
  have isOperator : '-' ∈ ['+', '-', '*', '/', '^', ','] := by decide
  have whole : Text.IsWhole "2x\\foo".toList := by decide +kernel
  exact ⟨isOperator, whole, ofSymbols_classify_append isOperator whole .standard _⟩

end TexCalc
