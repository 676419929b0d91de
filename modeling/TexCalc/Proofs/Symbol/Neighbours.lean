import TexCalc.Proofs.Symbol.Products

/-!
# Products without a sign

The two steps that put product signs between symbols come to one: a sign stands where either test
joins two neighbours.  A list of operands is then printed with a sign between any two of them.

Where an operand ends and another one begins right behind it, a product is meant.  Most of these
products have a sign when the symbols are printed.  Those have none in which the name of a value
stands in front of a number, and those in which two names have become neighbours because a control
sequence between them was removed.
-/

namespace TexCalc

/-! ## Printing products -/

namespace Symbol

/-- Two neighbours between which a product sign is printed. -/
def isJoined (first second : Symbol) : Bool :=
  joinsNames first second || isJuxtaposed first second

theorem joinsFactors_isJoined : JoinsFactors isJoined where
  leads leads := by
    rw [isJoined, joinsFactors_joinsNames.leads leads, joinsFactors_isJuxtaposed.leads leads]
    rfl
  separates separates := by
    rw [isJoined, joinsFactors_joinsNames.separates separates,
      joinsFactors_isJuxtaposed.separates separates]
    rfl

/-- A sign that was put in front of a symbol keeps the next step from putting another one. -/
theorem multiplyAfter_multiplyAfter (previous? : Option Symbol) {symbols : List Symbol}
    (noGap : ∀ symbol ∈ symbols, symbol.isGap = false) :
    multiplyAfter isJuxtaposed previous? (multiplyAfter joinsNames previous? symbols) =
      multiplyAfter isJoined previous? symbols := by
  induction symbols generalizing previous? with
  | nil => rfl
  | cons symbol symbols ih =>
      rw [List.forall_mem_cons] at noGap
      have later := ih (some symbol) noGap.2
      have separates : previous?.any (isJuxtaposed · times) = false := by
        cases previous? with
        | none => rfl
        | some previous => exact joinsFactors_isJuxtaposed.separates rfl
      have leads : isJuxtaposed times symbol = false := joinsFactors_isJuxtaposed.leads rfl
      have noGapTimes : times.isGap = false := rfl
      cases named : previous?.any (joinsNames · symbol) with
      | true =>
          have joined : previous?.any (isJoined · symbol) = true := by
            cases previous? with
            | none => cases named
            | some previous => exact Bool.or_eq_true_iff.2 (.inl named)
          simp only [multiplyAfter, named, joined, noGap.1, noGapTimes, separates, leads, later,
            Option.any_some, Bool.false_eq_true, if_true, if_false]
      | false =>
          have same : previous?.any (isJoined · symbol) =
              previous?.any (isJuxtaposed · symbol) := by
            cases previous? with
            | none => rfl
            | some previous =>
                have noNames : joinsNames previous symbol = false := named
                simp only [Option.any_some, isJoined, noNames, Bool.false_or]
          simp only [multiplyAfter, named, same, noGap.1, later, Bool.false_eq_true, if_false]

/-- What the symbols are printed as, `previous?` being the symbol in front of them. -/
def Prints (previous? : Option Symbol) (symbols : List Symbol) (text : Text) : Prop :=
  Text.ofSymbols (multiplyAfter isJoined previous? symbols) = text

namespace Prints

variable {previous? : Option Symbol} {symbol : Symbol} {symbols : List Symbol} {text : Text}

theorem nil : Prints previous? [] [] :=
  rfl

theorem cons (noGap : symbol.isGap = false) (apart : previous?.any (isJoined · symbol) = false)
    (later : Prints (some symbol) symbols text) :
    Prints previous? (symbol :: symbols) (symbol.print ++ text) := by
  rw [Prints] at later
  simp only [Prints, multiplyAfter, apart, noGap, Bool.false_eq_true, if_false, Text.ofSymbols,
    List.flatMap_cons]
  exact congrArg _ later

theorem product (noGap : symbol.isGap = false) (joined : previous?.any (isJoined · symbol) = true)
    (later : Prints (some symbol) symbols text) :
    Prints previous? (symbol :: symbols) ('*' :: (symbol.print ++ text)) := by
  rw [Prints] at later
  simp only [Prints, multiplyAfter, joined, noGap, Bool.false_eq_true, if_false, if_true,
    Text.ofSymbols, List.flatMap_cons]
  exact congrArg (fun text => '*' :: (symbol.print ++ text)) later

/-- A symbol that separates can follow anything. -/
theorem separator (separates : symbol.separates = true) (later : Prints (some symbol) symbols text) :
    Prints previous? (symbol :: symbols) (symbol.print ++ text) := by
  refine .cons (isGap_eq_false_of_separates separates) ?_ later
  cases previous? with
  | none => rfl
  | some previous => exact joinsFactors_isJoined.separates separates

end Prints

end Symbol

/-- Blanks give no symbol, so that there are no gaps. -/
theorem Text.isGap_eq_false_of_mem_symbols {vocabulary : Vocabulary} {text : Text}
    {symbol : Symbol} (isMember : symbol ∈ text.symbols vocabulary) : symbol.isGap = false := by
  have entry (entry : Entry) : (Symbol.ofEntry entry).isGap = false := by
    unfold Symbol.ofEntry
    split <;> rfl
  have punctuation (c : Char) : (Symbol.ofPunctuation c).isGap = false := by
    unfold Symbol.ofPunctuation
    repeat' split
    all_goals rfl
  fun_induction symbols vocabulary text with
  | case1 => cases isMember
  | case6 =>
      rw [List.mem_singleton.1 isMember]
      rfl
  | case7 _ _ _ _ _ _ ih => exact ih isMember
  | case3 _ _ _ _ found _ _ ih =>
      rcases List.mem_cons.1 isMember with rfl | later
      · exact entry found
      · exact ih later
  | case8 c _ _ _ _ _ ih =>
      rcases List.mem_cons.1 isMember with rfl | later
      · exact punctuation c
      · exact ih later
  | case2 | case4 | case5 =>
      rename_i ih
      rcases List.mem_cons.1 isMember with rfl | later
      · rfl
      · exact ih later

/-- A formula without issues is printed in one step when no command is left in it. -/
theorem Translator.report_of_prints {translator : Translator} {formula text printed : Text}
    {symbols : List Symbol} (accepted : IsAccepted formula)
    (linear : formula.normal.linear translator.vocabulary translator.options = text.flatten)
    (spells : text.Spells translator.vocabulary symbols)
    (prints : Symbol.Prints none symbols printed) :
    translator.report formula = .ok ⟨printed, []⟩ := by
  have noGap : ∀ symbol ∈ symbols, symbol.isGap = false := by
    rw [← spells.symbols_flatten]
    exact fun _ => Text.isGap_eq_false_of_mem_symbols
  rw [← prints, ← Symbol.multiplyAfter_multiplyAfter none noGap]
  exact report_of_spells accepted linear spells rfl rfl

/-! ## Neighbours -/

namespace Symbol

/-- Symbols with which an operand ends. -/
def endsOperand (symbol : Symbol) : Bool :=
  symbol.isNumber || symbol.isValueName || symbol.isClosing

/-- Symbols with which an operand begins. -/
def beginsOperand (symbol : Symbol) : Bool :=
  symbol.isNumber || symbol.isName || symbol.isOpening

/-- Two neighbours that are a product without a sign. -/
def isBareProduct (first second : Symbol) : Bool :=
  first.endsOperand && second.beginsOperand

/-- The name of a value in front of a number or a name. -/
def isOverlooked (first second : Symbol) : Bool :=
  first.isValueName && (second.isNumber || second.isName)

/-- The pairs of neighbours for which the test holds, in order. -/
def neighbours (test : Symbol → Symbol → Bool) (symbols : List Symbol) : List (Symbol × Symbol) :=
  (symbols.zip symbols.tail).filter fun (first, second) => test first second

theorem joinsFactors_isBareProduct : JoinsFactors isBareProduct where
  leads {first second} leads := by
    have noEnd : first.endsOperand = false := by
      cases first with
      | delimiter c =>
          cases eq_of_beq leads
          rfl
      | _ => first | rfl | cases leads
    rw [isBareProduct, noEnd, Bool.false_and]
  separates {first second} separates := by
    have noBegin : second.beginsOperand = false := by
      cases second with
      | delimiter c =>
          cases eq_of_beq separates
          rfl
      | _ => first | rfl | cases separates
    rw [isBareProduct, noBegin, Bool.and_false]

/-- The last step overlooks the products that begin with the name of a value, unless a parenthesis
follows. -/
theorem isBareProduct_and_not_isJuxtaposed (first second : Symbol) :
    (isBareProduct first second && !isJuxtaposed first second) = isOverlooked first second := by
  have named : first.isValueName = true → first.isNumber = false ∧ first.isClosing = false := by
    cases first <;> first | exact fun _ => ⟨rfl, rfl⟩ | exact nofun
  have opened : second.isOpening = true → second.isNumber = false ∧ second.isName = false := by
    cases second <;> first | exact fun _ => ⟨rfl, rfl⟩ | exact nofun
  simp only [isBareProduct, endsOperand, beginsOperand, isJuxtaposed, isOverlooked]
  cases value : first.isValueName with
  | true =>
      obtain ⟨noNumber, noClosing⟩ := named value
      cases opens : second.isOpening with
      | true => simp [noNumber, noClosing, opened opens]
      | false => simp [noNumber, noClosing]
  | false =>
      cases first.isNumber <;> cases first.isClosing <;> cases second.isNumber <;>
        cases second.isName <;> simp

theorem neighbours_cons_cons (test : Symbol → Symbol → Bool) (first second : Symbol)
    (symbols : List Symbol) :
    neighbours test (first :: second :: symbols) =
      (if test first second then [(first, second)] else []) ++
        neighbours test (second :: symbols) := by
  simp only [neighbours, List.tail_cons, List.zip_cons_cons, List.filter_cons]
  split <;> rfl

section

variable {joins test : Symbol → Symbol → Bool} {symbols : List Symbol}

/-- When signs have been put where one test asks for them, another test holds of the neighbours of
which it held before, unless they were parted. -/
theorem neighbours_multiplyAfter (factors : JoinsFactors test) (previous : Symbol)
    (noGap : ∀ symbol ∈ symbols, symbol.isGap = false) :
    neighbours test (previous :: multiplyAfter joins (some previous) symbols) =
      neighbours (fun first second => test first second && !joins first second)
        (previous :: symbols) := by
  induction symbols generalizing previous with
  | nil => rfl
  | cons symbol symbols ih =>
      rw [List.forall_mem_cons] at noGap
      have later := ih symbol noGap.2
      have beforeSign : test previous times = false := factors.separates rfl
      have behindSign : test times symbol = false := factors.leads rfl
      cases joined : joins previous symbol with
      | true =>
          simp only [multiplyAfter, Option.any_some, joined, noGap.1, Bool.false_eq_true, if_true,
            if_false, neighbours_cons_cons, beforeSign, behindSign, later, Bool.not_true,
            Bool.and_false, List.nil_append]
      | false =>
          simp only [multiplyAfter, Option.any_some, joined, noGap.1, Bool.false_eq_true, if_false,
            neighbours_cons_cons, later, Bool.not_false, Bool.and_true]

theorem neighbours_multiply (factors : JoinsFactors test)
    (noGap : ∀ symbol ∈ symbols, symbol.isGap = false) :
    neighbours test (multiply joins symbols) =
      neighbours (fun first second => test first second && !joins first second) symbols := by
  cases symbols with
  | nil => rfl
  | cons symbol symbols =>
      rw [List.forall_mem_cons] at noGap
      have later : neighbours test (symbol :: multiplyAfter joins (some symbol) symbols) = _ :=
        neighbours_multiplyAfter factors symbol noGap.2
      rw [← later]
      simp only [multiply, multiplyAfter, Option.any_none, noGap.1, Bool.false_eq_true, if_false]

/-- Signs are no gaps. -/
theorem isGap_eq_false_of_mem_multiply (noGap : ∀ symbol ∈ symbols, symbol.isGap = false) :
    ∀ symbol ∈ multiply joins symbols, symbol.isGap = false := by
  rw [multiply]
  generalize (none : Option Symbol) = previous?
  induction symbols generalizing previous? with
  | nil => exact List.forall_mem_nil _
  | cons symbol symbols ih =>
      rw [List.forall_mem_cons] at noGap
      have later (last? : Option Symbol) :
          ∀ other ∈ symbol :: multiplyAfter joins last? symbols, other.isGap = false :=
        List.forall_mem_cons.2 ⟨noGap.1, ih noGap.2 last?⟩
      simp only [multiplyAfter]
      split
      · exact List.forall_mem_cons.2 ⟨rfl, later _⟩
      · exact later _

/-- In a list without gaps the products without a sign, when it is printed, are those that are
overlooked between the symbols that are not removed. -/
theorem neighbours_finished (noGap : ∀ symbol ∈ symbols, symbol.isGap = false) :
    neighbours isBareProduct (finished symbols) =
      neighbours isOverlooked (symbols.filter (·.leftover?.isNone)) := by
  rw [finished, neighbours_multiply joinsFactors_isBareProduct]
  · congr
    funext first second
    exact isBareProduct_and_not_isJuxtaposed first second
  · exact fun symbol isMember => noGap symbol (List.mem_filter.1 isMember).1

end

end Symbol

open TexCalc.Symbol

/-- Between the symbols that are printed for a formula there are as many products without a sign as
names of values that stand, removed control sequences apart, in front of a number or a name.  A name
in front of another one has a control sequence behind it: two names are never neighbours before
control sequences are removed. -/
theorem Translator.neighbours_finished_symbols (translator : Translator) (formula : Text) :
    neighbours isBareProduct (finished (translator.symbols formula)) =
        neighbours isOverlooked ((translator.symbols formula).filter (·.leftover?.isNone)) ∧
      neighbours joinsNames (translator.symbols formula) = [] := by
  have noGap (text : Text) :
      ∀ symbol ∈ text.symbols translator.vocabulary, symbol.isGap = false :=
    fun _ => Text.isGap_eq_false_of_mem_symbols
  refine ⟨neighbours_finished (isGap_eq_false_of_mem_multiply (noGap _)), ?_⟩
  rw [Translator.symbols, Text.classify, neighbours_multiply joinsFactors_joinsNames (noGap _)]
  simp [neighbours]

/-- Two variables that become neighbours by a removal get no sign, and neither do a variable and a
number behind it. -/
theorem Translator.neighbours_ne_nil_of_removal :
    neighbours isBareProduct
          (finished (Translator.symbols { options := .lenient } "x\\alpha y".toList)) =
        [(.var 'x', .var 'y')] ∧
      IsAccepted "x2".toList ∧
        neighbours isBareProduct (finished (Translator.symbols {} "x2".toList)) =
          [(.var 'x', .number "2".toList)] :=
  ⟨by decide +kernel, by decide +kernel, by decide +kernel⟩

end TexCalc
