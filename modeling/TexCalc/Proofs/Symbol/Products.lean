import TexCalc.Proofs.Symbol.Reading
import TexCalc.Proofs.Words.Accepted
import TexCalc.Proofs.Words.Leftover

/-!
# Products between symbols

Whether a product sign is put in front of a symbol is told by the symbol and the last one in front
of it.  A text without commands is printed with these signs and without warnings.
-/

namespace TexCalc

namespace Symbol

/-- The symbols with a product sign between all neighbours that the test joins. -/
def Multiplies (joins : Symbol → Symbol → Bool) (previous? : Option Symbol)
    (symbols result : List Symbol) : Prop :=
  multiplyAfter joins previous? symbols = result

namespace Multiplies

variable {joins : Symbol → Symbol → Bool} {previous? : Option Symbol} {symbol : Symbol}
  {symbols result : List Symbol}

theorem nil : Multiplies joins previous? [] [] :=
  rfl

theorem cons (noGap : symbol.isGap = false) (apart : previous?.any (joins · symbol) = false)
    (later : Multiplies joins (some symbol) symbols result) :
    Multiplies joins previous? (symbol :: symbols) (symbol :: result) := by
  have rest : multiplyAfter joins (some symbol) symbols = result := later
  simp only [Multiplies, multiplyAfter, apart, noGap, Bool.false_eq_true, if_false, rest]

theorem product (noGap : symbol.isGap = false) (joined : previous?.any (joins · symbol) = true)
    (later : Multiplies joins (some symbol) symbols result) :
    Multiplies joins previous? (symbol :: symbols) (times :: symbol :: result) := by
  have rest : multiplyAfter joins (some symbol) symbols = result := later
  simp only [Multiplies, multiplyAfter, joined, noGap, Bool.false_eq_true, if_false, if_true, rest]

end Multiplies

/-- Symbols that end no factor: a sign, an opening parenthesis, or a function, whose argument is
still to come. -/
def leads : Symbol → Bool
  | operator _ | function _ => true
  | symbol => symbol.isOpening

/-- Symbols that begin no factor: a sign or a closing parenthesis. -/
def separates : Symbol → Bool
  | operator _ => true
  | symbol => symbol.isClosing

/-- A test that joins nothing but the end of a factor and the beginning of one. -/
structure JoinsFactors (joins : Symbol → Symbol → Bool) : Prop where
  leads {first second : Symbol} (leads : first.leads = true) : joins first second = false
  separates {first second : Symbol} (separates : second.separates = true) :
    joins first second = false

theorem isGap_eq_false_of_separates {symbol : Symbol} (separates : symbol.separates = true) :
    symbol.isGap = false := by
  cases symbol <;> first | rfl | cases separates

theorem joinsFactors_joinsNames : JoinsFactors joinsNames where
  leads {first second} leads := by
    have noValue : first.isValueName = false := by
      cases first <;> first | rfl | cases leads
    rw [joinsNames, noValue, Bool.false_and]
  separates {first second} separates := by
    have noName : second.isName = false := by
      cases second <;> first | rfl | cases separates
    rw [joinsNames, noName, Bool.and_false]

theorem joinsFactors_isJuxtaposed : JoinsFactors isJuxtaposed where
  leads {first second} leads := by
    have noEnd : first.isNumber = false ∧ first.isValueName = false := by
      cases first <;> first | exact ⟨rfl, rfl⟩ | cases leads
    have noClosing : first.isClosing = false := by
      cases first with
      | delimiter c =>
          cases eq_of_beq leads
          rfl
      | _ => rfl
    simp [isJuxtaposed, noEnd, noClosing]
  separates {first second} separates := by
    have noBegin : second.isName = false ∧ second.isNumber = false := by
      cases second <;> first | exact ⟨rfl, rfl⟩ | cases separates
    have noOpening : second.isOpening = false := by
      cases second with
      | delimiter c =>
          cases eq_of_beq separates
          rfl
      | _ => rfl
    simp [isJuxtaposed, noBegin, noOpening]

/-- The symbols have their product signs when they stand between symbols that are joined to none
of them. -/
structure MultipliesWithin (joins : Symbol → Symbol → Bool) (symbols result : List Symbol) :
    Prop where
  between {previous? : Option Symbol} {others finished : List Symbol}
    (front : ∀ symbol, previous?.any (joins · symbol) = false)
    (later : ∀ previous?, Multiplies joins previous? others finished) :
    Multiplies joins previous? (symbols ++ others) (result ++ finished)

namespace MultipliesWithin

variable {joins : Symbol → Symbol → Bool} {symbol : Symbol} {symbols result left right : List Symbol}

theorem single (noGap : symbol.isGap = false) : MultipliesWithin joins [symbol] [symbol] where
  between front later := .cons noGap (front symbol) (later _)

/-- A symbol that separates can follow anything. -/
theorem separator (factors : JoinsFactors joins) (separates : symbol.separates = true)
    (later : Multiplies joins (some symbol) symbols result) (previous? : Option Symbol) :
    Multiplies joins previous? (symbol :: symbols) (symbol :: result) := by
  refine .cons (isGap_eq_false_of_separates separates) ?_ later
  cases previous? with
  | none => rfl
  | some previous => exact factors.separates separates

theorem parenthesized (factors : JoinsFactors joins) (inside : MultipliesWithin joins symbols result) :
    MultipliesWithin joins (Symbol.parenthesized symbols) (Symbol.parenthesized result) where
  between front later := by
    simp only [Symbol.parenthesized, List.cons_append, List.append_assoc, List.nil_append]
    refine .cons rfl (front _) (inside.between (fun _ => factors.leads rfl) ?_)
    exact separator factors rfl (later _)

/-- Two factors with a sign between them. -/
theorem binary (factors : JoinsFactors joins) (c : Char) {left' right' : List Symbol}
    (first : MultipliesWithin joins left left') (second : MultipliesWithin joins right right') :
    MultipliesWithin joins (left ++ operator c :: right) (left' ++ operator c :: right') where
  between front later := by
    simp only [List.append_assoc, List.cons_append]
    exact first.between front
      (separator factors rfl (second.between (fun _ => factors.leads rfl) later))

theorem call (factors : JoinsFactors joins) (name : Text)
    (argument : MultipliesWithin joins symbols result) :
    MultipliesWithin joins (function name :: symbols) (function name :: result) where
  between front later := .cons rfl (front _) (argument.between (fun _ => factors.leads rfl) later)

/-- A sign in front of a factor. -/
theorem signed (factors : JoinsFactors joins) (c : Char)
    (operand : MultipliesWithin joins symbols result) :
    MultipliesWithin joins (operator c :: symbols) (operator c :: result) where
  between _ later :=
    separator factors rfl (operand.between (fun _ => factors.leads rfl) later) _

/-- Two groups side by side, with the sign between them that the test asks for. -/
theorem groups (factors : JoinsFactors joins) {left' right' sign : List Symbol}
    (isSign : sign = if joins (delimiter ')') (delimiter '(') then [times] else [])
    (first : MultipliesWithin joins left left') (second : MultipliesWithin joins right right') :
    MultipliesWithin joins (Symbol.parenthesized left ++ Symbol.parenthesized right)
      (Symbol.parenthesized left' ++ (sign ++ Symbol.parenthesized right')) where
  between {previous? others finished} front later := by
    simp only [Symbol.parenthesized, List.cons_append, List.append_assoc, List.nil_append]
    refine .cons rfl (front _) (first.between (fun _ => factors.leads rfl) (separator factors rfl ?_))
    have inside : Multiplies joins (some (delimiter '(')) (right ++ delimiter ')' :: others)
        (right' ++ delimiter ')' :: finished) :=
      second.between (fun _ => factors.leads rfl) (separator factors rfl (later _))
    cases joined : joins (delimiter ')') (delimiter '(') with
    | true =>
        rw [isSign, joined]
        exact .product rfl joined inside
    | false =>
        rw [isSign, joined]
        exact .cons rfl joined inside

theorem whole (within : MultipliesWithin joins symbols result) :
    Multiplies joins none symbols result := by
  have alone : Multiplies joins none (symbols ++ []) (result ++ []) :=
    within.between (fun _ => rfl) (fun _ => .nil)
  rwa [List.append_nil, List.append_nil] at alone

end MultipliesWithin

/-- Without control sequences that nothing has replaced, nothing is removed from the symbols. -/
theorem finished_eq {symbols : List Symbol} (none : symbols.filterMap leftover? = []) :
    finished symbols = multiply isJuxtaposed symbols := by
  rw [finished, List.filter_eq_self.2]
  intro symbol isMember
  rw [List.filterMap_eq_nil_iff.1 none symbol isMember]
  rfl

end Symbol

namespace Symbol

variable {joins : Symbol → Symbol → Bool} {symbol : Symbol}

/-- What stands in front of a symbol that is joined to nothing in front of it gets its products as
if nothing followed. -/
theorem multiplyAfter_append_of_apart (noGap : symbol.isGap = false)
    (apart : ∀ first, joins first symbol = false) (previous? : Option Symbol)
    (front later : List Symbol) :
    multiplyAfter joins previous? (front ++ symbol :: later) =
      multiplyAfter joins previous? front ++ symbol :: multiplyAfter joins (some symbol) later := by
  induction front generalizing previous? with
  | nil =>
      have none : previous?.any (joins · symbol) = false := by
        cases previous? with
        | none => rfl
        | some first => exact apart first
      exact Multiplies.cons noGap none rfl
  | cons first front ih =>
      simp only [List.cons_append, multiplyAfter, ih]
      split <;> rfl

theorem multiplyAfter_append_separator (factors : JoinsFactors joins)
    (separates : symbol.separates = true) (previous? : Option Symbol) (front later : List Symbol) :
    multiplyAfter joins previous? (front ++ symbol :: later) =
      multiplyAfter joins previous? front ++ symbol :: multiplyAfter joins (some symbol) later :=
  multiplyAfter_append_of_apart (isGap_eq_false_of_separates separates)
    (fun _ => factors.separates separates) previous? front later

end Symbol

/-- A product sign between two groups is put there when it is missing. -/
theorem Report.ofSymbols_times (front later : List Symbol) :
    ofSymbols (Symbol.multiply Symbol.joinsNames
        (front ++ .delimiter ')' :: .times :: .delimiter '(' :: later)) =
      ofSymbols (Symbol.multiply Symbol.joinsNames
        (front ++ .delimiter ')' :: .delimiter '(' :: later)) := by
  have closes : Symbol.separates (.delimiter ')') = true := rfl
  have named (behind : List Symbol) :=
    Symbol.multiplyAfter_append_separator Symbol.joinsFactors_joinsNames closes none front behind
  have juxtaposed (front behind : List Symbol) :=
    Symbol.multiplyAfter_append_separator Symbol.joinsFactors_isJuxtaposed closes none front behind
  simp only [Symbol.multiply, named]
  generalize Symbol.multiplyAfter Symbol.joinsNames none front = first
  have explicit : Symbol.multiplyAfter Symbol.joinsNames (some (.delimiter ')'))
      (.times :: .delimiter '(' :: later) = .times :: .delimiter '(' ::
        Symbol.multiplyAfter Symbol.joinsNames (some (.delimiter '(')) later := rfl
  have missing : Symbol.multiplyAfter Symbol.joinsNames (some (.delimiter ')'))
      (.delimiter '(' :: later) = .delimiter '(' ::
        Symbol.multiplyAfter Symbol.joinsNames (some (.delimiter '(')) later := rfl
  rw [explicit, missing]
  generalize Symbol.multiplyAfter Symbol.joinsNames (some (.delimiter '(')) later = second
  have removed : List.filterMap Symbol.leftover?
        (first ++ .delimiter ')' :: .times :: .delimiter '(' :: second) =
      List.filterMap Symbol.leftover? (first ++ .delimiter ')' :: .delimiter '(' :: second) := by
    rw [List.filterMap_append, List.filterMap_append]
    rfl
  have kept : Symbol.finished (first ++ .delimiter ')' :: .times :: .delimiter '(' :: second) =
      Symbol.finished (first ++ .delimiter ')' :: .delimiter '(' :: second) := by
    have visible (behind : List Symbol) :
        List.filter (·.leftover?.isNone) (.delimiter ')' :: .delimiter '(' :: behind) =
          .delimiter ')' :: .delimiter '(' :: List.filter (·.leftover?.isNone) behind := rfl
    have visibleTimes (behind : List Symbol) :
        List.filter (·.leftover?.isNone) (.delimiter ')' :: .times :: .delimiter '(' :: behind) =
          .delimiter ')' :: .times :: .delimiter '(' ::
            List.filter (·.leftover?.isNone) behind := rfl
    rw [Symbol.finished, Symbol.finished, List.filter_append, List.filter_append, visible,
      visibleTimes, Symbol.multiply, Symbol.multiply, juxtaposed, juxtaposed]
    rfl
  rw [ofSymbols, ofSymbols, kept, removed]

/-- The symbols of a formula, products of names made explicit. -/
theorem Translator.symbols_of_spells {translator : Translator} {formula text : Text}
    {symbols joined : List Symbol}
    (linear : formula.normal.linear translator.vocabulary translator.options = text.flatten)
    (spells : text.Spells translator.vocabulary symbols)
    (names : Symbol.Multiplies Symbol.joinsNames none symbols joined) :
    translator.symbols formula = joined := by
  rw [Translator.symbols, linear, Text.classify, spells.symbols_flatten]
  exact names

/-- A formula without issues is printed without warnings when no command is left in it. -/
theorem Translator.report_of_spells {translator : Translator} {formula text : Text}
    {symbols joined printed : List Symbol} (accepted : IsAccepted formula)
    (linear : formula.normal.linear translator.vocabulary translator.options = text.flatten)
    (spells : text.Spells translator.vocabulary symbols)
    (names : Symbol.Multiplies Symbol.joinsNames none symbols joined)
    (products : Symbol.Multiplies Symbol.isJuxtaposed none joined printed) :
    translator.report formula = .ok ⟨Text.ofSymbols printed, []⟩ := by
  have isClassified : translator.symbols formula.trim = joined := by
    apply symbols_of_spells _ spells names
    rw [Text.normal_trim, linear]
  have noBackslash : '\\' ∉ text.flatten := by
    rw [← List.count_eq_zero, Text.count_flatten, List.count_eq_zero]
    exact spells.plain
  have none : joined.filterMap Symbol.leftover? = [] := by
    have length := Text.length_leftovers_symbols translator.vocabulary (.of_not_mem noBackslash)
    rw [spells.symbols_flatten, List.count_eq_zero.2 noBackslash] at length
    rw [← names, Symbol.filterMap_leftover?_multiplyAfter]
    exact List.eq_nil_of_length_eq_zero length
  have finished : Report.ofSymbols joined = ⟨Text.ofSymbols printed, []⟩ := by
    rw [Report.ofSymbols, none, Symbol.finished_eq none, Symbol.multiply, products]
    rfl
  have despite : translator.reportDespite formula [] = ⟨Text.ofSymbols printed, []⟩ := by
    rw [Translator.reportDespite, isClassified, finished]
    rfl
  rw [Translator.report, accepted, despite]
  split <;> rfl

end TexCalc
