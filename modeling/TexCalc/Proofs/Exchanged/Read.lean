import TexCalc.Proofs.Exchanged.Spelled
import TexCalc.Proofs.Linear.Steps
import TexCalc.Proofs.Tex.Groups

/-!
# Reading respelled texts

Every reader finds in a respelled text what it finds in the text itself: it reads the same or nothing
in both, what it has passed over corresponds, and what is left corresponds too.
-/

namespace TexCalc

/-! ## Results that correspond -/

section Results

variable {α β γ δ : Type} {related : α → β → Prop} {stepped : γ → δ → Prop}
  {found : Option α} {found' : Option β}

theorem Option.rel_mono {weaker : α → β → Prop} (results : Option.Rel related found found')
    (each : ∀ {value value'}, related value value' → weaker value value') :
    Option.Rel weaker found found' := by
  cases results with
  | none => exact .none
  | some same => exact .some (each same)

theorem Option.rel_map {step : α → γ} {step' : β → δ} (results : Option.Rel related found found')
    (each : ∀ {value value'}, related value value' → stepped (step value) (step' value')) :
    Option.Rel stepped (found.map step) (found'.map step') := by
  cases results with
  | none => exact .none
  | some same => exact .some (each same)

theorem Option.rel_bind {step : α → Option γ} {step' : β → Option δ}
    (results : Option.Rel related found found')
    (each : ∀ {value value'}, found = some value → related value value' →
      Option.Rel stepped (step value) (step' value')) :
    Option.Rel stepped (found.bind step) (found'.bind step') := by
  cases results with
  | none => exact .none
  | some same => exact each rfl same

theorem Option.rel_findSome? {values : List γ} {read : γ → Option α} {read' : γ → Option β}
    (each : ∀ value ∈ values, Option.Rel related (read value) (read' value)) :
    Option.Rel related (values.findSome? read) (values.findSome? read') := by
  induction values with
  | nil => exact .none
  | cons value values ih =>
      rw [List.forall_mem_cons] at each
      have here := each.1
      rw [List.findSome?_cons, List.findSome?_cons]
      generalize read value = found, read' value = found' at here ⊢
      cases here with
      | none => exact ih each.2
      | some same => exact .some same

theorem Option.isNone_eq_of_rel (results : Option.Rel related found found') :
    found'.isNone = found.isNone := by
  cases results <;> rfl

end Results

/-! ## Groups and arguments -/

namespace Exchange

variable {exchange : Exchange} {everywhere : Bool} {text other : Text}

/-- Two groups of which one is the respelled other. -/
structure GroupsAlike (exchange : Exchange) (everywhere : Bool) (text other : Text)
    (group group' : Group) : Prop where
  inside : exchange.Respelled everywhere group.inside group'.inside
  begins (accept : Char → Bool) : text.endsRun accept = true → group.inside.endsRun accept = true
  reaches : exchange.Reaches everywhere text other group.rest group'.rest

namespace Respelled

variable (respelled : exchange.Respelled everywhere text other)

include respelled

theorem groupFrom? (bracket : Bracket) (depth : Nat) :
    Option.Rel (GroupsAlike exchange everywhere text other) (bracket.groupFrom? depth text)
      (bracket.groupFrom? depth other) := by
  induction respelled generalizing depth with
  | nil => cases depth <;> exact .none
  | backslash => cases bracket <;> cases depth <;> exact .none
  | @plain c text other plain later ih =>
      have extended {depth : Nat} :
          Option.Rel (GroupsAlike exchange everywhere (c :: text) (c :: other))
            ((bracket.groupFrom? depth text).map (Group.extend [c]))
            ((bracket.groupFrom? depth other).map (Group.extend [c])) :=
        Option.rel_map (ih depth) fun alike =>
          ⟨.plain plain alike.inside, fun _ => id, alike.reaches.plain plain⟩
      by_cases opens : c = bracket.opener
      · subst opens
        rw [Text.IsNeutral.groupFrom?_opener, Text.IsNeutral.groupFrom?_opener]
        exact extended
      · by_cases closes : c = bracket.closer
        · subst closes
          cases depth with
          | zero =>
              have ends (text : Text) : bracket.groupFrom? 0 (bracket.closer :: text) =
                  some ⟨[], text⟩ := by cases bracket <;> rfl
              rw [ends, ends]
              exact .some ⟨.nil, fun _ _ => rfl, (Reaches.refl later).plain plain⟩
          | succ depth =>
              rw [Text.IsNeutral.groupFrom?_closer, Text.IsNeutral.groupFrom?_closer]
              exact extended
        · rw [Text.IsNeutral.groupFrom?_cons opens closes plain,
            Text.IsNeutral.groupFrom?_cons opens closes plain]
          exact extended
  | @control old new text other spells ends later ih =>
      rw [Bracket.groupFrom?_control spells.isName_old, Bracket.groupFrom?_control spells.isName_new]
      exact Option.rel_map (ih depth) fun alike =>
        ⟨.control spells (fun letters => alike.begins _ (ends letters)) alike.inside, fun _ => id,
          alike.reaches.control spells ends⟩

end Respelled

/-- The control sequences behind two backslashes. -/
theorem Spells.read? {old new : Text} (spells : exchange.Spells everywhere old new)
    (ends : old.all Char.isAlpha = true → text.endsRun Char.isAlpha = true)
    (later : exchange.Respelled everywhere text other) :
    Control.read? (old ++ text) = some ⟨old, text⟩ ∧
      Control.read? (new ++ other) = some ⟨new, other⟩ := by
  refine ⟨Control.read?_of_isName spells.isName_old ends,
    Control.read?_of_isName spells.isName_new fun letters => ?_⟩
  rw [later.endsRun_eq]
  exact ends (spells.all_isAlpha ▸ letters)

/-- Two arguments of which one is the respelled other. -/
structure ArgumentsAlike (exchange : Exchange) (everywhere : Bool) (argument argument' : Argument) :
    Prop where
  text : exchange.Respelled everywhere argument.text argument'.text
  grouped : argument'.grouped = argument.grouped
  rest : exchange.Respelled everywhere argument.rest argument'.rest

namespace Respelled

variable (respelled : exchange.Respelled everywhere text other)

include respelled

theorem argument? :
    Option.Rel (ArgumentsAlike exchange everywhere) (Argument.read? text) (Argument.read? other) := by
  have skipped := respelled.skipBlanks.rest
  unfold Argument.read?
  generalize text.skipBlanks = operand, other.skipBlanks = operand' at skipped ⊢
  cases skipped with
  | nil => exact .none
  | backslash => exact .none
  | @plain c text other plain later =>
      simp only [if_neg plain]
      split
      · exact Option.rel_map (later.groupFrom? .curly 0) fun alike =>
          ⟨alike.inside, rfl, alike.reaches.rest⟩
      · split
        · exact .none
        · exact .some ⟨.plain plain .nil, rfl, later⟩
  | @control old new text other spells ends later =>
      obtain ⟨isOld, isNew⟩ := spells.read? ends later
      have alone : exchange.Respelled everywhere ('\\' :: (old ++ [])) ('\\' :: (new ++ [])) :=
        .control spells (fun _ => rfl) .nil
      rw [List.append_nil, List.append_nil] at alone
      simp only [isOld, isNew]
      exact .some ⟨alone, rfl, later⟩

theorem optionalArgument? :
    Option.Rel (ArgumentsAlike exchange everywhere) (Argument.readOptional? text)
      (Argument.readOptional? other) := by
  have skipped := respelled.skipBlanks.rest
  unfold Argument.readOptional?
  generalize text.skipBlanks = operand, other.skipBlanks = operand' at skipped ⊢
  cases skipped with
  | nil | backslash | control => exact .none
  | @plain c text other plain later =>
      by_cases opens : c = '['
      · subst opens
        exact Option.rel_map (later.groupFrom? .square 0) fun alike =>
          ⟨alike.inside, rfl, alike.reaches.rest⟩
      · split
        · rename_i same
          cases same
          exact absurd rfl opens
        · split
          · rename_i same
            cases same
            exact absurd rfl opens
          · exact .none

/-! ## Names of the vocabulary -/

theorem dropLead? {lead : Text} (plain : '\\' ∉ lead) :
    Option.Rel (exchange.Reaches everywhere text other) (text.dropLead? lead)
      (other.dropLead? lead) := by
  induction lead generalizing text other with
  | nil =>
      rw [Text.dropLead?, Text.dropLead?]
      exact .some (Reaches.refl respelled)
  | cons l lead ih =>
      rw [List.mem_cons, not_or] at plain
      cases respelled with
      | nil => exact .none
      | backslash | control =>
          simp only [Text.dropLead?, if_neg plain.1]
          exact .none
      | @plain c text other noBackslash later =>
          rw [Text.dropLead?, Text.dropLead?]
          split
          · exact Option.rel_mono (ih later plain.2) fun reaches => reaches.plain noBackslash
          · exact .none

theorem after? (name : Name) :
    Option.Rel (exchange.Reaches everywhere text other) (name.after? text) (name.after? other) := by
  have plain : '\\' ∉ name.text := Text.not_mem_of_all (by decide) name.all_isAlphanum
  have found := respelled.dropLead? plain
  unfold Name.after?
  generalize text.dropLead? name.text = found, other.dropLead? name.text = found' at found ⊢
  cases found with
  | none => exact .none
  | @some rest rest' reaches =>
      have same : rest'.isBoundary = rest.isBoundary := by
        cases reaches.rest <;> rfl
      rw [Option.filter, Option.filter, same]
      split
      · exact .some reaches
      · exact .none

theorem constantAt? (vocabulary : Vocabulary) :
    Option.Rel (fun found found' => found'.1 = found.1 ∧
        exchange.Reaches everywhere text other found.2 found'.2)
      (vocabulary.constantAt? text) (vocabulary.constantAt? other) := by
  exact Option.rel_findSome? fun name _ =>
    Option.rel_map (respelled.after? name) fun reaches => ⟨rfl, reaches⟩

theorem callableAt? (vocabulary : Vocabulary) :
    Option.Rel (fun found found' => found'.1 = found.1 ∧
        exchange.Reaches everywhere text other found.2 found'.2)
      (vocabulary.callableAt? text) (vocabulary.callableAt? other) := by
  have function : Option.Rel (fun found found' => found'.1 = found.1 ∧
        exchange.Reaches everywhere text other found.2 found'.2)
      ((vocabulary.namesOf .function).findSome? fun name =>
        (text.dropLead? name.text).map (name, ·))
      ((vocabulary.namesOf .function).findSome? fun name =>
        (other.dropLead? name.text).map (name, ·)) :=
    Option.rel_findSome? fun name _ => Option.rel_map
      (respelled.dropLead? (Text.not_mem_of_all (by decide) name.all_isAlphanum))
      fun reaches => ⟨rfl, reaches⟩
  have parked : Option.Rel (fun found found' => found'.1 = found.1 ∧
        exchange.Reaches everywhere text other found.2 found'.2)
      (Parked.read? text) (Parked.read? other) := by
    refine Option.rel_findSome? fun waiting _ => Option.rel_map (respelled.dropLead? ?_)
      fun reaches => ⟨rfl, reaches⟩
    rcases waiting with ⟨function, inverse⟩
    cases function <;> cases inverse <;> decide
  unfold Vocabulary.callableAt?
  generalize (vocabulary.namesOf .function).findSome? (fun name =>
      (text.dropLead? name.text).map (name, ·)) = found,
    (vocabulary.namesOf .function).findSome? (fun name =>
      (other.dropLead? name.text).map (name, ·)) = found' at function ⊢
  cases function with
  | none => exact Option.rel_map parked fun same => ⟨congrArg Callable.parked same.1, same.2⟩
  | some same => exact .some ⟨congrArg Callable.function same.1, same.2⟩

/-! ## Operands -/

variable (vocabulary : Vocabulary)

theorem afterLetters : exchange.Reaches everywhere text other (text.afterLetters vocabulary)
    (other.afterLetters vocabulary) := by
  induction respelled with
  | nil => exact .refl .nil
  | backslash raw => exact .refl (.backslash raw)
  | @plain c text other plain later ih =>
      have whole := Respelled.plain plain later
      rw [Text.afterLetters, Text.afterLetters,
        Option.isNone_eq_of_rel (whole.callableAt? vocabulary)]
      split
      · exact ih.plain plain
      · exact .refl whole
  | control spells ends later =>
      rw [Text.afterLetters, Text.afterLetters, show Char.isAlpha '\\' = false from rfl,
        Bool.false_and, Bool.false_and]
      exact .refl (.control spells ends later)

theorem afterLetterRun : exchange.Reaches everywhere text other (text.afterLetterRun vocabulary)
    (other.afterLetterRun vocabulary) := by
  cases respelled with
  | nil => exact .refl .nil
  | backslash raw => exact .refl (.backslash raw)
  | plain plain later =>
      rw [Text.afterLetterRun, Text.afterLetterRun]
      split
      · exact (later.afterLetters vocabulary).plain plain
      · exact .refl (.plain plain later)
  | control spells ends later => exact .refl (.control spells ends later)

theorem afterNumeral :
    exchange.Reaches everywhere text other text.afterNumeral other.afterNumeral := by
  have reaches : exchange.Reaches everywhere text other (text.dropWhile isDecimalDigit) _ :=
    respelled.dropWhile (by decide)
  unfold Text.afterNumeral
  generalize text.dropWhile isDecimalDigit = left, other.dropWhile isDecimalDigit = left' at reaches ⊢
  refine reaches.trans ?_
  have kept := Reaches.refl reaches.rest
  cases reaches.rest with
  | nil | backslash | control => exact kept
  | @plain c rest rest' plain later =>
      by_cases point : c = '.'
      · subst point
        cases later with
        | nil | backslash | control => exact kept
        | @plain digit rest rest' noBackslash behind =>
            simp only [List.tail_cons]
            split
            · refine Reaches.plain plain ?_
              exact (Respelled.plain noBackslash behind).dropWhile (by decide)
            · exact kept
      · simp [point, kept]

theorem afterCoefficient : exchange.Reaches everywhere text other (text.afterCoefficient vocabulary)
    (other.afterCoefficient vocabulary) := by
  have numeral := respelled.afterNumeral
  have factor := numeral.rest.skipBlanks
  have constant := factor.rest.constantAt? vocabulary
  simp only [Text.afterCoefficient, factor.rest.head?]
  refine numeral.trans ?_
  generalize vocabulary.constantAt? text.afterNumeral.skipBlanks = found,
    vocabulary.constantAt? other.afterNumeral.skipBlanks = found' at constant ⊢
  cases constant with
  | some same => exact factor.trans same.2
  | none =>
      simp only
      split
      · exact factor.trans (factor.rest.afterLetterRun vocabulary)
      · exact .refl numeral.rest

theorem exponent? : Option.Rel
    (fun exponent exponent' : Cut =>
      exchange.Reaches everywhere text other exponent.rest exponent'.rest)
    (text.exponent? vocabulary) (other.exponent? vocabulary) := by
  have skipped := respelled.skipBlanks
  unfold Text.exponent?
  generalize text.skipBlanks = operand, other.skipBlanks = operand' at skipped ⊢
  cases skipped.rest with
  | nil => exact .none
  | @plain c rest rest' plain later =>
      simp only
      split
      · rename_i bracket opens
        exact Option.rel_map (later.groupFrom? bracket 0) fun alike =>
          skipped.trans (alike.reaches.plain plain)
      · have constant := skipped.rest.constantAt? vocabulary
        generalize vocabulary.constantAt? (c :: rest) = found,
          vocabulary.constantAt? (c :: rest') = found' at constant ⊢
        cases constant with
        | some same => exact .some (skipped.trans same.2)
        | none =>
            simp only
            split
            · exact .some (skipped.trans ((Reaches.refl later).plain plain))
            · exact .none
  | backslash =>
      have constant := skipped.rest.constantAt? vocabulary
      simp only [show Bracket.ofArgument? '\\' = none from rfl,
        show Char.isAlphanum '\\' = false from rfl]
      generalize vocabulary.constantAt? ['\\'] = found at constant ⊢
      cases constant with
      | some same => exact .some (skipped.trans same.2)
      | none => exact .none
  | @control old new rest rest' =>
      have constant := skipped.rest.constantAt? vocabulary
      simp only [show Bracket.ofArgument? '\\' = none from rfl,
        show Char.isAlphanum '\\' = false from rfl]
      generalize vocabulary.constantAt? ('\\' :: (old ++ rest)) = found,
        vocabulary.constantAt? ('\\' :: (new ++ rest')) = found' at constant ⊢
      cases constant with
      | some same => exact .some (skipped.trans same.2)
      | none => exact .none

theorem afterExponent? : Option.Rel (exchange.Reaches everywhere text other)
    (text.afterExponent? vocabulary) (other.afterExponent? vocabulary) := by
  have skipped := respelled.skipBlanks
  unfold Text.afterExponent?
  generalize text.skipBlanks = operand, other.skipBlanks = operand' at skipped ⊢
  cases skipped.rest with
  | nil | backslash | control => exact .some skipped
  | @plain c rest rest' plain later =>
      by_cases caret : c = '^'
      · subst caret
        exact Option.rel_map (later.exponent? vocabulary) fun reaches =>
          skipped.trans (reaches.plain plain)
      · simp [caret, skipped]

/-- Arguments end at the same place. -/
theorem afterBareArgument? : Option.Rel (exchange.Reaches everywhere text other)
    (text.afterBareArgument? vocabulary) (other.afterBareArgument? vocabulary) := by
  induction size : text.length using Nat.strongRecOn generalizing text other with
  | ind size ih =>
      subst size
      have skipped := respelled.skipBlanks
      have shorter := text.length_skipBlanks_le
      rw [Text.afterBareArgument?_eq, Text.afterBareArgument?_eq]
      generalize text.skipBlanks = operand, other.skipBlanks = operand' at skipped shorter ⊢
      cases skipped.rest with
      | nil => exact .none
      | backslash => exact .none
      | @plain c rest rest' plain later =>
          rw [List.length_cons] at shorter
          simp only [if_neg plain]
          split
          · rename_i bracket opens
            exact Option.rel_map (later.groupFrom? bracket 0) fun alike =>
              skipped.trans (alike.reaches.plain plain)
          · split
            · exact Option.rel_mono (ih rest.length (by omega) later rfl) fun reaches =>
                skipped.trans (reaches.plain plain)
            · split
              · exact .some (skipped.trans (skipped.rest.afterCoefficient vocabulary))
              · split
                · exact .some (skipped.trans (skipped.rest.afterLetterRun vocabulary))
                · exact .none
      | @control old new rest rest' spells ends later =>
          obtain ⟨isOld, isNew⟩ := spells.read? ends later
          rw [List.length_cons, List.length_append] at shorter
          have applied : Option.Rel (exchange.Reaches everywhere text other)
              ((rest.afterExponent? vocabulary).bind (Text.afterBareArgument? vocabulary))
              ((rest'.afterExponent? vocabulary).bind (Text.afterBareArgument? vocabulary)) := by
            refine Option.rel_bind (later.afterExponent? vocabulary) fun {operand _} found reaches => ?_
            have fewer := Text.length_le_of_afterExponent? found
            exact Option.rel_mono (ih operand.length (by omega) reaches.rest rfl) fun ending =>
              skipped.trans ((reaches.trans ending).control spells ends)
          simp only [show Bracket.ofArgument? '\\' = none from rfl, isOld, isNew,
            show ¬('\\' = '-' ∨ '\\' = '+') by decide, show Char.isDigit '\\' = false from rfl,
            show Char.isAlpha '\\' = false from rfl, Bool.false_eq_true, if_true, if_false,
            Option.bind_some]
          rcases spells.eq_or_mem with rfl | isMember
          · cases Command.named? new with
            | none => exact .none
            | some command =>
                cases command with
                | constant => exact .some (skipped.trans ((Reaches.refl later).control spells ends))
                | function | reciprocal | log => exact applied
                | _ => exact .none
          · -- Signs are no arguments, and both logarithms take one.
            cases exchange with
            | signs =>
                simp only [pairs, List.mem_cons, Prod.mk.injEq, List.not_mem_nil, or_false] at isMember
                rcases isMember with ⟨rfl, rfl⟩ | ⟨rfl, rfl⟩ <;> exact .none
            | logs =>
                simp only [pairs, List.mem_cons, Prod.mk.injEq, List.not_mem_nil, or_false] at isMember
                obtain ⟨rfl, rfl⟩ := isMember
                exact applied

theorem bareArgument? : Option.Rel (fun argument argument' : Cut =>
      exchange.Respelled everywhere argument.text argument'.text ∧
        exchange.Respelled everywhere argument.rest argument'.rest)
    (text.bareArgument? vocabulary) (other.bareArgument? vocabulary) := by
  have skipped := respelled.skipBlanks.rest
  unfold Text.bareArgument?
  generalize text.skipBlanks = operand, other.skipBlanks = operand' at skipped ⊢
  have taken := skipped.afterBareArgument? vocabulary
  cases skipped with
  | nil => exact .none
  | plain plain later =>
      simp only
      split
      · rename_i bracket opens
        exact Option.rel_map (later.groupFrom? bracket 0) fun alike =>
          ⟨alike.inside, alike.reaches.rest⟩
      · exact Option.rel_map taken fun reaches => ⟨reaches.upTo, reaches.rest⟩
  | backslash | control => exact Option.rel_map taken fun reaches => ⟨reaches.upTo, reaches.rest⟩

end Respelled

end Exchange

end TexCalc
