import TexCalc.Proofs.Linear.Bases
import TexCalc.Proofs.Linear.Commands
import TexCalc.Proofs.Marks.Called
import TexCalc.Proofs.Tex.Lexemes
import TexCalc.Proofs.Words.Leftover
import TexCalc.Tex.Normal

/-!
# Marks while commands are replaced

In normal text every mark is hidden, and fractions and roots bring none.  Inverse functions bring
names, each with a blank in front of it, and the arguments that are read behind them are groups,
control sequences and operands, which take no name apart.  The base of a logarithm may be a single
character, however.  When that is a mark, the mark is torn, and its letters stay behind.
-/

namespace TexCalc

open Parked (mark)

namespace Text

variable {named hidden inside : Bool} {torn : Nat} {text rest right : Text}

/-! ## Passes that leave characters in place -/

section

variable (step : Text → Text) (plain : ∀ c rest, c ≠ '\\' → step (c :: rest) = c :: step rest)

include plain

/-- Only a backslash begins something that is replaced, so that letters at the start of a text
stay. -/
theorem takeWhile_prefix_of_plain (text : Text) :
    text.takeWhile Char.isAlpha <+: (step text).takeWhile Char.isAlpha := by
  induction text with
  | nil => exact List.nil_prefix
  | cons c rest ih =>
      cases letter : c.isAlpha with
      | false => simp [letter]
      | true =>
          rw [plain c rest (ne_backslash_of_isAlpha letter)]
          simp only [List.takeWhile_cons, letter, if_true]
          exact (List.prefix_cons_inj c).2 ih

theorem isShut_of_plain (empty : step [] = []) (shut : text.isShut = true) :
    (step text).isShut = true := by
  cases text with
  | nil => rwa [empty]
  | cons c rest =>
      obtain ⟨bracket, rfl⟩ := exists_closer_of_isShut shut
      rw [plain _ rest (not_isAlpha_closer bracket).2]
      exact shut

end

/-! ## Arguments -/

namespace HasMarks

theorem nil_of_zero (marks : HasMarks named hidden inside torn []) : torn = 0 := by
  cases marks
  rfl

/-- A mark that stands alone is torn. -/
theorem ne_mark (marks : HasMarks named false inside 0 text) : text ≠ [mark] := by
  rintro rfl
  cases marks with
  | other other => exact other rfl
  | named _ isNamed => exact absurd isNamed (by decide)

theorem whole_of_brackets {bracket : Bracket} {group : Group}
    (found : bracket.group? text = some group)
    (marks : HasMarks named false inside 0 (bracket.opener :: text)) :
    HasMarks named false false 0 group.inside ∧ HasMarks named false false 0 group.rest := by
  obtain ⟨within, after, none, inner, later⟩ := marks.of_brackets found
  obtain ⟨rfl, rfl⟩ := Nat.add_eq_zero_iff.1 none.symm
  exact ⟨inner, later⟩

/-- Only a mark that has a name can be torn when an argument is read. -/
theorem of_argument {argument : Argument} (found : Argument.read? text = some argument)
    (marks : HasMarks named false inside 0 text) :
    HasMarks named false false 0 argument.rest ∧
      (HasMarks named false false 0 argument.text ∨ named = true ∧ argument.text = [mark]) := by
  have skipped := marks.skipBlanks
  simp only [Argument.read?] at found
  split at found
  · cases found
  · rename_i c after start
    rw [start] at skipped
    split at found
    · rename_i opens
      subst opens
      obtain ⟨group, isGroup, rfl⟩ := Option.map_eq_some_iff.1 found
      obtain ⟨inner, later⟩ := skipped.whole_of_brackets isGroup
      exact ⟨later, .inl inner⟩
    · split at found
      · rename_i back
        subst back
        obtain ⟨control, isControl, rfl⟩ := Option.map_eq_some_iff.1 found
        rw [Control.eq_of_read? isControl] at skipped
        have isName := Control.isName_of_read? isControl
        have source : HasMarks named false false 0 ('\\' :: (control.name ++ [])) :=
          .control_append isName .nil
        rw [List.append_nil] at source
        exact ⟨(skipped.of_control isName).outside, .inl source⟩
      · rename_i plain
        split at found
        · cases found
        · cases found
          cases skipped with
          | other other later =>
              rw [beq_false_of_ne plain, Bool.false_and] at later
              exact ⟨later.outside, .inl (.other other .nil)⟩
          | named allowed _ later => exact ⟨later, .inr ⟨allowed, rfl⟩⟩

theorem of_optionalArgument {argument : Argument}
    (found : Argument.readOptional? text = some argument)
    (marks : HasMarks named false inside 0 text) :
    HasMarks named false false 0 argument.text ∧ HasMarks named false false 0 argument.rest := by
  have skipped := marks.skipBlanks
  simp only [Argument.readOptional?] at found
  split at found
  · rename_i after start
    rw [start] at skipped
    obtain ⟨group, isGroup, rfl⟩ := Option.map_eq_some_iff.1 found
    exact skipped.whole_of_brackets isGroup
  · cases found

/-- An argument in front of the renaming is a group or ends where no name is cut. -/
theorem of_bareArgument? {vocabulary : Vocabulary} {argument : Cut}
    (found : text.bareArgument? vocabulary = some argument)
    (marks : HasMarks named false inside 0 text) :
    HasMarks named false false 0 argument.text ∧ HasMarks named false false 0 argument.rest := by
  have skipped := marks.skipBlanks
  simp only [bareArgument?] at found
  split at found
  · cases found
  · rename_i c after start
    rw [start] at skipped
    split at found
    · rename_i bracket opens
      obtain ⟨group, isGroup, rfl⟩ := Option.map_eq_some_iff.1 found
      rw [← opener_of_ofArgument? opens] at skipped
      exact skipped.whole_of_brackets isGroup
    · obtain ⟨ending, isEnding, rfl⟩ := Option.map_eq_some_iff.1 found
      have parts := PartsMarks.of_passes (passes_of_afterBareArgument? isEnding)
      obtain ⟨taken, behind, none, first, later⟩ := parts.exists_eq_add skipped
      obtain ⟨rfl, rfl⟩ := Nat.add_eq_zero_iff.1 none.symm
      exact ⟨first, later⟩

end HasMarks

/-! ## Normal text -/

theorem mark_not_mem_side (side : Side) (delimiter : Char) :
    mark ∉ side.normal delimiter ∧ '\\' ∉ side.normal delimiter := by
  fun_cases Side.normal side delimiter <;> decide

/-- Normal text has hidden marks only. -/
theorem hasMarks_ofTokens {tokens : List Token} (lexed : AreLexed tokens) (isOpen : Bool) :
    HasMarks false false inside 0 (ofTokens isOpen tokens) := by
  suffices outside : HasMarks false false false 0 (ofTokens isOpen tokens) from
    outside.within_words inside
  fun_induction ofTokens isOpen tokens with
  | case1 => exact .nil
  | case2 isOpen token rest side _ next later after delimiter _ ih =>
      have behind : later <:+ rest := (List.suffix_cons next later).trans
        (after ▸ List.dropWhile_suffix Token.isBlank)
      obtain ⟨noMark, plain⟩ := mark_not_mem_side side delimiter
      exact .plain_append noMark plain (ih (lexed.tail.of_suffix behind))
  | case3 _ token rest | case4 _ token rest =>
      rename_i ih
      exact ih lexed.tail
  | case5 isOpen rest _ ih =>
      have bars : mark ∉ (if isOpen then "))".toList else "(abs(".toList) ∧
          '\\' ∉ (if isOpen then "))".toList else "(abs(".toList) := by
        cases isOpen <;> decide
      exact .plain_append bars.1 bars.2 (ih lexed.tail)
  | case6 isOpen token rest _ noBar ih =>
      have later := ih lexed.tail
      have isLexed := lexed.head
      cases token with
      | char c =>
          have written : (Token.char c).normal = if c = mark then [] else [c] := rfl
          rw [written]
          split
          · exact later
          · rename_i other
            rcases isLexed with single | ⟨rfl, rfl⟩
            · have plain : c ≠ '\\' := by
                rintro rfl
                exact absurd single (by decide)
              exact .plain_append (by simpa using Ne.symm other) (by simpa using Ne.symm plain)
                later
            · rw [ofTokens]
              exact .of_not_mem (by decide)
      | control name =>
          rw [Token.normal_control]
          split
          · exact .plain_append (by decide) (by decide) later
          · split
            · exact .plain_append (by decide) (by decide) later
            · split
              · exact .plain_append (by decide) (by decide) later
              · exact .control_append isLexed (later.within_words _)
      | comment text => exact later
      | mathShift => exact later
      | _ => exact .plain_append (by decide) (by decide) later

theorem hasMarks_normal (formula : Text) : HasMarks false false false 0 formula.normal :=
  hasMarks_ofTokens (areLexed_lexemes formula.trim) false

end Text

/-! ## Structures -/

namespace Structure

open Text (HasMarks parenthesized)

variable {name text after resolved : Text} {found : Structure}

/-- The arguments of a structure keep their marks, which no name makes visible, and the structure
ends with a parenthesis. -/
theorem hasMarks_read? {inside : Bool} (marks : HasMarks false false inside 0 text)
    (isRead : read? name text = some (found, after)) :
    HasMarks false false false 0 (found.linear ++ after) := by
  have ofArgument {inside : Bool} {text : Text} {argument : Argument}
      (isArgument : Argument.read? text = some argument)
      (marks : HasMarks false false inside 0 text) :
      HasMarks false false false 0 argument.text ∧ HasMarks false false false 0 argument.rest := by
    obtain ⟨later, inner | ⟨allowed, _⟩⟩ := marks.of_argument isArgument
    · exact ⟨inner, later⟩
    · cases allowed
  simp only [read?] at isRead
  split at isRead
  · obtain ⟨numerator, isNumerator, isRead⟩ := Option.bind_eq_some_iff.1 isRead
    obtain ⟨denominator, isDenominator, same⟩ := Option.map_eq_some_iff.1 isRead
    cases same
    obtain ⟨above, middle⟩ := ofArgument isNumerator marks
    obtain ⟨under, later⟩ := ofArgument isDenominator middle
    have quotient : HasMarks false false false 0
        (numerator.text.wrap ++ '/' :: denominator.text.wrap) :=
      above.wrap_append (.cons (by decide) (by decide) (by decide) under.wrap)
    exact quotient.parenthesized_append later
  · split at isRead
    · simp only [readRoot?] at isRead
      split at isRead
      · obtain ⟨index, isIndex, isRead⟩ := Option.bind_eq_some_iff.1 isRead
        obtain ⟨radicand, isRadicand, same⟩ := Option.map_eq_some_iff.1 isRead
        cases same
        obtain ⟨degree, middle⟩ := marks.of_optionalArgument isIndex
        obtain ⟨inner, later⟩ := ofArgument isRadicand middle
        have exponent : HasMarks false false false 0 ("1/".toList ++ index.text.wrap) :=
          .plain_append (by decide) (by decide) degree.wrap
        have power : HasMarks false false false 0
            (radicand.text.wrap ++ '^' :: parenthesized ("1/".toList ++ index.text.wrap)) :=
          inner.wrap_append (.cons (by decide) (by decide) (by decide) exponent.parenthesized)
        exact power.parenthesized_append later
      · obtain ⟨radicand, isRadicand, same⟩ := Option.map_eq_some_iff.1 isRead
        cases same
        obtain ⟨inner, later⟩ := ofArgument isRadicand marks
        have call : HasMarks false false false 0
            ("sqrt".toList ++ parenthesized radicand.text.trim) :=
          .plain_append (by decide) (by decide) inner.trim.parenthesized
        exact call.parenthesized_append later
    · cases isRead

theorem hasMarks_resolveLast? (isNext : resolveLast? text.pieces = some resolved)
    (marks : HasMarks false false false 0 text) : HasMarks false false false 0 resolved := by
  apply resolveLast?_induct
    (motive := fun text resolved => HasMarks false false false 0 text →
      HasMarks false false false 0 resolved) _ _ _ isNext marks
  · intro rest control structured after isControl isRead marks
    rw [Control.eq_of_read? isControl] at marks
    exact hasMarks_read? (marks.of_control (Control.isName_of_read? isControl)) isRead
  · intro rest control inner isControl ih marks
    rw [Control.eq_of_read? isControl] at marks
    have isName := Control.isName_of_read? isControl
    exact .control_append isName ((ih (marks.of_control isName).outside).within_words _)
  · intro c rest resolved plain ih marks
    cases marks with
    | other other later =>
        rw [beq_false_of_ne plain, Bool.false_and] at later
        refine .other other ?_
        rw [beq_false_of_ne plain, Bool.false_and]
        exact (ih later.outside).within_words _
    | named allowed => cases allowed

end Structure

namespace Text

variable {hidden inside : Bool} {torn : Nat} {text rest right : Text}

theorem hasMarks_resolveStructures (marks : HasMarks false false false 0 text) :
    HasMarks false false false 0 text.resolveStructures :=
  Structure.resolveUpTo_induct (motive := HasMarks false false false 0)
    (fun _ _ found kept => Structure.hasMarks_resolveLast? found kept) _ marks

/-! ## Inverse functions -/

/-- The brace that ends the exponent of an inverse function. -/
theorem exists_of_afterMinusOne? (found : text.afterMinusOne? = some rest) :
    ∃ front : Text, text = front ++ '\x7d' :: rest := by
  suffices steps : ∀ (marks : List Char) (text : Text),
      (marks ++ ['\x7d']).foldlM (fun rest c => dropLead? (trimStart rest) [c]) text = some rest →
        ∃ front : Text, text = front ++ '\x7d' :: rest from
    steps ['^', '\x7b', '-', '1'] text found
  have split {text after : Text} {c : Char} (isAfter : text.trimStart.dropLead? [c] = some after) :
      text = text.takeWhile isBlank ++ c :: after := by
    have behind : text.trimStart = c :: after := dropLead?_eq_some_iff.1 isAfter
    rw [← behind]
    exact List.takeWhile_append_dropWhile.symm
  intro marks
  induction marks with
  | nil =>
      intro text folded
      rw [List.nil_append, List.foldlM_cons] at folded
      obtain ⟨after, isAfter, same⟩ := Option.bind_eq_some_iff.1 folded
      cases same
      exact ⟨_, split isAfter⟩
  | cons c marks ih =>
      intro text folded
      rw [List.cons_append, List.foldlM_cons] at folded
      obtain ⟨after, isAfter, isRest⟩ := Option.bind_eq_some_iff.1 folded
      obtain ⟨front, rfl⟩ := ih after isRest
      refine ⟨text.takeWhile isBlank ++ c :: front, ?_⟩
      rw [List.append_assoc]
      exact split isAfter

/-- What follows the exponent of an inverse function. -/
theorem HasMarks.of_inverseMark? {inverse : Cut} (found : text.inverseMark? = some inverse)
    (marks : HasMarks false hidden inside 0 text) : HasMarks false false false 0 inverse.rest := by
  obtain ⟨name, _, rest, rfl, isAfter, _⟩ := exists_of_inverseMark? found
  obtain ⟨front, rfl⟩ := exists_of_afterMinusOne? isAfter
  rw [← List.append_assoc, ← List.cons_append] at marks
  obtain ⟨before, after, none, _, later⟩ :=
    marks.of_append_cons (by decide) (by decide) (by decide)
  obtain ⟨rfl, rfl⟩ := Nat.add_eq_zero_iff.1 none.symm
  exact later

/-- An inverse function brings a whole name, with anything after it. -/
theorem hasMarks_inverse_append {inverse : Cut} (found : text.inverseMark? = some inverse)
    (later : HasMarks true false false torn right) :
    HasMarks true false false torn (inverse.text ++ right) := by
  obtain ⟨name, isName, _, _, _, isInverse⟩ := exists_of_inverseMark? found
  have known : ∀ name ∈ trigonometric, ∀ inverse ∈ Command.inverse? name,
      inverse ∈ Parked.all.map Parked.name ∨ mark ∉ inverse ∧ '\\' ∉ inverse := by
    decide
  rcases known name isName inverse.text isInverse with isParked | ⟨noMark, plain⟩
  · obtain ⟨parked, _, same⟩ := List.mem_map.1 isParked
    rw [← same]
    exact (Callable.parked parked).hasMarks_append later
  · exact .plain_append noMark plain later

/-- Inverse functions bring whole names. -/
theorem hasMarks_resolveInverses (vocabulary : Vocabulary)
    (marks : HasMarks false hidden inside 0 text) :
    HasMarks true hidden inside 0 (text.resolveInverses vocabulary) := by
  have blank {hidden inside : Bool} {text : Text} (later : HasMarks true false false 0 text) :
      HasMarks true hidden inside 0 (' ' :: text) :=
    .cons (by decide) (by decide) (by decide) later
  fun_induction resolveInverses vocabulary text generalizing hidden inside with
  | case1 => exact .nil
  | case2 c rest _ ih =>
      cases marks with
      | other other later => exact .other other (ih later)
      | hidden later => exact .hidden (ih later)
      | named allowed => cases allowed
  | case3 c rest inverse isMark argument isArgument ih =>
      obtain ⟨inner, later⟩ := (marks.of_inverseMark? isMark).of_bareArgument? isArgument
      rw [List.append_assoc]
      exact blank (hasMarks_inverse_append isMark (inner.allow.parenthesized_append (ih later)))
  | case4 c rest inverse isMark _ ih =>
      exact blank (hasMarks_inverse_append isMark (blank (ih (marks.of_inverseMark? isMark))))

/-! ## Logarithms -/

/-- A base that has a target function of its own has no mark. -/
theorem mark_not_mem_of_logFunction? {base function : Text}
    (found : logFunction? base = some function) :
    mark ∉ base ∧ mark ∉ function ∧ '\\' ∉ function := by
  simp only [logFunction?] at found
  split at found
  · rename_i ten
    cases found
    rw [ten]
    decide
  · split at found
    · rename_i euler
      cases found
      rw [euler]
      decide
    · cases found

theorem hasMarks_logOf_append {base argument : Text} (below : HasMarks true false false torn base)
    (inner : HasMarks true false false 0 argument) {more : Nat}
    (later : HasMarks true false false more right) :
    HasMarks true hidden inside (torn + more) (logOf base argument ++ right) := by
  unfold logOf
  split
  · rename_i function found
    obtain ⟨noMark, noneHere, plain⟩ := mark_not_mem_of_logFunction? found
    rw [below.eq_zero_of_not_mem noMark, List.append_assoc]
    exact .cons (by decide) (by decide) (by decide)
      (.plain_append noneHere plain (inner.parenthesized_append later))
  · have divided : HasMarks true false false torn ("/log".toList ++ base.parenthesized) :=
      .plain_append (by decide) (by decide) below.parenthesized
    have quotient : HasMarks true false false torn
        ("log".toList ++ (argument.parenthesized ++ ("/log".toList ++ base.parenthesized))) := by
      refine .plain_append (by decide) (by decide) ?_
      have whole : HasMarks true false false (0 + torn)
          (argument.parenthesized ++ ("/log".toList ++ base.parenthesized)) :=
        inner.parenthesized_append divided
      rwa [Nat.zero_add] at whole
    rw [← List.append_assoc, ← List.append_assoc] at quotient
    exact .cons (by decide) (by decide) (by decide) (quotient.parenthesized_append later)

theorem hasMarks_bareLog_append {base : Text} (below : HasMarks true false false torn base)
    {more : Nat} (later : HasMarks true false false more right) :
    HasMarks true hidden inside (torn + more) (bareLog base ++ right) := by
  unfold bareLog
  split
  · rename_i function found
    obtain ⟨noMark, noneHere, plain⟩ := mark_not_mem_of_logFunction? found
    rw [below.eq_zero_of_not_mem noMark, List.append_assoc, Nat.zero_add]
    exact .cons (by decide) (by decide) (by decide)
      (.plain_append noneHere plain (.cons (by decide) (by decide) (by decide) later))
  · have divided : HasMarks true false false torn ("1/log".toList ++ base.parenthesized) :=
      .plain_append (by decide) (by decide) below.parenthesized
    have function : HasMarks true false false more ("* log ".toList ++ right) :=
      .plain_append (by decide) (by decide) later
    rw [List.append_assoc]
    exact .cons (by decide) (by decide) (by decide) (divided.parenthesized_append function)

/-- A base that is read is the mark alone, or none of its marks is torn. -/
theorem HasMarks.of_logBase? {base : Argument}
    (found : text.afterLogMark?.bind Argument.read? = some base)
    (marks : HasMarks true hidden inside 0 text) :
    HasMarks true false false ([base.text.trim].count [mark]) base.text.trim ∧
      HasMarks true false false 0 base.rest := by
  obtain ⟨blanks, after, rfl, _, isBase⟩ := exists_of_logBase? found
  rw [← List.append_assoc] at marks
  obtain ⟨before, behind, none, _, script⟩ :=
    marks.of_append_cons (by decide) (by decide) (by decide)
  obtain ⟨rfl, rfl⟩ := Nat.add_eq_zero_iff.1 none.symm
  obtain ⟨later, inner | ⟨_, alone⟩⟩ := script.of_argument isBase
  · refine ⟨?_, later⟩
    have trimmed := inner.trim
    rwa [List.count_singleton, beq_false_of_ne trimmed.ne_mark]
  · refine ⟨?_, later⟩
    rw [alone]
    exact .torn rfl .nil

/-- Each base that is the mark alone tears that mark, and nothing else does. -/
theorem hasMarks_resolveLogBases (vocabulary : Vocabulary)
    (marks : HasMarks true hidden inside 0 text) :
    HasMarks true hidden inside ((text.logBases vocabulary).count [mark])
      (text.resolveLogBases vocabulary) := by
  have split (base : Text) (bases : List Text) :
      (base :: bases).count [mark] = [base].count [mark] + bases.count [mark] := by
    rw [show base :: bases = [base] ++ bases from rfl, List.count_append]
  fun_induction resolveLogBases vocabulary text generalizing hidden inside with
  | case1 =>
      rw [logBases]
      exact .nil
  | case2 c rest isNone ih =>
      rw [logBases_cons_of_none isNone]
      cases marks with
      | other other later => exact .other other (ih later)
      | hidden later => exact .hidden (ih later)
      | named allowed isNamed later =>
          have letters := takeWhile_prefix_of_plain (resolveLogBases vocabulary)
            (fun _ rest plain => resolveLogBases_plain plain rest) rest
          exact .named allowed (Parked.isSome_read?_of_letters letters isNamed) (ih later)
  | case3 c rest base isBase argument isArgument ih =>
      obtain ⟨below, behind⟩ := marks.of_logBase? isBase
      obtain ⟨inner, later⟩ := behind.of_bareArgument? isArgument
      rw [logBases_cons_of_argument isBase isArgument, split]
      exact hasMarks_logOf_append below inner (ih later)
  | case4 c rest base isBase isNone ih =>
      obtain ⟨below, behind⟩ := marks.of_logBase? isBase
      rw [logBases_cons_of_bare isBase isNone, split]
      exact hasMarks_bareLog_append below (ih behind)

/-- Where commands are renamed, as many marks are torn as there are bases that are the mark
alone. -/
theorem hasMarks_beforeRenaming (vocabulary : Vocabulary) (formula : Text) :
    HasMarks true false false
      ((formula.normal.resolveStructures.resolveInverses vocabulary).logBases vocabulary
        |>.count [mark]) (formula.normal.beforeRenaming vocabulary) :=
  have resolved := hasMarks_resolveStructures (hasMarks_normal formula)
  hasMarks_resolveLogBases vocabulary (hasMarks_resolveInverses vocabulary resolved)

end Text

end TexCalc
