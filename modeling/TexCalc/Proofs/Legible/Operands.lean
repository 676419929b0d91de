import TexCalc.Proofs.Constants.Untorn
import TexCalc.Proofs.Legible.Formula
import TexCalc.Proofs.Legible.Structures
import TexCalc.Proofs.Linear.Attached
import TexCalc.Proofs.Linear.Steps

/-!
# Operands of a legible formula

A callable is found exactly at the glyph that is one, and a constant at the glyph of a constant: no
name begins at any other character, and none inside of a constant.

Where the argument of a function is expected in a legible formula, it can be read.  The operand that
is read is legible by itself, and the formula goes on behind it as if nothing were expected.  Letters
and numerals may be taken over into any part of a formula.
-/

namespace TexCalc

/-! ## Names among glyphs -/

namespace Text

variable {text : Text} {c : Char} {rest : Text}

theorem beginsName_of_mem {kind : NameKind} {name : Name}
    (isMember : name ∈ Vocabulary.standard.namesOf kind) (isPrefix : name.text <+: text) :
    text.beginsName = true := by
  obtain ⟨entry, isEntry, rfl⟩ := List.mem_map.1 isMember
  rw [beginsName, Bool.or_eq_true]
  exact .inl (List.any_eq_true.2
    ⟨entry, (List.mem_filter.1 isEntry).1, decide_eq_true isPrefix⟩)

theorem callableAt?_eq_none_of_beginsName (noMark : c ≠ Parked.mark)
    (none : beginsName (c :: rest) = false) :
    Vocabulary.standard.callableAt? (c :: rest) = Option.none := by
  rw [Vocabulary.callableAt?, Parked.read?_eq_none noMark]
  split
  · rename_i name after found
    obtain ⟨candidate, isMember, matched⟩ := List.exists_of_findSome?_eq_some found
    obtain ⟨remaining, isRest, _⟩ := Option.map_eq_some_iff.1 matched
    rw [beginsName_of_mem isMember ⟨remaining, (dropLead?_eq_some_iff.1 isRest).symm⟩] at none
    cases none
  · rfl

theorem constantAt?_eq_none_of_beginsName (none : beginsName text = false) :
    Vocabulary.standard.constantAt? text = Option.none := by
  rw [Option.eq_none_iff_forall_ne_some]
  rintro ⟨name, after⟩ found
  obtain ⟨candidate, isMember, matched⟩ := List.exists_of_findSome?_eq_some found
  obtain ⟨remaining, isRest, same⟩ := Option.map_eq_some_iff.1 matched
  have isPrefix := (dropLead?_eq_some_iff.1 (Option.filter_eq_some_iff.1 isRest).1).symm
  rw [beginsName_of_mem isMember ⟨remaining, isPrefix⟩] at none
  cases none

end Text

/-- The functions of the standard vocabulary can be called. -/
theorem Callable.exists_of_mem {name : Text} (isMember : name ∈ Vocabulary.functionNames) :
    ∃ callable : Callable, callable.text = name ∧ callable.isStandard = true := by
  obtain ⟨function, isStandard, isText⟩ :=
    List.mem_map.1 (Vocabulary.map_text_functions ▸ isMember)
  exact ⟨.function function, isText, decide_eq_true isStandard⟩

namespace Glyph

variable {glyph : Glyph} {rest : Text} {role : Role} {c : Char} {name : Name}
  {callable : Callable}

theorem ne_mark_of_role? (isRole : (char c).role? rest = some role) : c ≠ Parked.mark := by
  rintro rfl
  cases ofChar?_of_role? isRole

/-- At a character nothing is called. -/
theorem callableAt?_char (isRole : (char c).role? rest = some role) :
    Vocabulary.standard.callableAt? (c :: rest) = none := by
  refine Text.callableAt?_eq_none_of_beginsName (ne_mark_of_role? isRole) ?_
  simp only [role?] at isRole
  split at isRole
  · cases isRole
  · exact Bool.eq_false_iff.2 ‹¬ Text.beginsName _ = true›

theorem constantAt?_char (isRole : (char c).role? rest = some role) :
    Vocabulary.standard.constantAt? (c :: rest) = none := by
  refine Text.constantAt?_eq_none_of_beginsName ?_
  simp only [role?] at isRole
  split at isRole
  · cases isRole
  · exact Bool.eq_false_iff.2 ‹¬ Text.beginsName _ = true›

/-- Neither a letter, a digit nor a parked name is right behind a name. -/
theorem endsRun_of_role? (isRole : glyph.role? rest = some role) (noChar : ∀ c, glyph ≠ char c)
    (noWord : ∀ name, glyph ≠ word name) : rest.endsRun Text.isNameChar = true := by
  cases glyph with
  | char c => exact absurd rfl (noChar c)
  | word name => exact absurd rfl (noWord name)
  | call callable =>
      simp only [role?] at isRole
      split at isRole <;> cases isRole
      rename_i allowed
      rw [Bool.and_eq_true] at allowed
      exact allowed.2
  | value name =>
      simp only [role?] at isRole
      split at isRole <;> cases isRole
      rename_i allowed
      exact allowed.2

theorem exists_call (isRole : (call callable).role? rest = some role) :
    role = .call rest.isApplied ∧ callable.isStandard = true ∧
      rest.endsRun Char.isAlphanum = true := by
  simp only [role?] at isRole
  split at isRole <;> cases isRole
  rename_i allowed
  rw [Bool.and_eq_true] at allowed
  exact ⟨rfl, allowed.1, Text.endsRun_isAlphanum allowed.2⟩

theorem exists_value (isRole : (value name).role? rest = some role) :
    role = .value true ∧ name ∈ Vocabulary.standard.namesOf .constant ∧
      rest.endsRun Char.isAlphanum = true := by
  simp only [role?] at isRole
  split at isRole <;> cases isRole
  rename_i allowed
  exact ⟨rfl, allowed.1, Text.endsRun_isAlphanum allowed.2⟩

/-- The longest function that letters and digits begin with is no longer than they are. -/
theorem findSome?_append {run : Text} (ends : rest.endsRun Char.isAlphanum = true)
    (names : List Text) (all : ∀ name ∈ names, name.all Char.isAlphanum = true) :
    (names.findSome? fun name => ((run ++ rest).dropLead? name).map (name, ·)) =
      (names.findSome? fun name => (run.dropLead? name).map (name, ·)).map
        fun found => (found.1, found.2 ++ rest) := by
  induction names with
  | nil => rfl
  | cons name names ih =>
      rw [List.findSome?_cons, List.findSome?_cons,
        Text.dropLead?_append (all name List.mem_cons_self) ends]
      cases run.dropLead? name with
      | none => exact ih fun other isMember => all other (List.mem_cons_of_mem name isMember)
      | some after => rfl

/-- A callable is found where it is named. -/
theorem callableAt?_call (isRole : (call callable).role? rest = some role) :
    Vocabulary.standard.callableAt? (callable.text ++ rest) = some (callable, rest) := by
  obtain ⟨-, isStandard, ends⟩ := exists_call isRole
  obtain ⟨other, found, same⟩ : ∃ other, Vocabulary.standard.callableAt? (callable.text ++ rest) =
      some (other, rest) ∧ other.text = callable.text := by
    refine Vocabulary.exists_callableAt?_eq ?_
    cases callable with
    | function name =>
        have isName : name.text ∈ Vocabulary.functionNames := by
          rw [← Vocabulary.map_text_functions]
          exact List.mem_map_of_mem (of_decide_eq_true isStandard)
        rw [Callable.text, findSome?_append ends _ (by decide)]
        generalize name.text = text at isName
        simp only [Vocabulary.functionNames, List.mem_cons, List.not_mem_nil, or_false] at isName
        rcases isName with rfl | rfl | rfl | rfl | rfl | rfl | rfl | rfl | rfl | rfl | rfl <;> rfl
    | parked waiting =>
        have isRead : Parked.read? (waiting.name ++ rest) = some (waiting, rest) :=
          Parked.read?_eq_some_iff.2 rfl
        rw [Callable.text, isRead]
        rcases waiting with ⟨function, inverse⟩
        cases function <;> cases inverse <;> rfl
  rw [found, Callable.eq_of_text same]

theorem mem_constantNames (isMember : name ∈ Vocabulary.standard.namesOf .constant) :
    name.text ∈ constantNames := by
  have all : ∀ name ∈ Vocabulary.standard.namesOf .constant, name.text ∈ constantNames := by
    decide +kernel
  exact all name isMember

/-- A constant is found where it is spelled. -/
theorem constantAt?_value (isRole : (value name).role? rest = some role) :
    Vocabulary.standard.constantAt? (name.text ++ rest) = some (name, rest) := by
  obtain ⟨-, isMember, ends⟩ := exists_value isRole
  rw [Vocabulary.constantAt?_append _ name.all_isAlphanum ends]
  have found : ∀ name ∈ Vocabulary.standard.namesOf .constant,
      (Vocabulary.standard.namesOf .constant).find? (·.text == name.text) = some name := by
    decide +kernel
  rw [found name isMember]
  rfl

/-- Nothing is called at a constant or inside of it. -/
theorem callableAt?_value (isRole : (value name).role? rest = some role) {run : Text}
    (isEnding : c :: run <:+ name.text) :
    Vocabulary.standard.callableAt? (c :: (run ++ rest)) = none := by
  obtain ⟨-, isMember, ends⟩ := exists_value isRole
  exact Vocabulary.keepsConstants_standard.callableAt?_eq_none (mem_constantNames isMember)
    isEnding.isInfix ends

/-- A run of letters goes on through a constant, and ends with it. -/
theorem afterLetters_value (isRole : (value name).role? rest = some role) {run : Text}
    (isEnding : run <:+ name.text) : Text.afterLetters .standard (run ++ rest) = rest := by
  obtain ⟨-, isMember, ends⟩ := exists_value isRole
  have letters : ∀ name ∈ constantNames, name.all Char.isAlpha = true := by decide
  have all := letters _ (mem_constantNames isMember)
  induction run with
  | nil =>
      cases rest with
      | nil => rfl
      | cons c rest =>
          have noLetter : c.isAlpha = false := by
            cases letter : c.isAlpha with
            | false => rfl
            | true => simp [Text.endsRun, Char.isAlphanum, letter] at ends
          simp [Text.afterLetters, noLetter]
  | cons c run ih =>
      have letter : c.isAlpha = true :=
        List.all_eq_true.1 all c (isEnding.subset List.mem_cons_self)
      rw [List.cons_append, Text.afterLetters, letter, callableAt?_value isRole isEnding]
      exact ih ((List.suffix_cons c run).trans isEnding)

/-- The first letter of a constant is the first one of a run. -/
theorem exists_letter_of_value (isRole : (value name).role? rest = some role) :
    ∃ c run, name.text = c :: run ∧ c.isAlpha = true ∧
      Text.afterLetterRun .standard (c :: (run ++ rest)) = rest := by
  obtain ⟨c, run, isText⟩ := List.exists_cons_of_ne_nil name.text_ne_nil
  have valid := name.isName
  rw [isText, Text.isName, Bool.and_eq_true] at valid
  refine ⟨c, run, isText, valid.1, ?_⟩
  rw [Text.afterLetterRun, if_pos valid.1]
  exact afterLetters_value isRole (isText ▸ List.suffix_cons c run)

/-- A word for a function is a command that takes an argument. -/
theorem exists_function {name : Text} {isLog : Bool}
    (isWord : Role.ofWord? name = some (.function isLog)) :
    ∃ command, Command.named? name = some command ∧ command.takesArgument = true ∧
      isLog = decide (command = .log) := by
  obtain ⟨-, isRole⟩ | ⟨-, -, isRole⟩ | ⟨command, isNamed, isRole, -, -⟩ := cases_of_ofWord? isWord
  · cases isRole
  · cases isRole
  refine ⟨command, isNamed, ?_⟩
  cases command with
  | constant target =>
      rw [Role.ofCommand?] at isRole
      split at isRole <;> cases isRole
  | function | reciprocal | log =>
      cases isRole
      exact ⟨rfl, rfl⟩
  | _ => cases isRole

/-- A word for a value is a command for a constant. -/
theorem exists_constant {name : Text} (isWord : Role.ofWord? name = some role)
    (isValue : role = .euler ∨ ∃ spelled, role = .value spelled) :
    ∃ target, Command.named? name = some (.constant target) ∧
      (role = .euler ↔ target = ['e']) := by
  have other (noEuler : role ≠ .euler) (noValue : ∀ spelled, role ≠ .value spelled) : False :=
    isValue.elim noEuler (not_exists.2 noValue)
  obtain ⟨-, rfl⟩ | ⟨-, -, rfl⟩ | ⟨command, isNamed, isRole, -, -⟩ := cases_of_ofWord? isWord
  · exact (other (by simp) (by simp)).elim
  · exact (other (by simp) (by simp)).elim
  cases command with
  | structural | spacing => cases isRole
  | constant target =>
      refine ⟨target, isNamed, ?_⟩
      rw [Role.ofCommand?] at isRole
      split at isRole <;> cases isRole
      · rename_i isEuler
        exact ⟨fun _ => isEuler, fun _ => rfl⟩
      · rename_i noEuler
        simpa using noEuler
  | _ =>
      cases isRole
      exact (other (by simp) (by simp)).elim

/-- The role of a letter. -/
theorem role_of_letter (isRole : (char c).role? rest = some role) (letter : c.isAlpha = true) :
    role = .euler ∨ role = .letter := by
  have word : c.isAlphanum = true := by simp [Char.isAlphanum, letter]
  have other {d : Char} (noWord : d.isAlphanum = false) : c ≠ d := ne_of_isAlphanum word noWord
  have fits := Role.fits_of_ofChar? (ofChar?_of_role? isRole)
  cases role with
  | euler => exact .inl rfl
  | letter => exact .inr rfl
  | digit =>
      have digit : c.isDigit = true := fits
      rw [isDigit_eq_false_of_isAlpha letter] at digit
      cases digit
  | sign => exact absurd fits (not_or.2 ⟨other (by decide), other (by decide)⟩)
  | mark =>
      exact absurd fits
        (not_or.2 ⟨other (by decide), not_or.2 ⟨other (by decide), other (by decide)⟩⟩)
  | «opens» bracket | closes bracket => cases bracket <;> exact absurd fits (other (by decide))
  | blank | caret | underscore | point => exact absurd fits (other (by decide))
  | _ => exact fits.elim

end Glyph

/-- The role of a digit. -/
theorem Role.eq_digit_of_isDecimalDigit {c : Char} {role : Role}
    (isRole : Role.ofChar? c = some role) (digit : isDecimalDigit c = true) : role = .digit := by
  have other {d : Char} (noDigit : isDecimalDigit d = false) : c ≠ d := by
    rintro rfl
    rw [noDigit] at digit
    cases digit
  have fits := Role.fits_of_ofChar? isRole
  cases role with
  | digit => rfl
  | letter =>
      rw [isDecimalDigit_eq_false_of_isAlpha fits] at digit
      cases digit
  | sign => exact absurd fits (not_or.2 ⟨other (by decide), other (by decide)⟩)
  | mark =>
      exact absurd fits
        (not_or.2 ⟨other (by decide), not_or.2 ⟨other (by decide), other (by decide)⟩⟩)
  | «opens» bracket | closes bracket => cases bracket <;> exact absurd fits (other (by decide))
  | blank | caret | underscore | point | euler => exact absurd fits (other (by decide))
  | _ => exact fits.elim

/-! ## Operands and limits -/

namespace Text

/-- The part of a text in front of its ending leads from one mode to another one, with any beginning
of that ending behind it. -/
def Leads (stage : Stage) (letter : Char) (inner : Limits) (mode behind : Mode) (count : Nat)
    (text rest : Text) : Prop :=
  ∃ piece, text = piece ++ rest ∧ ∀ tail more, tail <+: rest →
    Follows (.formula stage) letter ⟨behind, inner, []⟩ more tail →
      Follows (.formula stage) letter ⟨mode, inner, []⟩ (count + more) (piece ++ tail)

namespace Leads

variable {stage : Stage} {letter : Char} {inner : Limits} {mode mid behind : Mode}
  {count first second : Nat} {text middle rest : Text} {limits : Limits} {frames : List Frame}

theorem refl (text : Text) : Leads stage letter inner mode mode 0 text text :=
  ⟨[], rfl, fun tail more _ follows => by rwa [Nat.zero_add]⟩

theorem trans (front : Leads stage letter inner mode mid first text middle)
    (back : Leads stage letter inner mid behind second middle rest) :
    Leads stage letter inner mode behind (first + second) text rest := by
  obtain ⟨piece, rfl, leads⟩ := front
  obtain ⟨other, rfl, leads'⟩ := back
  refine ⟨piece ++ other, (List.append_assoc _ _ _).symm, fun tail more isPrefix follows => ?_⟩
  have later := leads' tail more isPrefix follows
  rw [List.append_assoc, Nat.add_assoc]
  exact leads _ _ (List.prefix_append_right_inj other |>.2 isPrefix) later

theorem widen {wider : Mode} (leads : Leads stage letter inner mode behind count text rest)
    (isWithin : mode.Within wider) : Leads stage letter inner wider behind count text rest := by
  obtain ⟨piece, isText, leads⟩ := leads
  exact ⟨piece, isText, fun tail more isPrefix follows =>
    (leads tail more isPrefix follows).widen isWithin⟩

/-- What leads to a mode in which a text may end is legible by itself. -/
theorem exists_piece (leads : Leads stage letter inner mode behind count text rest)
    (closes : (Grammar.formula stage).closes behind = true) :
    ∃ piece, text = piece ++ rest ∧
      Follows (.formula stage) letter ⟨mode, inner, []⟩ count piece := by
  obtain ⟨piece, isText, leads⟩ := leads
  refine ⟨piece, isText, ?_⟩
  simpa using leads [] 0 List.nil_prefix (.done 0 closes)

theorem blank (rest : Text) : Leads stage letter inner mode mode 0 (' ' :: rest) rest :=
  ⟨[' '], rfl, fun _ more _ follows => by rw [Nat.zero_add]; exact follows.blank_cons⟩

/-- The blanks in front of what is read. -/
theorem skipBlanks (follows : Follows (.formula stage) letter ⟨mode, limits, frames⟩ count text) :
    Leads stage letter inner behind behind 0 text text.skipBlanks := by
  induction text with
  | nil => exact refl []
  | cons c text ih =>
      rw [Text.skipBlanks, List.dropWhile_cons]
      split
      · rename_i isBlankHere
        have space := follows.eq_space (isBlank_of_isAsciiBlank isBlankHere)
        subst space
        exact (blank text).trans (ih follows.of_blank)
      · exact refl _

/-- A single glyph that is no name of a function. -/
theorem glyph {glyph : Glyph} {role : Role} (isRole : glyph.role? rest = some role)
    (noCall : ∀ applied, role ≠ .call applied) (plain : role.isBracket = false)
    (isNext : (Grammar.formula stage).next mode inner role = some behind) :
    Leads stage letter inner mode behind (glyph.weight letter) (glyph.source ++ rest) rest :=
  ⟨glyph.source, rfl, fun _ _ isPrefix follows =>
    .glyph (Glyph.role?_of_prefix isRole noCall isPrefix) (Grammar.step_of_next plain isNext [])
      follows⟩

/-- A character that is no letter, no bracket and no blank. -/
theorem cons {c : Char} {role : Role} (noLetter : c.isAlpha = false)
    (isRole : Role.ofChar? c = some role) (plain : role.isBracket = false)
    (isNext : (Grammar.formula stage).next mode inner role = some behind) :
    Leads stage letter inner mode behind 0 (c :: rest) rest :=
  ⟨[c], rfl, fun _ more _ follows => by
    rw [Nat.zero_add]
    exact follows.cons noLetter isRole (Grammar.step_of_next plain isNext [])⟩

/-- A group. -/
theorem group {bracket : Bracket} {deeper : Limits} {inside : Text}
    (opens : (Grammar.formula stage).opens mode inner bracket = some (behind, deeper))
    (follows : Follows (.formula stage) letter ⟨.idle, deeper, []⟩ count inside) :
    Leads stage letter inner mode behind count (bracket.opener :: (inside ++ bracket.closer :: rest))
      rest := by
  refine ⟨bracket.opener :: (inside ++ [bracket.closer]), by simp, fun tail more _ later => ?_⟩
  rw [List.cons_append, List.append_assoc, List.singleton_append]
  exact Follows.enclosed_append opens follows later

end Leads

/-- The part of a text in front of its ending leads to a mode in which a text may end, whatever the
limits are, and behind it nothing is expected. -/
def LeadsOut (stage : Stage) (letter : Char) (mode : Mode) (limits : Limits) (frames : List Frame)
    (count : Nat) (text rest : Text) : Prop :=
  ∃ first second behind, first + second = count ∧ (Grammar.formula stage).closes behind = true ∧
    (∀ inner, Leads stage letter inner mode behind first text rest) ∧
      Follows (.formula stage) letter ⟨.idle, limits, frames⟩ second rest

namespace Follows

variable {stage : Stage} {letter : Char} {mode behind : Mode} {limits : Limits} {chain : Chain}
  {frames : List Frame} {count : Nat} {text rest : Text} {c : Char}

/-! ## Letters -/

/-- Letters behind a letter, up to the name of a function. -/
theorem letters (isMode : mode = .idle ∨ mode = .atom)
    (follows : Follows (.formula stage) letter ⟨mode, limits, frames⟩ count text) :
    ∃ first second behind, first + second = count ∧ (behind = .idle ∨ behind = .atom) ∧
      (∀ inner, Leads stage letter inner mode behind first text (text.afterLetters .standard)) ∧
        Follows (.formula stage) letter ⟨behind, limits, frames⟩ second
          (text.afterLetters .standard) := by
  generalize isState : (⟨mode, limits, frames⟩ : State) = state at follows
  induction follows generalizing mode with
  | done count closes =>
      cases isState
      exact ⟨0, count, _, Nat.zero_add count, isMode, fun _ => .refl [], .done count closes⟩
  | @glyph state next glyph rest role later isRole moves follows ih =>
      subst isState
      have stays (stops : (glyph.source ++ rest).afterLetters .standard = glyph.source ++ rest) :
          ∃ first second behind, first + second = glyph.weight letter + later ∧
            (behind = .idle ∨ behind = .atom) ∧
              (∀ inner, Leads stage letter inner mode behind first (glyph.source ++ rest)
                ((glyph.source ++ rest).afterLetters .standard)) ∧
                Follows (.formula stage) letter ⟨behind, limits, frames⟩ second
                  ((glyph.source ++ rest).afterLetters .standard) := by
        rw [stops]
        exact ⟨0, _, mode, Nat.zero_add _, isMode, fun _ => .refl _, .glyph isRole moves follows⟩
      have passes (isIdle : ∀ limits, (Grammar.formula stage).next mode limits role = some .idle)
          (noCall : ∀ applied, role ≠ .call applied) (plain : role.isBracket = false) :
          next = ⟨.idle, limits, frames⟩ ∧ ∀ inner,
            Leads stage letter inner mode .idle (glyph.weight letter) (glyph.source ++ rest) rest := by
        obtain ⟨mode', isNext, rfl⟩ := Grammar.exists_of_step plain moves
        rw [isIdle] at isNext
        cases isNext
        exact ⟨rfl, fun inner => .glyph isRole noCall plain (isIdle inner)⟩
      cases glyph with
      | char c =>
          cases isLetter : c.isAlpha with
          | false => exact stays (by simp [Glyph.source, afterLetters, isLetter])
          | true =>
              have isEnd : afterLetters .standard (c :: rest) = afterLetters .standard rest := by
                rw [afterLetters, isLetter, Glyph.callableAt?_char isRole]
                rfl
              have facts : (∀ limits, (Grammar.formula stage).next mode limits role = some .idle) ∧
                  (∀ applied, role ≠ .call applied) ∧ role.isBracket = false := by
                rcases Glyph.role_of_letter isRole isLetter with rfl | rfl <;>
                  rcases isMode with rfl | rfl <;> exact ⟨fun _ => rfl, by simp, rfl⟩
              obtain ⟨rfl, leads⟩ := passes facts.1 facts.2.1 facts.2.2
              obtain ⟨first, second, behind, isSum, isBehind, later, isRest⟩ := ih (.inl rfl) rfl
              refine ⟨(Glyph.char c).weight letter + first, second, behind, by omega, isBehind,
                fun inner => ?_, ?_⟩
              · exact isEnd ▸ (leads inner).trans (later inner)
              · exact isEnd ▸ isRest
      | call callable =>
          obtain ⟨c, name, isName⟩ := List.exists_cons_of_ne_nil callable.text_ne_nil
          have found := Glyph.callableAt?_call isRole
          rw [isName, List.cons_append] at found
          exact stays (by simp [Glyph.source, isName, afterLetters, found])
      | value name =>
          obtain ⟨rfl, -, -⟩ := Glyph.exists_value isRole
          obtain ⟨rfl, leads⟩ := passes
            (fun limits => by rcases isMode with rfl | rfl <;> rfl) (by simp) rfl
          rw [Glyph.source, Glyph.afterLetters_value isRole List.suffix_rfl]
          exact ⟨_, _, .idle, rfl, .inl rfl, leads, follows⟩
      | word name => exact stays (by simp [Glyph.source, afterLetters])

/-! ## Numerals -/

theorem exists_digit (follows : Follows (.formula stage) letter ⟨mode, limits, frames⟩ count (c :: rest))
    (digit : isDecimalDigit c = true) :
    c.isDigit = true ∧ (Glyph.char c).role? rest = some .digit ∧ ∃ next,
      (Grammar.formula stage).next mode limits .digit = some next ∧
        Follows (.formula stage) letter ⟨next, limits, frames⟩ count rest := by
  have noLetter : c.isAlpha = false := by
    rw [Bool.eq_false_iff]
    intro isLetter
    rw [isDecimalDigit_eq_false_of_isAlpha isLetter] at digit
    cases digit
  have other {d : Char} (noDigit : isDecimalDigit d = false) : c ≠ d := by
    rintro rfl
    rw [noDigit] at digit
    cases digit
  obtain ⟨role, next, isRole, moves, later⟩ :=
    follows.exists_char noLetter (other (by decide)) (other (by decide))
  obtain rfl := Role.eq_digit_of_isDecimalDigit isRole digit
  have fits := Role.fits_of_ofChar? isRole
  obtain ⟨mode', isNext, rfl⟩ := Grammar.exists_of_step rfl moves
  exact ⟨fits, (Glyph.role?_of_not_isAlpha noLetter rest).trans isRole, mode', isNext, later⟩

/-- Digits in a numeral. -/
theorem digits (follows : Follows (.formula stage) letter ⟨.numeral, limits, frames⟩ count text) :
    (∀ inner, Leads stage letter inner .numeral .numeral 0 text (text.dropWhile isDecimalDigit)) ∧
      Follows (.formula stage) letter ⟨.numeral, limits, frames⟩ count
        (text.dropWhile isDecimalDigit) := by
  induction text with
  | nil => exact ⟨fun _ => .refl [], follows⟩
  | cons c rest ih =>
      rw [List.dropWhile_cons]
      split
      · rename_i digit
        obtain ⟨isDigit, isRole, next, isNext, later⟩ := follows.exists_digit digit
        cases isNext
        obtain ⟨leads, isRest⟩ := ih later
        refine ⟨fun inner => ?_, isRest⟩
        have first : Leads stage letter inner .numeral .numeral ((Glyph.char c).weight letter)
            (c :: rest) rest := .glyph isRole (by simp) rfl rfl
        rw [Glyph.weight_of_not_isAlpha letter (isAlpha_eq_false_of_isDigit isDigit)] at first
        exact first.trans (leads inner)
      · exact ⟨fun _ => .refl _, follows⟩

/-- A numeral, from its first digit on. -/
theorem numeral (begins : ∀ limits, (Grammar.formula stage).next mode limits .digit = some .numeral)
    (follows : Follows (.formula stage) letter ⟨mode, limits, frames⟩ count (c :: rest))
    (digit : c.isDigit = true) :
    (∀ inner, Leads stage letter inner mode .numeral 0 (c :: rest) (afterNumeral (c :: rest))) ∧
      Follows (.formula stage) letter ⟨.numeral, limits, frames⟩ count (afterNumeral (c :: rest)) := by
  obtain ⟨-, isRole, next, isNext, later⟩ :=
    follows.exists_digit (isDecimalDigit_of_isDigit digit)
  rw [begins] at isNext
  cases isNext
  have first (inner : Limits) : Leads stage letter inner mode .numeral 0 (c :: rest) rest := by
    rw [← Glyph.weight_of_not_isAlpha letter (isAlpha_eq_false_of_isDigit digit)]
    exact .glyph isRole (by simp) rfl (begins inner)
  obtain ⟨leads, isRest⟩ := later.digits
  have whole (inner : Limits) := (first inner).trans (leads inner)
  have dropped : (c :: rest).dropWhile isDecimalDigit = rest.dropWhile isDecimalDigit := by
    rw [List.dropWhile_cons, if_pos (isDecimalDigit_of_isDigit digit)]
  simp only [afterNumeral, dropped]
  split
  · rename_i d fraction start
    split
    · -- A point and the digits behind it.
      rw [start] at whole isRest ⊢
      obtain ⟨role, next, isPoint, moves, later⟩ :=
        isRest.exists_char (by decide) (by decide) (by decide)
      cases isPoint
      cases moves
      obtain ⟨leads, isRest⟩ := later.digits
      refine ⟨fun inner => ?_, isRest⟩
      have point : Leads stage letter inner .numeral .numeral 0 ('.' :: d :: fraction)
          (d :: fraction) := .cons (by decide) rfl rfl rfl
      exact (whole inner).trans (point.trans (leads inner))
    · exact ⟨whole, isRest⟩
  · exact ⟨whole, isRest⟩

/-- A numeral with the constant or the letters that it multiplies. -/
theorem coefficient
    (begins : ∀ limits, (Grammar.formula stage).next mode limits .digit = some .numeral)
    (follows : Follows (.formula stage) letter ⟨mode, limits, frames⟩ count (c :: rest))
    (digit : c.isDigit = true) :
    LeadsOut stage letter mode limits frames count (c :: rest)
      (afterCoefficient .standard (c :: rest)) := by
  obtain ⟨leads, isRest⟩ := follows.numeral begins digit
  have skips (inner : Limits) := (leads inner).trans (.skipBlanks isRest)
  have factor := isRest.skipBlanks
  -- The numeral stands alone.
  have alone (isEnd : afterCoefficient .standard (c :: rest) = afterNumeral (c :: rest)) :
      LeadsOut stage letter mode limits frames count (c :: rest)
        (afterCoefficient .standard (c :: rest)) :=
    ⟨0, count, .numeral, Nat.zero_add count, rfl, isEnd ▸ leads, isEnd ▸ isRest.widen .numeral⟩
  simp only [afterCoefficient] at alone ⊢
  generalize (afterNumeral (c :: rest)).skipBlanks = after at *
  cases after with
  | nil =>
      have none : Vocabulary.standard.constantAt? [] = none := by
        rw [Option.eq_none_iff_forall_ne_some]
        rintro ⟨name, after⟩ found
        have empty := (List.append_eq_nil_iff.1 (Vocabulary.eq_of_constantAt? found).symm).1
        exact name.text_ne_nil empty
      rw [none] at alone ⊢
      exact alone rfl
  | cons d after =>
      obtain ⟨glyph, behind, role, next, later, same, isRole, moves, rfl, isBehind⟩ :=
        factor.exists_glyph (List.cons_ne_nil d after)
      cases glyph with
      | char d' =>
          obtain ⟨rfl, rfl⟩ := List.cons.inj same
          rw [Glyph.constantAt?_char isRole] at alone ⊢
          cases isLetter : d.isAlpha with
          | false =>
              simp only [List.head?_cons, Option.any_some, isLetter] at alone ⊢
              exact alone rfl
          | true =>
              simp only [List.head?_cons, Option.any_some, isLetter, if_true, afterLetterRun] at alone ⊢
              have isIdle : next = ⟨.idle, limits, frames⟩ ∧ ∀ inner,
                  Leads stage letter inner .numeral .idle ((Glyph.char d).weight letter) (d :: after)
                    after := by
                rcases Glyph.role_of_letter isRole isLetter with rfl | rfl <;> cases moves <;>
                  exact ⟨rfl, fun inner => .glyph isRole (by simp) rfl rfl⟩
              obtain ⟨rfl, first⟩ := isIdle
              obtain ⟨run, second, ended, rfl, isMode, leads', isRest'⟩ := isBehind.letters (.inl rfl)
              refine ⟨(Glyph.char d).weight letter + run, second, ended, Nat.add_assoc _ _ _, ?_,
                fun inner => ?_, ?_⟩
              · rcases isMode with rfl | rfl <;> rfl
              · have whole := (skips inner).trans ((first inner).trans (leads' inner))
                rwa [Nat.zero_add] at whole
              · rcases isMode with rfl | rfl
                · exact isRest'
                · exact isRest'.widen .atom
      | call callable =>
          obtain ⟨rfl, -, -⟩ := Glyph.exists_call isRole
          cases moves
      | value name =>
          obtain ⟨rfl, -, -⟩ := Glyph.exists_value isRole
          cases moves
          rw [same, Glyph.source, Glyph.constantAt?_value isRole]
          refine ⟨_, _, .idle, rfl, rfl, fun inner => ?_, isBehind⟩
          have skipped := skips inner
          rw [same] at skipped
          have constant : Leads stage letter inner .numeral .idle ((Glyph.value name).weight letter)
              (name.text ++ behind) behind := .glyph isRole (by simp) rfl rfl
          have whole := skipped.trans constant
          rwa [Nat.zero_add] at whole
      | word name =>
          obtain ⟨rfl, -⟩ := List.cons.inj same
          rw [Vocabulary.standard.constantAt?_eq_none rfl] at alone ⊢
          exact alone rfl

end Follows

/-! ## Exponents -/

section

variable {text rest : Text} {c : Char} {role : Role}

theorem exponent?_group {bracket : Bracket} {group : Group} (fixed : bracket ≠ .square)
    (start : text.skipBlanks = bracket.opener :: rest) (found : bracket.group? rest = some group) :
    text.exponent? .standard = some ⟨group.inside.wrap, group.rest⟩ := by
  have opens : Bracket.ofArgument? bracket.opener = some bracket := by
    cases bracket <;> first | rfl | exact absurd rfl fixed
  rw [exponent?, start]
  simp only [opens, found]
  rfl

theorem exponent?_word (start : text.skipBlanks = c :: rest)
    (isRole : (Glyph.char c).role? rest = some role) (word : c.isAlphanum = true) :
    text.exponent? .standard = some ⟨[c], rest⟩ := by
  rw [exponent?, start]
  simp only [Bracket.ofArgument?_of_isAlphanum word, Glyph.constantAt?_char isRole, word, if_true]

theorem exponent?_value {name : Name} (start : text.skipBlanks = name.text ++ rest)
    (isRole : (Glyph.value name).role? rest = some role) :
    text.exponent? .standard = some ⟨name.text, rest⟩ := by
  obtain ⟨c, run, isName⟩ := List.exists_cons_of_ne_nil name.text_ne_nil
  have found := Glyph.constantAt?_value isRole
  have word := name.all_isAlphanum
  rw [isName, List.all_cons, Bool.and_eq_true] at word
  rw [isName, List.cons_append] at start found
  rw [exponent?, start]
  simp only [Bracket.ofArgument?_of_isAlphanum word.1, found]

end

namespace Follows

variable {stage : Stage} {letter : Char} {mode behind : Mode} {limits : Limits} {chain : Chain}
  {frames : List Frame} {count : Nat} {text rest : Text} {c : Char}

/-- The exponent of a function is a group in braces, a letter or a digit. -/
theorem script (follows : Follows (.formula stage) letter ⟨.script, limits, frames⟩ count text) :
    ∃ exponent first second, text.exponent? .standard = some exponent ∧ first + second = count ∧
      Follows (.formula stage) letter ⟨.exponent, { limits with copied := true }, []⟩ first
        exponent.text ∧
        Leads stage letter limits .script (.operand .raised) first text exponent.rest ∧
          Follows (.formula stage) letter ⟨.operand .raised, limits, frames⟩ second
            exponent.rest := by
  have skipped := follows.skipBlanks
  have gap : Leads stage letter limits .script .script 0 text text.skipBlanks := .skipBlanks follows
  generalize start : text.skipBlanks = visible at skipped gap
  cases skipped.starts with
  | done _ closes | closer closes => cases closes
  | @group bracket _ _ rest group _ first second opens found isInside isRest =>
      cases bracket <;> cases opens
      refine ⟨⟨group.inside.wrap, group.rest⟩, first, second,
        exponent?_group (by decide) start found, rfl, ?_, ?_, isRest⟩
      · have wrapped : Follows (.formula stage) letter
            ⟨.exponent, { limits with copied := true }, []⟩ (first + 0) (group.inside.wrap ++ []) :=
          wrap_append rfl rfl isInside ended
        simpa using wrapped
      · have braces : Leads stage letter limits .script (.operand .raised) first
            (Bracket.curly.opener :: (group.inside ++ Bracket.curly.closer :: group.rest))
            group.rest := .group rfl isInside
        rw [← Bracket.eq_of_group? found] at braces
        simpa using gap.trans braces
  | @glyph glyph role _ after _ later isRole plain isNext isRest =>
      have isWord : role = .digit ∨ role = .letter := by
        cases role with
        | digit => exact .inl rfl
        | letter => exact .inr rfl
        | blank => exact absurd rfl (ne_blank_of_skipBlanks start isRole)
        | _ => cases isNext
      obtain ⟨c, rfl, word⟩ := Glyph.exists_alphanum isRole isWord
      have noCall : ∀ applied, role ≠ .call applied := by rcases isWord with rfl | rfl <;> simp
      have single : Leads stage letter limits .script (.operand .raised)
          ((Glyph.char c).weight letter) (c :: after) after := by
        refine .glyph isRole noCall plain ?_
        rcases isWord with rfl | rfl <;> rfl
      refine ⟨⟨[c], after⟩, (Glyph.char c).weight letter, later, exponent?_word start isRole word, rfl,
        ?_, by simpa using gap.trans single, ?_⟩
      · have alone : Follows (.formula stage) letter ⟨.exponent, { limits with copied := true }, []⟩
            ((Glyph.char c).weight letter + 0) ((Glyph.char c).source ++ []) := by
          refine .glyph (Glyph.role?_of_prefix isRole noCall List.nil_prefix)
            (Grammar.step_of_next plain ?_ []) ended
          rcases isWord with rfl | rfl <;> rfl
        exact alone
      · rcases isWord with rfl | rfl <;> cases isNext <;> exact isRest

/-! ## Arguments without brackets -/

/-- Behind a function an operand may stand at once. -/
theorem operand_of_function {isLog : Bool}
    (follows : Follows (.formula stage) letter ⟨.function isLog chain, limits, frames⟩ count (c :: rest))
    (visible : c ≠ ' ') (noCaret : c ≠ '^') (noBase : c ≠ '_') :
    Follows (.formula stage) letter ⟨.operand chain, limits, frames⟩ count (c :: rest) := by
  obtain ⟨glyph, after, role, next, later, same, isRole, moves, rfl, behind⟩ :=
    follows.exists_glyph (List.cons_ne_nil c rest)
  rw [same]
  refine .glyph isRole ?_ behind
  cases role with
  | blank | caret | underscore =>
      obtain ⟨d, rfl, fits⟩ := Glyph.exists_char isRole rfl
      obtain ⟨rfl, -⟩ := List.cons.inj same
      first | exact absurd fits visible | exact absurd fits noCaret | exact absurd fits noBase
  | _ => exact moves

end Follows

end Text

end TexCalc
