import TexCalc.Proofs.Legible.Operands

/-!
# Arguments without brackets

The arguments of inverse functions and of logarithms with a base are read before commands are
renamed.  In a legible formula such an argument can be read, it is legible by itself, and so is what
stands behind it.
-/

namespace TexCalc

@[simp] theorem Limits.behind_behind (limits : Limits) (chain : Chain) :
    (limits.behind chain).behind chain = limits.behind chain := by
  simp [behind]

namespace Text

section

variable {vocabulary : Vocabulary} {text rest : Text} {c : Char}

theorem afterBareArgument?_group {bracket : Bracket} {group : Group} (fixed : bracket ≠ .square)
    (start : text.skipBlanks = bracket.opener :: rest) (found : bracket.group? rest = some group) :
    text.afterBareArgument? vocabulary = some group.rest := by
  have opens : Bracket.ofArgument? bracket.opener = some bracket := by
    cases bracket <;> first | rfl | exact absurd rfl fixed
  rw [afterBareArgument?_eq, start]
  simp only [opens, found, Option.map_some]

theorem afterBareArgument?_sign (start : text.skipBlanks = c :: rest) (isSign : c = '-' ∨ c = '+') :
    text.afterBareArgument? vocabulary = rest.afterBareArgument? vocabulary := by
  have plain : Bracket.ofArgument? c = none := by rcases isSign with rfl | rfl <;> rfl
  rw [afterBareArgument?_eq, start]
  simp only [plain, if_pos isSign]

theorem afterBareArgument?_digit (start : text.skipBlanks = c :: rest) (digit : c.isDigit = true) :
    text.afterBareArgument? vocabulary = some (afterCoefficient vocabulary (c :: rest)) := by
  have word : c.isAlphanum = true := by simp [Char.isAlphanum, digit]
  have noSign : ¬ (c = '-' ∨ c = '+') :=
    not_or.2 ⟨ne_of_isAlphanum word (by decide), ne_of_isAlphanum word (by decide)⟩
  rw [afterBareArgument?_eq, start]
  simp only [Bracket.ofArgument?_of_isAlphanum word, if_neg noSign, digit, if_true]

theorem afterBareArgument?_letter (start : text.skipBlanks = c :: rest) (letter : c.isAlpha = true) :
    text.afterBareArgument? vocabulary = some (afterLetterRun vocabulary (c :: rest)) := by
  have word : c.isAlphanum = true := by simp [Char.isAlphanum, letter]
  have noSign : ¬ (c = '-' ∨ c = '+') :=
    not_or.2 ⟨ne_of_isAlphanum word (by decide), ne_of_isAlphanum word (by decide)⟩
  rw [afterBareArgument?_eq, start]
  simp only [Bracket.ofArgument?_of_isAlphanum word, if_neg noSign, isDigit_eq_false_of_isAlpha letter,
    Bool.false_eq_true, if_false, letter, if_true]

variable {name : Text}

theorem afterBareArgument?_control (start : text.skipBlanks = '\\' :: (name ++ rest))
    (letters : name.all Char.isAlpha = true) (nonempty : name ≠ [])
    (ends : rest.endsRun Char.isAlpha = true) {command : Command}
    (isNamed : Command.named? name = some command) :
    (command.takesArgument = true → text.afterBareArgument? vocabulary =
      (rest.afterExponent? vocabulary).bind (afterBareArgument? vocabulary)) ∧
    ((∃ target, command = .constant target) → text.afterBareArgument? vocabulary = some rest) := by
  have plain : Bracket.ofArgument? '\\' = none := rfl
  rw [afterBareArgument?_eq, start]
  simp only [plain, if_neg (show ¬ ('\\' = '-' ∨ '\\' = '+') by decide), if_true,
    show '\\'.isDigit = false from rfl, show '\\'.isAlpha = false from rfl, Bool.false_eq_true,
    if_false, Control.read?_word letters nonempty ends, Option.bind_some, isNamed]
  refine ⟨fun takes => ?_, ?_⟩
  · cases command <;> first | (cases takes; done) | exact if_pos takes
  · rintro ⟨target, rfl⟩
    rfl

theorem afterExponent?_caret {script : Text} (start : text.skipBlanks = '^' :: script) :
    text.afterExponent? vocabulary = (script.exponent? vocabulary).map Cut.rest := by
  simp only [afterExponent?, start]

theorem afterExponent?_plain (noScript : text.skipBlanks.head? ≠ some '^') :
    text.afterExponent? vocabulary = some text.skipBlanks := by
  rw [afterExponent?]
  split
  · rename_i start
    rw [start] at noScript
    exact absurd rfl noScript
  · rfl

end

/-- A reader of arguments finds one.  It leads to a mode in which a text may end, and behind it the
text goes on as if nothing were expected. -/
def Reads (stage : Stage) (letter : Char) (chain : Chain) (state : State) (count : Nat) (text : Text)
    (after? : Option Text) : Prop :=
  ∃ rest first second behind, after? = some rest ∧ first + second = count ∧
    (Grammar.formula stage).closes behind = true ∧
      Leads stage letter (state.limits.behind chain) state.mode behind first text rest ∧
        Follows (.formula stage) letter ⟨.idle, state.limits, state.frames⟩ second rest

section

variable {stage : Stage} {letter : Char} {mode mid : Mode} {limits : Limits} {chain : Chain}
  {frames : List Frame} {count : Nat} {text after rest : Text} {c : Char} {glyph : Glyph} {role : Role}

/-- What stands in front of an argument. -/
theorem Reads.behind {front : Nat} {after? : Option Text}
    (leads : Leads stage letter (limits.behind chain) mode mid front text rest)
    (reads : Reads stage letter chain ⟨mid, limits, frames⟩ count rest after?) :
    Reads stage letter chain ⟨mode, limits, frames⟩ (front + count) text after? := by
  obtain ⟨after, first, second, behind, isAfter, rfl, closes, operand, later⟩ := reads
  exact ⟨after, front + first, second, behind, isAfter, Nat.add_assoc _ _ _, closes,
    leads.trans operand, later⟩

namespace Follows

/-- A glyph whose mode does not depend on the limits. -/
theorem leads_glyph (inner : Limits) (isRole : glyph.role? after = some role)
    (isValue : role = .euler ∨ role = .letter ∨ ∃ spelled, role = .value spelled)
    (isNext : ∀ limits, (Grammar.formula stage).next mode limits role = some mid) :
    Leads stage letter inner mode mid (glyph.weight letter) (glyph.source ++ after) after := by
  refine .glyph isRole ?_ ?_ (isNext inner)
  · rintro applied rfl
    rcases isValue with isSame | isSame | ⟨_, isSame⟩ <;> cases isSame
  · rcases isValue with rfl | rfl | ⟨_, rfl⟩ <;> rfl

/-- A letter or a constant as an argument. -/
theorem reads_value (start : text.skipBlanks = glyph.source ++ after)
    (isRole : glyph.role? after = some role)
    (isValue : (role = .euler ∨ role = .letter) ∧ mid = .atom ∨
      (∃ spelled, role = .value spelled) ∧ mid = .idle)
    (isNext : ∀ limits, (Grammar.formula stage).next mode limits role = some mid)
    (later : Follows (.formula stage) letter ⟨mid, limits, frames⟩ count after) :
    Reads stage letter chain ⟨mode, limits, frames⟩ (glyph.weight letter + count)
      (glyph.source ++ after) (text.afterBareArgument? .standard) := by
  have first (inner : Limits) : Leads stage letter inner mode mid (glyph.weight letter)
      (glyph.source ++ after) after :=
    leads_glyph inner isRole
      (isValue.elim (fun atom => atom.1.imp_right .inl) fun value => .inr (.inr value.1)) isNext
  have closes : (Grammar.formula stage).closes mid = true := by
    rcases isValue with ⟨_, rfl⟩ | ⟨_, rfl⟩ <;> rfl
  have idle : Follows (.formula stage) letter ⟨.idle, limits, frames⟩ count after := by
    rcases isValue with ⟨_, rfl⟩ | ⟨_, rfl⟩
    · exact later.widen .atom
    · exact later
  cases glyph with
  | char c =>
      have fits := Role.fits_of_ofChar? (Glyph.ofChar?_of_role? isRole)
      have isLetter : c.isAlpha = true ∧ mid = .atom := by
        rcases isValue with ⟨rfl | rfl, isAtom⟩ | ⟨⟨_, rfl⟩, _⟩
        · exact ⟨by rw [show c = 'e' from fits]; decide, isAtom⟩
        · exact ⟨fits, isAtom⟩
        · exact fits.elim
      obtain ⟨isLetter, rfl⟩ := isLetter
      obtain ⟨run, second, ended, rfl, isMode, leads, isRest⟩ := later.letters (.inr rfl)
      refine ⟨_, (Glyph.char c).weight letter + run, second, ended, ?_, Nat.add_assoc _ _ _, ?_,
        (first _).trans (leads _), ?_⟩
      · exact (afterBareArgument?_letter start isLetter).trans (congrArg some (if_pos isLetter))
      · rcases isMode with rfl | rfl <;> rfl
      · rcases isMode with rfl | rfl
        · exact isRest
        · exact isRest.widen .atom
  | call callable =>
      obtain ⟨rfl, -, -⟩ := Glyph.exists_call isRole
      rcases isValue with ⟨isSame | isSame, _⟩ | ⟨⟨_, isSame⟩, _⟩ <;> cases isSame
  | value name =>
      obtain ⟨c, run, isName, isLetter, isEnd⟩ := Glyph.exists_letter_of_value isRole
      have isStart : text.skipBlanks = c :: (run ++ after) := by
        rw [start, Glyph.source, isName, List.cons_append]
      refine ⟨after, _, count, mid, ?_, rfl, closes, first _, idle⟩
      rw [afterBareArgument?_letter isStart isLetter, isEnd]
  | word name =>
      obtain ⟨ends, isWord⟩ := Glyph.exists_word isRole
      obtain ⟨letters, nonempty⟩ := Glyph.all_isAlpha_of_ofWord? isWord
      obtain ⟨target, isNamed, -⟩ := Glyph.exists_constant isWord (by
        rcases isValue with ⟨rfl | rfl, _⟩ | ⟨⟨_, rfl⟩, _⟩
        · exact .inl rfl
        · cases (Glyph.exists_char isRole rfl).choose_spec.1
        · exact .inr ⟨_, rfl⟩)
      exact ⟨after, _, count, mid,
        (afterBareArgument?_control start letters nonempty ends isNamed).2 ⟨target, rfl⟩, rfl, closes,
        first _, idle⟩

/-- The exponent of a function, if it has one, in front of its argument. -/
theorem exists_operand {isLog : Bool} (checked : stage.checked = true)
    (narrow : stage.allowsBehind chain = false)
    (follows : Follows (.formula stage) letter ⟨.function isLog chain, limits, frames⟩ count text) :
    ∃ rest first second, text.afterExponent? .standard = some rest ∧ first + second = count ∧
      Leads stage letter (limits.behind chain) (.function isLog chain) (.operand chain) first text
        rest ∧
        Follows (.formula stage) letter ⟨.operand chain, limits, frames⟩ second rest := by
  have apart : chain ≠ .alone := by
    rintro rfl
    cases narrow
  have skipped := follows.skipBlanks
  have gap : Leads stage letter (limits.behind chain) (.function isLog chain)
      (.function isLog chain) 0 text text.skipBlanks := .skipBlanks follows
  cases start : text.skipBlanks with
  | nil =>
      rw [start] at skipped
      have closes := skipped.of_nil.1
      simp [Grammar.formula, checked] at closes
  | cons c rest =>
      rw [start] at skipped gap
      by_cases isCaret : c = '^'
      · subst isCaret
        obtain ⟨role, next, isRole, moves, behind⟩ :=
          skipped.exists_char (by decide) (by decide) (by decide)
        cases isRole
        obtain ⟨mode', isNext, rfl⟩ := Grammar.exists_of_step rfl moves
        have isRaised : chain = .raised ∧ mode' = .script := by
          cases chain with
          | alone => exact absurd rfl apart
          | raised => exact ⟨rfl, (Option.some.inj isNext).symm⟩
          | based => cases isNext
        obtain ⟨rfl, rfl⟩ := isRaised
        obtain ⟨exponent, first, second, isExponent, isSum, -, script, later⟩ := behind.script
        have same : limits.behind .raised = limits := by simp [Limits.behind]
        rw [same] at gap ⊢
        have caret : Leads stage letter limits (.function isLog .raised) .script 0 ('^' :: rest) rest :=
          .cons (by decide) rfl rfl rfl
        refine ⟨exponent.rest, first, second, ?_, isSum, ?_, later⟩
        · rw [afterExponent?_caret start, isExponent]
          rfl
        · simpa using gap.trans (caret.trans script)
      · have visible : c ≠ ' ' := by
          rintro rfl
          exact absurd (not_isAsciiBlank_of_skipBlanks start) (by decide)
        have noBase : c ≠ '_' := by
          rintro rfl
          obtain ⟨role, next, isRole, moves, -⟩ :=
            skipped.exists_char (by decide) (by decide) (by decide)
          cases isRole
          obtain ⟨mode', isNext, -⟩ := Grammar.exists_of_step rfl moves
          simp [Grammar.formula, apart] at isNext
        refine ⟨c :: rest, 0, count, ?_, Nat.zero_add count, ?_,
          skipped.operand_of_function visible isCaret noBase⟩
        · rw [afterExponent?_plain (by simp [start, isCaret]), start]
        · exact gap.trans ((Leads.refl _).widen (.called isLog chain))

/-- A group as an argument. -/
theorem reads_group {bracket : Bracket} {group : Group} {resume : Mode} {inner : Limits}
    {first second : Nat} (isMode : mode = .operand chain ∨ mode = .signed chain)
    (start : text.skipBlanks = bracket.opener :: rest)
    (opens : (Grammar.formula stage).opens mode limits bracket = some (resume, inner))
    (found : bracket.group? rest = some group)
    (isInside : Follows (.formula stage) letter ⟨.idle, inner, []⟩ first group.inside)
    (isRest : Follows (.formula stage) letter ⟨resume, limits, frames⟩ second group.rest) :
    Reads stage letter chain ⟨mode, limits, frames⟩ (first + second) (bracket.opener :: rest)
      (text.afterBareArgument? .standard) := by
  obtain ⟨fixed, rfl, rfl⟩ := Grammar.opens_operand isMode opens
  have opens' : (Grammar.formula stage).opens mode (limits.behind chain) bracket =
      some (.idle, limits.behind chain) := by
    rcases isMode with rfl | rfl <;> simp [Grammar.formula, fixed]
  have leads : Leads stage letter (limits.behind chain) mode .idle first
      (bracket.opener :: (group.inside ++ bracket.closer :: group.rest)) group.rest :=
    .group opens' isInside
  rw [← Bracket.eq_of_group? found] at leads
  exact ⟨group.rest, first, second, .idle, afterBareArgument?_group fixed start found, rfl, rfl, leads,
    isRest⟩

/-- A function as an argument, if the reader finds its own argument. -/
theorem reads_function {name : Text} {isLog : Bool} {behind : Mode} (checked : stage.checked = true)
    (narrow : stage.allowsBehind chain = false)
    (isMode : mode = .operand chain ∨ mode = .signed chain)
    (start : text.skipBlanks = (Glyph.word name).source ++ after)
    (isRole : (Glyph.word name).role? after = some (.function isLog))
    (isNext : (Grammar.formula stage).next mode limits (.function isLog) = some behind)
    (isRest : Follows (.formula stage) letter ⟨behind, limits, frames⟩ count after)
    (reads : ∀ {count : Nat} {operand : Text}, operand.length < text.length →
      Follows (.formula stage) letter ⟨.operand chain, limits, frames⟩ count operand →
        Reads stage letter chain ⟨.operand chain, limits, frames⟩ count operand
          (operand.afterBareArgument? .standard)) :
    Reads stage letter chain ⟨mode, limits, frames⟩ ((Glyph.word name).weight letter + count)
      ((Glyph.word name).source ++ after) (text.afterBareArgument? .standard) := by
  obtain ⟨ends, isWord⟩ := Glyph.exists_word isRole
  obtain ⟨letters, nonempty⟩ := Glyph.all_isAlpha_of_ofWord? isWord
  obtain ⟨command, isNamed, takes, -⟩ := Glyph.exists_function isWord
  obtain ⟨rfl, isNext'⟩ := Grammar.next_function isMode isNext
  obtain ⟨operand, first, second, isOperand, rfl, leads, later⟩ :=
    isRest.exists_operand checked narrow
  have shorter : operand.length < text.length := by
    have taken := length_le_of_afterExponent? isOperand
    have passed := text.length_skipBlanks_le
    rw [start, Glyph.source, List.cons_append, List.length_cons, List.length_append] at passed
    omega
  rw [(afterBareArgument?_control start letters nonempty ends isNamed).1 takes, isOperand,
    Option.bind_some]
  exact Reads.behind (.glyph isRole (by simp) rfl (isNext' _ rfl))
    (Reads.behind leads (reads shorter later))

/-- Where the argument of a function with an exponent or a base is expected, the reader finds one. -/
theorem reads_operand (checked : stage.checked = true) (flat : stage.structured = false)
    (narrow : stage.allowsBehind chain = false) (isMode : mode = .operand chain ∨ mode = .signed chain)
    (follows : Follows (.formula stage) letter ⟨mode, limits, frames⟩ count text) :
    Reads stage letter chain ⟨mode, limits, frames⟩ count text
      (text.afterBareArgument? .standard) := by
  induction size : text.length using Nat.strongRecOn generalizing text mode count with
  | ind size ih =>
    have gap : Leads stage letter (limits.behind chain) mode mode 0 text text.skipBlanks :=
      .skipBlanks follows
    have shorter := text.length_skipBlanks_le
    have isOpen := Grammar.closes_operand checked isMode
    -- What is read behind the blanks is read.
    suffices reads : Reads stage letter chain ⟨mode, limits, frames⟩ count text.skipBlanks
        (text.afterBareArgument? .standard) by
      simpa using Reads.behind gap reads
    have skipped := follows.skipBlanks
    generalize start : text.skipBlanks = visible at skipped shorter
    cases skipped.starts with
    | done _ closes | closer closes => cases closes.symm.trans isOpen
    | group opens found isInside isRest => exact reads_group isMode start opens found isInside isRest
    | @glyph glyph role behind after _ later isRole plain isNext isRest =>
        cases role with
        | sign =>
            obtain ⟨c, rfl, isSign⟩ := Glyph.exists_char isRole rfl
            have isSigned : mode = .operand chain ∧ behind = .signed chain := by
              rcases isMode with rfl | rfl <;> cases isNext
              exact ⟨rfl, rfl⟩
            obtain ⟨rfl, rfl⟩ := isSigned
            have reads := ih after.length (by
              simp only [Glyph.source, List.length_append, List.length_singleton] at shorter
              omega) (.inr rfl) isRest rfl
            rw [afterBareArgument?_sign start isSign]
            exact Reads.behind (.glyph isRole (by simp) rfl rfl) reads
        | digit =>
            obtain ⟨c, rfl, isDigit⟩ := Glyph.exists_char isRole rfl
            obtain ⟨first, second, ended, isSum, closes, leads, isRest⟩ :=
              skipped.coefficient (fun _ => by rcases isMode with rfl | rfl <;> rfl) isDigit
            exact ⟨_, first, second, ended, afterBareArgument?_digit start isDigit, isSum, closes,
              leads _, isRest⟩
        | euler =>
            cases (Grammar.next_atom isMode (.inl rfl) limits).symm.trans isNext
            exact reads_value start isRole (.inl ⟨.inl rfl, rfl⟩)
              (Grammar.next_atom isMode (.inl rfl)) isRest
        | letter =>
            cases (Grammar.next_atom isMode (.inr rfl) limits).symm.trans isNext
            exact reads_value start isRole (.inl ⟨.inr rfl, rfl⟩)
              (Grammar.next_atom isMode (.inr rfl)) isRest
        | value spelled =>
            cases (Grammar.next_value isMode spelled limits).symm.trans isNext
            exact reads_value start isRole (.inr ⟨⟨_, rfl⟩, rfl⟩) (Grammar.next_value isMode spelled)
              isRest
        | function isLog =>
            obtain ⟨name, rfl⟩ := Glyph.exists_command isRole rfl
            exact reads_function checked narrow isMode start isRole isNext isRest
              fun less follows => ih _ (size ▸ less) (.inl rfl) follows rfl
        | blank => exact absurd rfl (ne_blank_of_skipBlanks start isRole)
        | plusMinus =>
            have isAlone := Grammar.afterOperand_of_next isMode (by simp) isNext
            simp only [Grammar.afterOperand] at isAlone
            split at isAlone
            · subst chain
              cases narrow
            · cases isAlone
        | «opens» | closes => cases plain
        | _ =>
            have none := Grammar.afterOperand_of_next isMode (by simp) isNext
            simp [Grammar.afterOperand, Grammar.afterStructure, flat, checked, narrow] at none

/-- The argument of a function with an exponent or a base is legible by itself, and so is what stands
behind it. -/
theorem exists_bareArgument (checked : stage.checked = true) (flat : stage.structured = false)
    (narrow : stage.allowsBehind chain = false)
    (follows : Follows (.formula stage) letter ⟨.operand chain, limits, frames⟩ count text) :
    ∃ argument first second, text.bareArgument? .standard = some argument ∧ first + second = count ∧
      Follows (.formula stage) letter ⟨.idle, limits.behind chain, []⟩ first argument.text ∧
        Follows (.formula stage) letter ⟨.idle, limits, frames⟩ second argument.rest := by
  have skipped := follows.skipBlanks
  obtain ⟨rest, first, second, behind, isAfter, isSum, closes, leads, isRest⟩ :=
    skipped.reads_operand checked flat narrow (.inl rfl)
  cases start : text.skipBlanks with
  | nil =>
      rw [start] at skipped
      have closes := skipped.of_nil.1
      simp [Grammar.formula, checked] at closes
  | cons c after =>
      rw [start] at skipped isAfter leads
      cases opens : Bracket.ofArgument? c with
      | none =>
          obtain ⟨piece, isPiece, inside⟩ := leads.exists_piece closes
          refine ⟨⟨piece, rest⟩, first, second, ?_, isSum, inside.widen (.operand chain), isRest⟩
          simp only [bareArgument?, start, opens, isAfter, Option.map_some]
          rw [Cut.upTo, isPiece, before_append]
      | some bracket =>
          obtain rfl := Text.opener_of_ofArgument? opens
          obtain ⟨resume, inner, group, first, second, isOpened, found, isSum, isInside, isRest⟩ :=
            exists_group skipped
          simp only [Grammar.formula, if_neg (Text.ne_square_of_ofArgument? opens)] at isOpened
          cases isOpened
          refine ⟨⟨group.inside, group.rest⟩, first, second, ?_, isSum, isInside, isRest⟩
          simp only [bareArgument?, start, opens, found, Option.map_some]

end Follows

end

end Text

end TexCalc
