import Mathlib.Algebra.GroupWithZero.Nat
import TexCalc.Proofs.Legible.Checked
import TexCalc.Proofs.Legible.Operands
import TexCalc.Proofs.Nesting.Depth
import TexCalc.Proofs.Words.Accepted

/-!
# Legible formulas

A formula is legible when its tokens, read as the glyphs of its normal text, follow the grammar.
Whether every function has its argument is left to the check of the formula: the normal text of a
legible formula that is accepted follows the grammar of accepted formulas.

Left out is what a reader of arguments may take too little or too much of:

* a function right behind `^`, or right behind the numeral that begins an argument;
* a function in the exponent of a function or of a letter that is an argument;
* an exponent of a function that is no group in braces, digit or letter, or that is Euler's number;
* a fraction or root as the bare exponent of such a letter, and an argument of a fraction or root
  that is no group in braces, single character or constant;
* an argument that begins with a point, a square bracket or two signs, or with `\pm` behind an
  exponent or a base;
* a base and an exponent on one logarithm, a base inside the argument of another base, and an
  exponent of a function in the bare argument of a base;
* `\left|` right behind a function, its exponent, its base, the numeral that begins its argument,
  or `^`;
* Euler's number as a bare exponent that is raised itself;
* letters that spell a name of the table, or that come to touch a control word in the normal text;
* a dollar sign or a closing bar where an argument is expected.
-/

namespace TexCalc

/-! ## Glyphs of tokens -/

namespace Glyph

/-- The function that stands for a pair of vertical bars. -/
def absolute : Glyph :=
  .call (.function ⟨"abs".toList, by decide⟩)

/-- The glyphs of a sized delimiter. -/
def ofSide : Side → (delimiter : Char) → List Glyph
  | .left, '|' => [absolute, .char '(']
  | .left, _ => [.char '(']
  | .right, _ => [.char ')']

/-- The glyphs of a bare bar, `isOpen` telling whether a bar in front of it waits for its partner. -/
def ofBar (isOpen : Bool) : List Glyph :=
  if isOpen then [.char ')', .char ')'] else [.char '(', absolute, .char '(']

theorem flatMap_source_ofSide (side : Side) (delimiter : Char) :
    (ofSide side delimiter).flatMap source = side.normal delimiter := by
  fun_cases Side.normal side delimiter with
  | case1 => rfl
  | case2 delimiter noBar =>
      rw [ofSide]
      · rfl
      · exact noBar
  | case3 delimiter => rfl

theorem sum_weight_ofSide (letter : Char) (side : Side) (delimiter : Char) :
    ((ofSide side delimiter).map (weight letter)).sum = 0 := by
  unfold ofSide
  split <;> simp [absolute, weight]

theorem flatMap_source_ofBar (isOpen : Bool) :
    (ofBar isOpen).flatMap source = if isOpen then "))".toList else "(abs(".toList := by
  cases isOpen <;> rfl

theorem sum_weight_ofBar (letter : Char) (isOpen : Bool) :
    ((ofBar isOpen).map (weight letter)).sum = 0 := by
  cases isOpen <;> simp [ofBar, absolute, weight]

end Glyph

/-- The glyphs of a token that is neither a bar nor a `\left` or `\right`. -/
def Token.glyphs : Token → List Glyph
  | mathShift | comment _ => []
  | blank | tie => [.char ' ']
  | char c => [.char c]
  | openBrace => [.char '\x7b']
  | closeBrace => [.char '\x7d']
  | superscript => [.char '^']
  | subscript => [.char '_']
  | control name =>
      if name = ['\x7b'] then [.char '(']
      else if name = ['\x7d'] then [.char ')']
      else if Command.named? name = some .spacing then [.char ' ']
      else [.word name]

/-- The state behind some glyphs in front of a text, if they may stand there. -/
def Grammar.afterGlyphs? (grammar : Grammar) (rest : Text) : State → List Glyph → Option State
  | state, [] => some state
  | state, glyph :: glyphs =>
      match glyph.role? (glyphs.flatMap Glyph.source ++ rest) with
      | some role =>
          match grammar.step state role with
          | some next => grammar.afterGlyphs? rest next glyphs
          | none => none
      | none => none

namespace Text

/-- Whether tokens go on from some state in such a way that every reader of arguments stops where
the formula means it to.  A dollar sign or the second of two bars must not stand where an argument
is expected. -/
def goesOn (isOpen : Bool) (state : State) : List Token → Bool
  | [] => (Grammar.formula .written).closes state.mode && state.frames.isEmpty
  | token :: rest =>
      let settled := (Grammar.formula .accepted).closes state.mode
      match token.side? with
      | some side =>
          match _after : rest.dropWhile Token.isBlank with
          | next :: later =>
              match next.sizedDelimiter? with
              | some delimiter =>
                  ((Grammar.formula .written).afterGlyphs? (ofTokens isOpen later) state
                    (Glyph.ofSide side delimiter)).any (goesOn isOpen · later)
              | none => false
          | [] => false
      | none =>
          if token = .char '|' then
            (!isOpen || settled) &&
              ((Grammar.formula .written).afterGlyphs? (ofTokens (!isOpen) rest) state
                (Glyph.ofBar isOpen)).any (goesOn (!isOpen) · rest)
          else
            (token != .mathShift || settled) &&
              ((Grammar.formula .written).afterGlyphs? (ofTokens isOpen rest) state
                token.glyphs).any (goesOn isOpen · rest)
termination_by tokens => tokens.length
decreasing_by
  · have := length_dropWhile_le Token.isBlank rest
    rw [_after, List.length_cons] at this
    simp only [List.length_cons]
    omega
  all_goals simp

/-- Whether every reader of arguments stops where the formula means it to. -/
def isLegible (formula : Text) : Bool :=
  goesOn false ⟨.idle, {}, []⟩ (formula.trim.lexemes.map Lexeme.token)

example : ["\\sin x", "\\sin -x", "\\sin^2 x", "\\sin 2xy\\cos x", "\\sin\\cos x", "\\sin^\x7b-1\x7d 2x",
    "\\log_2 x", "x^\x7b\\sin y\x7d", "\\frac xy"].all (isLegible ·.toList) = true := by
  decide +kernel

example : ["\\sin 2\\cos x", "x^\\sin y", "x^e^y"].any (isLegible ·.toList) = false := by
  decide +kernel

end Text

/-! ## Roles of tokens -/

namespace Token

variable {name text : Text} {role : Role} {glyph : Glyph} {token : Token} {later : List Token}

/-- A character that is read as a token by itself. -/
theorem plays_char {c : Char} (single : isSingle c = true) (isRole : Role.ofChar? c = some role) :
    (char c).Plays role := by
  have other {d : Char} (special : isSingle d = false) : c ≠ d := by
    rintro rfl
    rw [special] at single
    cases single
  have word (isWord : c.isAlphanum = true) (plain : role = .letter ∨ role = .digit) :
      (char c).Plays role := by
    have noSign : c ≠ '+' ∧ c ≠ '-' := by
      constructor <;> rintro rfl <;> cases isWord
    have unsigned : (char c).isSign = false := by simp [isSign, command?, noSign]
    refine ⟨?_, ?_, ?_, ?_, ?_, ?_⟩ <;> rcases plain with rfl | rfl <;>
      simp [unsigned, isPassedOver, isSignificant, isBlank, isComment, isScript, command?]
  have refuses (isMember : c ∈ ['*', '/', ',', ')', ']']) (offset : Nat) (source : Text)
      (rest : List Lexeme) : Lexeme.beginsArgument (⟨offset, char c, source⟩ :: rest) = false := by
    simp only [List.mem_cons, List.not_mem_nil, or_false] at isMember
    have noOperand : isWordChar c = false ∧ decide (c ∈ ['(', '[', '|', '.']) = false := by
      rcases isMember with rfl | rfl | rfl | rfl | rfl <;> exact ⟨by decide +kernel, by decide⟩
    exact Bool.or_eq_false_iff.2 noOperand
  have fits := Role.fits_of_ofChar? isRole
  cases role with
  | blank | caret | underscore => exact absurd fits (other rfl)
  | letter => exact word (by simp [Char.isAlphanum, show c.isAlpha = true from fits]) (.inl rfl)
  | digit => exact word (by simp [Char.isAlphanum, show c.isDigit = true from fits]) (.inr rfl)
  | point | euler =>
      cases fits
      exact ⟨by decide, by decide, by decide, by decide, by decide, by simp⟩
  | sign =>
      rcases fits with rfl | rfl <;>
        exact ⟨by decide, by decide, by decide, by decide, by decide, by simp⟩
  | mark =>
      rcases fits with rfl | rfl | rfl <;>
        exact ⟨by decide, by decide, by decide, by decide, by decide,
          fun _ => refuses (by decide)⟩
  | «opens» bracket =>
      cases bracket with
      | curly => exact absurd fits (other rfl)
      | _ =>
          cases fits
          exact ⟨by decide, by decide, by decide, by decide, by decide, by simp⟩
  | closes bracket =>
      cases bracket with
      | curly => exact absurd fits (other rfl)
      | _ =>
          cases fits
          exact ⟨by decide, by decide, by decide, by decide, by decide,
            fun _ => refuses (by decide)⟩
  | _ => exact fits.elim

/-- A control word that is no `\left` or `\right`. -/
theorem plays_word (isRole : Role.ofWord? name = some role) : (control name).Plays role := by
  have of {command : Command} (isNamed : Command.named? name = some command)
      (visible : command ≠ .spacing) (noBlank : role ≠ .blank)
      (sign : role = .plusMinus ↔ command = .plusMinus ∨ command = .minusPlus)
      (plain : role.isCharacter = false)
      (ends : role = .mark → ∃ c, command = .operator c) : (control name).Plays role := by
    have isCommand : (control name).command? = some command := isNamed
    refine ⟨?_, ?_, ?_, ?_, ?_, ?_⟩
    · simp [isPassedOver, isSignificant, isBlank, isComment, isCommand, visible, noBlank]
    · have noScript : role ≠ .caret ∧ role ≠ .underscore := by
        constructor <;> rintro rfl <;> cases plain
      simp [isScript, noScript]
    · have noSign : role ≠ .sign := by
        rintro rfl
        cases plain
      simp [isSign, isCommand, noSign, sign]
    · have noBrace : role ≠ .opens .curly := by
        rintro rfl
        cases plain
      simp [noBrace]
    · have noBrace : role ≠ .closes .curly := by
        rintro rfl
        cases plain
      simp [noBrace]
    · rintro (mark | ⟨bracket, rfl⟩) offset source rest
      · obtain ⟨c, rfl⟩ := ends mark
        simp [Lexeme.beginsArgument, isNamed]
      · cases plain
  obtain ⟨isFraction, rfl⟩ | ⟨-, isRoot, rfl⟩ | ⟨command, isNamed, isRole, -, -⟩ :=
    Glyph.cases_of_ofWord? isRole
  · simp only [Command.isFraction, Bool.or_eq_true, decide_eq_true_eq] at isFraction
    rcases isFraction with (rfl | rfl) | rfl <;>
      exact of rfl (by simp) (by simp) (by simp) rfl (by simp)
  · simp only [Command.isRoot, decide_eq_true_eq] at isRoot
    subst isRoot
    exact of rfl (by simp) (by simp) (by simp) rfl (by simp)
  · cases command with
    | structural | spacing => cases isRole
    | constant target =>
        rw [Role.ofCommand?] at isRole
        split at isRole <;> cases isRole <;>
          exact of isNamed (by simp) (by simp) (by simp) rfl (by simp)
    | _ =>
        cases isRole
        exact of isNamed (by simp) (by simp) (by simp) rfl (by simp)

/-- A token without a glyph is a dollar sign or a comment, any other one has a single glyph. -/
theorem glyphs_cases (token : Token) :
    (token = .mathShift ∨ ∃ text, token = .comment text) ∨ ∃ glyph, token.glyphs = [glyph] := by
  cases token with
  | mathShift => exact .inl (.inl rfl)
  | comment text => exact .inl (.inr ⟨text, rfl⟩)
  | control name =>
      simp only [glyphs]
      repeat' split
      all_goals exact .inr ⟨_, rfl⟩
  | _ => exact .inr ⟨_, rfl⟩

/-- What the only glyph of a token is for the check of the formula. -/
theorem plays_of_glyphs (lexed : IsLexed later token) (isGlyph : token.glyphs = [glyph])
    (isRole : glyph.role? text = some role) :
    token.Plays role ∧ (∀ applied, role ≠ .call applied) ∧ ∀ isLog, role = .function isLog →
      ∃ name, token = .control name ∧ Role.ofWord? name = some role := by
  have mark {c : Char} (isChar : glyph = .char c) (noLetter : c.isAlpha = false) {role' : Role}
      (isRole' : Role.ofChar? c = some role') : role' = role := by
    rw [isChar, Glyph.role?_of_not_isAlpha noLetter, isRole'] at isRole
    exact Option.some.inj isRole
  cases token with
  | mathShift | comment => cases isGlyph
  | blank | tie | openBrace | superscript | subscript =>
      cases isGlyph
      cases mark rfl rfl rfl
      exact ⟨⟨by decide, by decide, by decide, by decide, by decide, by simp⟩, by simp, by simp⟩
  | closeBrace =>
      cases isGlyph
      cases mark rfl rfl rfl
      exact ⟨⟨by decide, by decide, by decide, by decide, by decide, fun _ _ _ _ => rfl⟩,
        by simp, by simp⟩
  | char c =>
      cases isGlyph
      have isRole := Glyph.ofChar?_of_role? isRole
      rcases lexed with single | ⟨rfl, -⟩
      · have fits := Role.fits_of_ofChar? isRole
        refine ⟨plays_char single isRole, ?_, ?_⟩ <;> rintro _ rfl <;> exact fits.elim
      · cases isRole
  | control name =>
      simp only [glyphs] at isGlyph
      split at isGlyph
      · rename_i opener
        cases isGlyph
        cases mark rfl rfl rfl
        subst opener
        exact ⟨⟨by decide, by decide, by decide, by decide, by decide, by simp⟩, by simp, by simp⟩
      · split at isGlyph
        · rename_i closer
          cases isGlyph
          cases mark rfl rfl rfl
          subst closer
          exact ⟨⟨by decide, by decide, by decide, by decide, by decide, fun _ _ _ _ => rfl⟩,
            by simp, by simp⟩
        · split at isGlyph
          · rename_i spacing
            cases isGlyph
            cases mark rfl rfl rfl
            refine ⟨?_, by simp, by simp⟩
            have isCommand : (control name).command? = some .spacing := spacing
            have passed : (control name).isPassedOver = true := by simp [isPassedOver, isCommand]
            have unsigned : (control name).isSign = false := by simp [isSign, isCommand]
            exact ⟨by simp [passed], by simp [isScript], by simp [unsigned], by simp, by simp,
              by simp⟩
          · cases isGlyph
            have isWord := (Glyph.exists_word isRole).2
            refine ⟨plays_word isWord, ?_, fun _ _ => ⟨name, rfl, isWord⟩⟩
            obtain ⟨-, rfl⟩ | ⟨-, -, rfl⟩ | ⟨command, -, isRole, -, -⟩ :=
              Glyph.cases_of_ofWord? isWord
            · simp
            · simp
            · exact (Glyph.of_ofCommand? isRole).2.2.2.1

/-- A dollar sign or a comment becomes nothing, and any other token that is read becomes its
glyph. -/
theorem normal_eq_flatMap_source (other : token ≠ .char Parked.mark) :
    token.normal = token.glyphs.flatMap Glyph.source := by
  cases token with
  | char c =>
      have noMark : c ≠ Parked.mark := fun isMark => other (by rw [isMark])
      simp [normal, glyphs, noMark, Glyph.source]
  | control name =>
      rw [normal_control, glyphs]
      repeat' split
      all_goals simp [Glyph.source]
  | _ => rfl

theorem sum_weight_glyphs_le (letter : Char) (token : Token) :
    (token.glyphs.map (Glyph.weight letter)).sum ≤ [token].count (.char letter) := by
  cases token with
  | char c =>
      by_cases same : c = letter <;> simp [glyphs, Glyph.weight, same]
      split <;> omega
  | control name =>
      simp only [glyphs]
      repeat' split
      all_goals simp [Glyph.weight]
  | _ => simp [glyphs, Glyph.weight]

end Token

/-! ## Glyphs and states -/

namespace Grammar

variable {grammar : Grammar} {text : Text} {state next : State} {glyph : Glyph}
  {glyphs : List Glyph} {role : Role}

theorem afterGlyphs?_cons_eq_some_iff :
    grammar.afterGlyphs? text state (glyph :: glyphs) = some next ↔ ∃ role behind,
      glyph.role? (glyphs.flatMap Glyph.source ++ text) = some role ∧
        grammar.step state role = some behind ∧
          grammar.afterGlyphs? text behind glyphs = some next := by
  rw [afterGlyphs?]
  constructor
  · intro found
    split at found
    · rename_i role isRole
      split at found
      · rename_i behind moves
        exact ⟨role, behind, isRole, moves, found⟩
      · cases found
    · cases found
  · rintro ⟨role, behind, isRole, moves, found⟩
    simp only [isRole, moves, found]

/-- A character that is no letter has the same role in front of every text. -/
theorem afterGlyphs?_char_eq_some_iff {c : Char} (noLetter : c.isAlpha = false)
    (isRole : Role.ofChar? c = some role) :
    grammar.afterGlyphs? text state (.char c :: glyphs) = some next ↔
      ∃ behind, grammar.step state role = some behind ∧
        grammar.afterGlyphs? text behind glyphs = some next := by
  rw [afterGlyphs?_cons_eq_some_iff, Glyph.role?_of_not_isAlpha noLetter, isRole]
  simp

end Grammar

/-- Glyphs that lead to a state from which a text goes on. -/
theorem Text.Follows.of_afterGlyphs? {grammar : Grammar} {letter : Char} {state next : State}
    {glyphs : List Glyph} {count : Nat} {text : Text}
    (found : grammar.afterGlyphs? text state glyphs = some next)
    (later : Follows grammar letter next count text) :
    Follows grammar letter state ((glyphs.map (Glyph.weight letter)).sum + count)
      (glyphs.flatMap Glyph.source ++ text) := by
  induction glyphs generalizing state with
  | nil =>
      cases found
      simpa using later
  | cons glyph glyphs ih =>
      obtain ⟨role, behind, isRole, moves, found⟩ := Grammar.afterGlyphs?_cons_eq_some_iff.1 found
      rw [List.map_cons, List.sum_cons, Nat.add_assoc, List.flatMap_cons, List.append_assoc]
      exact .glyph isRole moves (ih found)

namespace State.IsMet

variable {here : Lexeme} {rest later : List Lexeme} {state next : State} {text : Text}

/-- Vertical bars open a bracket behind the name of a function. -/
theorem after_absolute (frames : Frame.AreMet 0 later state.frames)
    (found : (Grammar.formula .written).afterGlyphs? text state [.absolute, .char '('] = some next) :
    (Grammar.formula .accepted).afterGlyphs? text state [.absolute, .char '('] = some next ∧
      next.IsMet later := by
  obtain ⟨role, called, isRole, moves, found⟩ := Grammar.afterGlyphs?_cons_eq_some_iff.1 found
  obtain ⟨behind, opens, isEnd⟩ := (Grammar.afterGlyphs?_char_eq_some_iff rfl rfl).1 found
  cases isEnd
  obtain ⟨applied, rfl⟩ : ∃ applied, role = .call applied := by
    simp only [Glyph.absolute, Glyph.role?] at isRole
    split at isRole <;> cases isRole
    exact ⟨_, rfl⟩
  obtain ⟨mode, limits, below⟩ := state
  obtain ⟨function, isNext, rfl⟩ := Grammar.exists_of_step rfl moves
  have isNext' : (Grammar.formula .accepted).next mode limits (.call applied) = some function := by
    cases mode <;> exact isNext
  have opens' : (Grammar.formula .accepted).step ⟨function, limits, below⟩ (.opens .round) =
      some next := opens
  have behind : Frame.AreMet 0 later below := frames
  refine ⟨?_, IsMet.opens (by decide) behind opens⟩
  rw [Grammar.afterGlyphs?_cons_eq_some_iff]
  exact ⟨_, _, isRole, Grammar.step_of_next rfl isNext' _,
    (Grammar.afterGlyphs?_char_eq_some_iff rfl rfl).2 ⟨_, opens', rfl⟩⟩

theorem after_side {side : Side} {delimiter : Char} (met : state.IsMet (here :: rest))
    (isSide : here.token.side? = some side) (frames : Frame.AreMet 0 later state.frames)
    (found : (Grammar.formula .written).afterGlyphs? text state (Glyph.ofSide side delimiter) =
      some next) :
    (Grammar.formula .accepted).afterGlyphs? text state (Glyph.ofSide side delimiter) = some next ∧
      next.IsMet later := by
  unfold Glyph.ofSide at found ⊢
  split at found
  · exact after_absolute frames found
  · obtain ⟨behind, opens, isEnd⟩ := (Grammar.afterGlyphs?_char_eq_some_iff rfl rfl).1 found
    cases isEnd
    have opens' : (Grammar.formula .accepted).step state (.opens .round) = some next := opens
    exact ⟨(Grammar.afterGlyphs?_char_eq_some_iff rfl rfl).2 ⟨_, opens', rfl⟩,
      IsMet.opens (by decide) frames opens⟩
  · obtain ⟨behind, closes, isEnd⟩ := (Grammar.afterGlyphs?_char_eq_some_iff rfl rfl).1 found
    cases isEnd
    have settled := met.mode.closes (Lexeme.refuse_of_right isSide) (Grammar.closes_of_step closes)
    obtain ⟨closes', mode, frames⟩ := IsMet.closes (by decide) frames settled closes
    exact ⟨(Grammar.afterGlyphs?_char_eq_some_iff rfl rfl).2 ⟨_, closes', rfl⟩,
      mode later, frames⟩

theorem after_bar {isOpen : Bool} (frames : Frame.AreMet 0 later state.frames)
    (settled : isOpen = true → (Grammar.formula .accepted).closes state.mode = true)
    (found : (Grammar.formula .written).afterGlyphs? text state (Glyph.ofBar isOpen) = some next) :
    (Grammar.formula .accepted).afterGlyphs? text state (Glyph.ofBar isOpen) = some next ∧
      next.IsMet later := by
  cases isOpen with
  | false =>
      obtain ⟨behind, opens, found⟩ := (Grammar.afterGlyphs?_char_eq_some_iff rfl rfl).1 found
      have opens' : (Grammar.formula .accepted).step state (.opens .round) = some behind := opens
      have met : behind.IsMet later := IsMet.opens (by decide) frames opens
      obtain ⟨found', met⟩ := after_absolute met.frames found
      exact ⟨(Grammar.afterGlyphs?_char_eq_some_iff rfl rfl).2 ⟨_, opens', found'⟩, met⟩
  | true =>
      obtain ⟨first, inner, found⟩ := (Grammar.afterGlyphs?_char_eq_some_iff rfl rfl).1 found
      obtain ⟨second, outer, isEnd⟩ := (Grammar.afterGlyphs?_char_eq_some_iff rfl rfl).1 found
      cases isEnd
      obtain ⟨inner', none, frames⟩ := IsMet.closes (by decide) frames (settled rfl) inner
      have settled := (none []).closes Lexeme.refuse_nil (Grammar.closes_of_step outer)
      obtain ⟨outer', mode, frames⟩ := IsMet.closes (by decide) frames settled outer
      refine ⟨?_, mode later, frames⟩
      exact (Grammar.afterGlyphs?_char_eq_some_iff rfl rfl).2
        ⟨_, inner', (Grammar.afterGlyphs?_char_eq_some_iff rfl rfl).2 ⟨_, outer', rfl⟩⟩

theorem after_token {later : List Token} (lexed : here.token.IsLexed later)
    (complete : Lexeme.AreComplete (here :: rest)) (met : state.IsMet (here :: rest))
    (settled : here.token = .mathShift → (Grammar.formula .accepted).closes state.mode = true)
    (found : (Grammar.formula .written).afterGlyphs? text state here.token.glyphs = some next) :
    (Grammar.formula .accepted).afterGlyphs? text state here.token.glyphs = some next ∧
      next.IsMet rest := by
  rcases here.token.glyphs_cases with unseen | ⟨glyph, isGlyph⟩
  · obtain ⟨noGlyphs, noOpener, noCloser⟩ : here.token.glyphs = [] ∧ here.token ≠ .openBrace ∧
        here.token ≠ .closeBrace := by
      rcases unseen with isToken | ⟨comment, isToken⟩ <;> simp [isToken, Token.glyphs]
    rw [noGlyphs] at found ⊢
    cases found
    refine ⟨rfl, ?_, met.frames.pass noOpener noCloser⟩
    rcases unseen with isShift | ⟨comment, isComment⟩
    · exact Mode.IsMet.of_closes (settled isShift) rest
    · exact met.mode.of_isPassedOver (by rw [isComment]; rfl)
  · rw [isGlyph] at found ⊢
    obtain ⟨role, behind, isRole, moves, isEnd⟩ := Grammar.afterGlyphs?_cons_eq_some_iff.1 found
    cases isEnd
    obtain ⟨plays, noCall, isCommand⟩ := Token.plays_of_glyphs lexed isGlyph isRole
    obtain ⟨moves', metBehind⟩ := met.step plays (fun isLog isFunction => by
      obtain ⟨name, isControl, isWord⟩ := isCommand isLog isFunction
      rw [isFunction] at isWord
      obtain ⟨command, isNamed, takes, -⟩ := Glyph.exists_function isWord
      exact complete (List.suffix_refl _) isControl isNamed takes) noCall moves
    exact ⟨Grammar.afterGlyphs?_cons_eq_some_iff.2 ⟨role, _, isRole, moves', rfl⟩, metBehind⟩

end State.IsMet

namespace Text

variable {isOpen : Bool} {state : State} {token : Token} {rest : List Token}

theorem goesOn_side {side : Side} (isSide : token.side? = some side) :
    goesOn isOpen state (token :: rest) =
      match rest.dropWhile Token.isBlank with
      | next :: later =>
          match next.sizedDelimiter? with
          | some delimiter =>
              ((Grammar.formula .written).afterGlyphs? (ofTokens isOpen later) state
                (Glyph.ofSide side delimiter)).any (goesOn isOpen · later)
          | none => false
      | [] => false := by
  rw [goesOn, isSide]
  simp only
  cases rest.dropWhile Token.isBlank <;> rfl

/-- In front of the delimiter of a `\left` or `\right` no brace is opened or closed. -/
theorem areMet_of_sized {here next : Lexeme} {blanks later : List Lexeme} {side : Side}
    {delimiter : Char} {frames : List Frame} (isSide : here.token.side? = some side)
    (allBlank : ∀ lexeme ∈ blanks, lexeme.token = .blank)
    (sized : next.token.sizedDelimiter? = some delimiter)
    (met : Frame.AreMet 0 (here :: (blanks ++ next :: later)) frames) :
    Frame.AreMet 0 later frames := by
  have noBrace (isBrace : here.token = .openBrace ∨ here.token = .closeBrace) : False := by
    rcases isBrace with isBrace | isBrace <;> rw [isBrace] at isSide <;> cases isSide
  have noBraceNext (isBrace : next.token = .openBrace ∨ next.token = .closeBrace) : False := by
    rcases isBrace with isBrace | isBrace <;> rw [isBrace] at sized <;> cases sized
  have atBlanks := met.pass (fun isBrace => noBrace (.inl isBrace))
    fun isBrace => noBrace (.inr isBrace)
  have atNext := atBlanks.pass_all fun lexeme isMember => by simp [allBlank lexeme isMember]
  exact atNext.pass (fun isBrace => noBraceNext (.inl isBrace))
    fun isBrace => noBraceNext (.inr isBrace)

/-- The normal text of tokens that go on follows the grammar of accepted formulas, if the check
finds no function without an argument. -/
theorem follows_ofTokens {letter : Char} {lexemes : List Lexeme}
    (lexed : AreLexed (lexemes.map Lexeme.token)) (complete : Lexeme.AreComplete lexemes)
    (met : state.IsMet lexemes) (legible : goesOn isOpen state (lexemes.map Lexeme.token) = true) :
    Follows (.formula .accepted) letter state
      ((lexemes.map Lexeme.token).count (.char letter))
      (ofTokens isOpen (lexemes.map Lexeme.token)) := by
  generalize shape : lexemes.map Lexeme.token = tokens at *
  fun_induction ofTokens isOpen tokens generalizing state lexemes with
  | case1 isOpen =>
      cases List.map_eq_nil_iff.1 shape
      obtain ⟨mode, limits, frames⟩ := state
      rw [goesOn, Bool.and_eq_true, List.isEmpty_iff] at legible
      obtain ⟨closed, rfl⟩ := legible
      exact .done _ (met.mode.closes Lexeme.refuse_nil closed)
  | case2 isOpen token rest side isSide next later after delimiter isDelimiter ih =>
      obtain ⟨here, others, rfl, rfl, rfl⟩ := List.map_eq_cons_iff.1 shape
      rw [goesOn_side isSide, after] at legible
      simp only [isDelimiter] at legible
      obtain ⟨behind, found, goesOn⟩ := (Option.any_eq_true _ _).1 legible
      obtain ⟨blanks, sized, lexemes, rfl, allBlank, rfl, rfl⟩ :=
        Lexeme.exists_of_dropWhile_isBlank after
      have ending : lexemes <:+ here :: (blanks ++ sized :: lexemes) :=
        ⟨here :: (blanks ++ [sized]), by simp⟩
      obtain ⟨found', metBehind⟩ :=
        met.after_side isSide (areMet_of_sized isSide allBlank isDelimiter met.frames) found
      have inner := ih (complete.of_suffix ending) metBehind rfl
        (lexed.of_suffix (ending.map Lexeme.token)) goesOn
      have whole := Follows.of_afterGlyphs? found' inner
      rw [Glyph.flatMap_source_ofSide] at whole
      refine whole.mono_count ?_
      rw [Glyph.sum_weight_ofSide, Nat.zero_add]
      exact (ending.map Lexeme.token).sublist.count_le _
  | case3 isOpen token rest side isSide next later after noDelimiter ih =>
      rw [goesOn_side isSide, after] at legible
      simp only [noDelimiter] at legible
      cases legible
  | case4 isOpen token rest side isSide nothing ih =>
      rw [goesOn_side isSide, nothing] at legible
      cases legible
  | case5 isOpen rest noSide ih =>
      obtain ⟨here, others, rfl, isBar, rfl⟩ := List.map_eq_cons_iff.1 shape
      rw [goesOn, noSide] at legible
      simp only [if_true, Bool.and_eq_true, Bool.or_eq_true] at legible
      obtain ⟨behind, found, goesOn⟩ := (Option.any_eq_true _ _).1 legible.2
      have frames : Frame.AreMet 0 others state.frames :=
        met.frames.pass (by simp [isBar]) (by simp [isBar])
      obtain ⟨found', metBehind⟩ := State.IsMet.after_bar frames (fun isOpen => by
        simpa [isOpen] using legible.1) found
      have ending := List.suffix_cons here others
      have inner := ih (complete.of_suffix ending) metBehind rfl
        (lexed.of_suffix (List.suffix_cons _ _)) goesOn
      have whole := Follows.of_afterGlyphs? found' inner
      rw [Glyph.flatMap_source_ofBar] at whole
      refine whole.mono_count ?_
      rw [Glyph.sum_weight_ofBar, Nat.zero_add]
      exact (List.sublist_cons_self _ _).count_le _
  | case6 isOpen token rest noSide noBar ih =>
      obtain ⟨here, others, rfl, rfl, rfl⟩ := List.map_eq_cons_iff.1 shape
      rw [goesOn, noSide] at legible
      simp only [if_neg noBar, Bool.and_eq_true, Bool.or_eq_true] at legible
      obtain ⟨behind, found, goesOn⟩ := (Option.any_eq_true _ _).1 legible.2
      have ending := List.suffix_cons here others
      obtain ⟨found', metBehind⟩ := met.after_token lexed.head complete (fun isShift => by
        simpa [isShift] using legible.1) found
      have noMark : here.token ≠ .char Parked.mark := by
        intro isMark
        rw [isMark] at found
        cases found
      have inner := ih (complete.of_suffix ending) metBehind rfl
        (lexed.of_suffix (List.suffix_cons _ _)) goesOn
      have whole := Follows.of_afterGlyphs? found' inner
      rw [← Token.normal_eq_flatMap_source noMark] at whole
      refine whole.mono_count ?_
      rw [← List.singleton_append, List.count_append]
      exact Nat.add_le_add_right (Token.sum_weight_glyphs_le letter here.token) _

end Text

end TexCalc
