import TexCalc.Proofs.Check.Faultless
import TexCalc.Proofs.Dollars.Contained
import TexCalc.Proofs.Legible.Formula
import TexCalc.Proofs.Spacing.Checked

/-!
# Arguments that the check has found

The check of a formula looks for the argument of a function in its lexemes, past its exponent or
base and past one sign.  The grammar of legible formulas expects the argument at the same place.
What the check has found is therefore a condition on the mode and on the brackets that are open: as
long as an argument is expected, the lexemes ahead begin one.  Each token keeps the condition, so
that no formula without a fault ends, closes a bracket or goes on with an operator where it should
have had an argument.
-/

namespace TexCalc

/-! ## Looking ahead -/

namespace Lexeme

variable {here : Lexeme} {rest : List Lexeme}

theorem fromOperand_of_isPassedOver (passed : here.token.isPassedOver = true) :
    fromOperand (here :: rest) = fromOperand rest :=
  List.dropWhile_cons_of_pos passed

theorem fromOperand_of_visible (visible : here.token.isPassedOver = false) :
    fromOperand (here :: rest) = here :: rest :=
  List.dropWhile_cons_of_neg (by simp [visible])

theorem lacksArgument_of_isPassedOver (passed : here.token.isPassedOver = true) :
    lacksArgument (here :: rest) = lacksArgument rest := by
  rw [lacksArgument_eq, lacksArgument_eq, fromBase?_eq, fromBase?_eq rest,
    fromOperand_of_isPassedOver passed]

theorem afterScript?_of_isPassedOver (passed : here.token.isPassedOver = true) :
    afterScript? (here :: rest) = afterScript? rest := by
  rw [afterScript?, afterScript?, fromOperand_of_isPassedOver passed]

theorem afterScript?_of_visible (visible : here.token.isPassedOver = false) :
    afterScript? (here :: rest) =
      if here.token = .openBrace then afterBrace? 0 rest else some rest := by
  rw [afterScript?, fromOperand_of_visible visible]

/-- A function lacks its argument behind a script if it lacks it behind the operand of that. -/
theorem lacksArgument_of_isScript (visible : here.token.isPassedOver = false)
    (isScript : here.token.isScript = true) :
    lacksArgument (here :: rest) = (afterScript? rest).any lacksArgument := by
  rw [lacksArgument_eq, fromBase?_eq, fromOperand_of_visible visible]
  simp only [isScript, if_true]
  cases afterScript? rest with
  | none => rfl
  | some after => exact (lacksArgument_eq after).symm

theorem lacksArgument_of_visible (visible : here.token.isPassedOver = false)
    (noScript : here.token.isScript = false) :
    lacksArgument (here :: rest) = lacksFromBase (here :: rest) := by
  rw [lacksArgument_eq, fromBase?_eq, fromOperand_of_visible visible]
  simp [noScript]

/-- No argument begins with these lexemes. -/
structure Refuse (lexemes : List Lexeme) : Prop where
  lacks : lacksArgument lexemes = true
  begins : beginsArgument (fromOperand lexemes) = false

theorem refuse_nil : Refuse [] := by
  refine ⟨?_, rfl⟩
  rw [lacksArgument_eq, fromBase?_eq]
  rfl

theorem refuse_of_visible (visible : here.token.isPassedOver = false)
    (noScript : here.token.isScript = false) (noSign : here.token.isSign = false)
    (begins : beginsArgument (here :: rest) = false) : Refuse (here :: rest) where
  lacks := by
    rw [lacksArgument_of_visible visible noScript, lacksFromBase, noSign, begins]
    rfl
  begins := by rw [fromOperand_of_visible visible, begins]

/-- A `\right` is a closing bracket, too. -/
theorem refuse_of_right (isRight : here.token.side? = some .right) : Refuse (here :: rest) := by
  obtain ⟨offset, token, source⟩ := here
  obtain rfl : token = .control Side.right.word := by
    cases token with
    | control name =>
        simp only [Token.side?] at isRight
        split at isRight
        · cases isRight
        · split at isRight
          · rename_i right
            rw [right]
          · cases isRight
    | _ => cases isRight
  exact refuse_of_visible rfl rfl rfl rfl

end Lexeme

/-- Every command for a function has its argument. -/
def Lexeme.AreComplete (lexemes : List Lexeme) : Prop :=
  ∀ ⦃here after⦄, here :: after <:+ lexemes → ∀ ⦃name command⦄, here.token = .control name →
    Command.named? name = some command → command.takesArgument = true → lacksArgument after = false

theorem Lexeme.AreComplete.of_suffix {lexemes later : List Lexeme} (complete : AreComplete lexemes)
    (ending : later <:+ lexemes) : AreComplete later :=
  fun _ _ isEnding => complete (isEnding.trans ending)

/-- In a formula without faults every function has its argument. -/
theorem Lexeme.areComplete_of_fault? {lexemes : List Lexeme}
    (faultless : ∀ focus ∈ Focus.all lexemes, focus.fault? = none) : AreComplete lexemes := by
  rintro here after ⟨front, rfl⟩ name command isControl isNamed takes
  have isFocus := Focus.mem_all ⟨front.reverse, here, after⟩
  rw [List.reverse_reverse] at isFocus
  have noFault := faultless _ isFocus
  obtain ⟨noSide, noFraction, noRoot⟩ := Command.side?_of_named? isNamed (by
    rintro rfl
    cases takes)
  simp only [Focus.fault?, isControl, Focus.controlFault?, noSide, noFraction, noRoot, isNamed,
    takes, Bool.true_and] at noFault
  simpa using noFault

/-! ## What has been found -/

/-- What the check has found about the lexemes at some place, if an argument is expected there. -/
def Mode.IsMet (lexemes : List Lexeme) : Mode → Prop
  | .function _ _ | .operand _ => Lexeme.lacksArgument lexemes = false
  | .signed _ => Lexeme.beginsArgument (Lexeme.fromOperand lexemes) = true
  | .script | .base => ∀ after, Lexeme.afterScript? lexemes = some after →
      Lexeme.lacksArgument after = false
  | _ => True

/-- What the check has found about the lexemes behind the brackets that are open at some place,
`depth` braces having been closed before. -/
def Frame.AreMet : (depth : Nat) → (lexemes : List Lexeme) → List Frame → Prop
  | _, _, [] => True
  | depth, lexemes, frame :: frames =>
      if frame.bracket = .curly then
        (∀ after, Lexeme.afterBrace? depth lexemes = some after → frame.resume.IsMet after) ∧
          AreMet (depth + 1) lexemes frames
      else
        (∀ after, frame.resume.IsMet after) ∧ AreMet depth lexemes frames

/-- What the check has found about the lexemes at some place of a formula. -/
structure State.IsMet (state : State) (lexemes : List Lexeme) : Prop where
  mode : state.mode.IsMet lexemes
  frames : Frame.AreMet 0 lexemes state.frames

namespace Frame.AreMet

variable {here : Lexeme} {rest : List Lexeme} {frames : List Frame} {depth : Nat}

/-- Only braces count. -/
theorem pass (noOpener : here.token ≠ .openBrace) (noCloser : here.token ≠ .closeBrace)
    (met : AreMet depth (here :: rest) frames) : AreMet depth rest frames := by
  induction frames generalizing depth with
  | nil => trivial
  | cons frame frames ih =>
      simp only [AreMet, Lexeme.afterBrace?_cons, if_neg noOpener, if_neg noCloser] at met ⊢
      split
      · rename_i curly
        rw [if_pos curly] at met
        exact ⟨met.1, ih met.2⟩
      · rename_i other
        rw [if_neg other] at met
        exact ⟨met.1, ih met.2⟩

theorem pass_all {front : List Lexeme}
    (noBraces : ∀ lexeme ∈ front, lexeme.token ≠ .openBrace ∧ lexeme.token ≠ .closeBrace)
    (met : AreMet depth (front ++ rest) frames) : AreMet depth rest frames := by
  induction front with
  | nil => exact met
  | cons first front ih =>
      rw [List.forall_mem_cons] at noBraces
      exact ih noBraces.2 (met.pass noBraces.1.1 noBraces.1.2)

theorem «open» (isOpener : here.token = .openBrace) (met : AreMet depth (here :: rest) frames) :
    AreMet (depth + 1) rest frames := by
  induction frames generalizing depth with
  | nil => trivial
  | cons frame frames ih =>
      simp only [AreMet, Lexeme.afterBrace?_cons, if_pos isOpener] at met ⊢
      split
      · rename_i curly
        rw [if_pos curly] at met
        exact ⟨met.1, ih met.2⟩
      · rename_i other
        rw [if_neg other] at met
        exact ⟨met.1, ih met.2⟩

theorem close (isCloser : here.token = .closeBrace)
    (met : AreMet (depth + 1) (here :: rest) frames) : AreMet depth rest frames := by
  have noOpener : here.token ≠ .openBrace := by simp [isCloser]
  induction frames generalizing depth with
  | nil => trivial
  | cons frame frames ih =>
      simp only [AreMet, Lexeme.afterBrace?_cons, if_neg noOpener, if_pos isCloser] at met ⊢
      split
      · rename_i curly
        rw [if_pos curly] at met
        exact ⟨met.1, ih met.2⟩
      · rename_i other
        rw [if_neg other] at met
        exact ⟨met.1, ih met.2⟩

end Frame.AreMet

/-! ## Tokens and their roles -/

/-- What a lexeme that has a role in the grammar is to the check of the formula. -/
structure Token.Plays (token : Token) (role : Role) : Prop where
  passed : token.isPassedOver = true ↔ role = .blank
  script : token.isScript = true ↔ role = .caret ∨ role = .underscore
  sign : token.isSign = true ↔ role = .sign ∨ role = .plusMinus
  opener : token = .openBrace ↔ role = .opens .curly
  closer : token = .closeBrace ↔ role = .closes .curly
  ends : role = .mark ∨ (∃ bracket, role = .closes bracket) → ∀ (offset : Nat) (source : Text)
    (rest : List Lexeme), Lexeme.beginsArgument (⟨offset, token, source⟩ :: rest) = false

namespace Token.Plays

variable {here : Lexeme} {rest : List Lexeme} {role : Role} (plays : here.token.Plays role)

include plays

theorem visible (other : role ≠ .blank) : here.token.isPassedOver = false :=
  Bool.eq_false_iff.2 fun passed => other (plays.passed.1 passed)

theorem pass {frames : List Frame} {depth : Nat} (noOpener : role ≠ .opens .curly)
    (noCloser : role ≠ .closes .curly) (met : Frame.AreMet depth (here :: rest) frames) :
    Frame.AreMet depth rest frames :=
  met.pass (fun isOpener => noOpener (plays.opener.1 isOpener))
    fun isCloser => noCloser (plays.closer.1 isCloser)

/-- No argument begins with an operator or a closing bracket. -/
theorem refuse (ends : role = .mark ∨ ∃ bracket, role = .closes bracket) :
    Lexeme.Refuse (here :: rest) := by
  obtain ⟨noBlank, noScript, noSign⟩ : role ≠ .blank ∧ ¬ (role = .caret ∨ role = .underscore) ∧
      ¬ (role = .sign ∨ role = .plusMinus) := by
    rcases ends with rfl | ⟨bracket, rfl⟩ <;> simp
  exact Lexeme.refuse_of_visible (plays.visible noBlank)
    (Bool.eq_false_iff.2 fun isScript => noScript (plays.script.1 isScript))
    (Bool.eq_false_iff.2 fun isSign => noSign (plays.sign.1 isSign))
    (plays.ends ends here.offset here.source rest)

end Token.Plays

/-! ## Steps -/

namespace Mode.IsMet

variable {here : Lexeme} {rest lexemes : List Lexeme} {role : Role} {mode behind : Mode}
  {limits : Limits}

/-- Where the lexemes begin no argument, none is expected. -/
theorem closes (met : mode.IsMet lexemes) (refuse : Lexeme.Refuse lexemes)
    (closes : (Grammar.formula .written).closes mode = true) :
    (Grammar.formula .accepted).closes mode = true := by
  cases mode with
  | function | operand =>
      rw [IsMet, refuse.lacks] at met
      cases met
  | signed =>
      rw [IsMet, refuse.begins] at met
      cases met
  | _ => exact closes

theorem of_closes (closes : (Grammar.formula .accepted).closes mode = true)
    (lexemes : List Lexeme) : mode.IsMet lexemes := by
  cases mode <;> trivial

/-- An argument does not begin with an operator. -/
theorem next_accepted (met : mode.IsMet (here :: rest)) (plays : here.token.Plays role)
    (isNext : (Grammar.formula .written).next mode limits role = some behind) :
    (Grammar.formula .accepted).next mode limits role = some behind := by
  by_cases mark : role = .mark
  · subst mark
    have refuse : Lexeme.Refuse (here :: rest) := plays.refuse (.inl rfl)
    cases mode with
    | function | operand =>
        rw [IsMet, refuse.lacks] at met
        cases met
    | signed =>
        rw [IsMet, refuse.begins] at met
        cases met
    | _ => exact isNext
  · cases mode <;> cases role <;> first | exact isNext | exact absurd rfl mark

/-- Where nothing was expected, an argument is expected behind a function only. -/
theorem of_afterIdle (complete : ∀ isLog, role = .function isLog → Lexeme.lacksArgument rest = false)
    (noCall : ∀ applied, role ≠ .call applied)
    (isNext : Grammar.afterIdle .written limits role = some behind) : behind.IsMet rest := by
  cases role with
  | function isLog =>
      simp only [Grammar.afterIdle] at isNext
      split at isNext <;> cases isNext
      exact complete isLog rfl
  | call applied => exact absurd rfl (noCall applied)
  | underscore | «opens» _ | closes _ => cases isNext
  | _ =>
      cases isNext
      trivial

/-- Where an argument was expected, it is still expected behind a sign or another function. -/
theorem of_afterOperand {chain : Chain}
    (complete : ∀ isLog, role = .function isLog → Lexeme.lacksArgument rest = false)
    (noCall : ∀ applied, role ≠ .call applied)
    (begins : role = .sign ∨ role = .plusMinus →
      Lexeme.beginsArgument (Lexeme.fromOperand rest) = true)
    (isNext : Grammar.afterOperand .written limits chain role = some behind) :
    behind.IsMet rest := by
  cases role with
  | function isLog =>
      simp only [Grammar.afterOperand] at isNext
      split at isNext <;> cases isNext
      exact complete isLog rfl
  | call applied => exact absurd rfl (noCall applied)
  | sign =>
      cases isNext
      exact begins (.inl rfl)
  | plusMinus =>
      simp only [Grammar.afterOperand] at isNext
      split at isNext <;> cases isNext
      exact begins (.inr rfl)
  | blank | caret | underscore | point | «opens» _ | closes _ => cases isNext
  | _ =>
      cases isNext
      trivial

/-- Blanks are passed over. -/
theorem of_isPassedOver (passed : here.token.isPassedOver = true)
    (met : mode.IsMet (here :: rest)) : mode.IsMet rest := by
  cases mode with
  | function | operand => rwa [IsMet, Lexeme.lacksArgument_of_isPassedOver passed] at met
  | signed => rwa [IsMet, Lexeme.fromOperand_of_isPassedOver passed] at met
  | script | base =>
      rw [IsMet, Lexeme.afterScript?_of_isPassedOver passed] at met
      exact met
  | _ => trivial

/-- Behind a glyph that is no bracket. -/
theorem next (met : mode.IsMet (here :: rest)) (plays : here.token.Plays role)
    (complete : ∀ isLog, role = .function isLog → Lexeme.lacksArgument rest = false)
    (noCall : ∀ applied, role ≠ .call applied)
    (isNext : (Grammar.formula .written).next mode limits role = some behind) :
    behind.IsMet rest := by
  by_cases blank : role = .blank
  · subst blank
    rw [Grammar.next_blank] at isNext
    cases isNext
    exact met.of_isPassedOver (plays.passed.2 rfl)
  · have visible := plays.visible blank
    have idle (isSame : Grammar.afterIdle .written limits role = some behind) : behind.IsMet rest :=
      of_afterIdle complete noCall isSame
    -- In front of a sign the argument begins behind it.
    have operand (chain : Chain) (found : Lexeme.lacksArgument (here :: rest) = false)
        (isSame : Grammar.afterOperand .written limits chain role = some behind) :
        behind.IsMet rest := by
      refine of_afterOperand complete noCall (fun isSign => ?_) isSame
      have noScript : here.token.isScript = false := by
        rw [Bool.eq_false_iff, Ne, plays.script]
        rcases isSign with rfl | rfl <;> simp
      rw [Lexeme.lacksArgument_of_visible visible noScript, Lexeme.lacksFromBase,
        plays.sign.2 isSign] at found
      simpa using found
    have script (isScript : role = .caret ∨ role = .underscore)
        (found : Lexeme.lacksArgument (here :: rest) = false) :
        ∀ after, Lexeme.afterScript? rest = some after → Lexeme.lacksArgument after = false := by
      intro after isAfter
      rwa [Lexeme.lacksArgument_of_isScript visible (plays.script.2 isScript), isAfter] at found
    have single (met : ∀ after, Lexeme.afterScript? (here :: rest) = some after →
          Lexeme.lacksArgument after = false) (noBrace : role ≠ .opens .curly) :
        Lexeme.lacksArgument rest = false :=
      met rest (by
        rw [Lexeme.afterScript?_of_visible visible,
          if_neg fun isBrace => noBrace (plays.opener.1 isBrace)])
    cases mode with
    | function isLog chain =>
        cases role with
        | caret =>
            simp only [Grammar.formula] at isNext
            split at isNext <;> cases isNext
            exact script (.inl rfl) met
        | underscore =>
            simp only [Grammar.formula] at isNext
            split at isNext <;> cases isNext
            exact script (.inr rfl) met
        | blank => exact absurd rfl blank
        | _ => exact operand chain met isNext
    | operand chain => cases role <;> first | exact operand chain met isNext | exact absurd rfl blank
    | signed chain =>
        cases role with
        | blank => exact absurd rfl blank
        | sign | plusMinus => cases isNext
        | _ =>
            refine @of_afterOperand rest _ behind limits chain complete noCall ?_ isNext
            simp
    | script =>
        cases role with
        | digit | letter =>
            cases isNext
            exact single met (by simp)
        | blank => exact absurd rfl blank
        | _ => cases isNext
    | base =>
        cases role with
        | digit | letter | euler =>
            cases isNext
            exact single met (by simp)
        | value spelled =>
            cases spelled <;> cases isNext
            exact single met (by simp)
        | blank => exact absurd rfl blank
        | _ => cases isNext
    | arguments more chain =>
        cases role with
        | value spelled =>
            cases spelled <;> cases isNext
            cases more <;> trivial
        | blank => exact absurd rfl blank
        | _ => first | (cases isNext; cases more <;> trivial) | cases isNext
    | radicand chain =>
        cases role with
        | value spelled =>
            cases spelled <;> cases isNext
            trivial
        | blank => exact absurd rfl blank
        | _ => first | (cases isNext; trivial) | cases isNext
    | _ =>
        cases role <;> first
          | exact idle isNext
          | exact absurd rfl blank
          | (cases isNext; trivial)
          | cases isNext

end Mode.IsMet

/-- When a bracket is closed an argument is expected only if a brace was the operand of a script. -/
theorem Grammar.isMet_of_opens {mode resume : Mode} {limits inner : Limits} {bracket : Bracket}
    (opens : (formula .written).opens mode limits bracket = some (resume, inner)) :
    (∀ lexemes, resume.IsMet lexemes) ∨ bracket = .curly ∧ (mode = .script ∨ mode = .base) := by
  cases mode with
  | script =>
      cases bracket <;> cases opens
      exact .inr ⟨rfl, .inl rfl⟩
  | base =>
      cases bracket <;> cases opens
      exact .inr ⟨rfl, .inr rfl⟩
  | function | operand | signed | atomExponent | radicand =>
      cases bracket <;> cases opens <;> exact .inl fun _ => trivial
  | arguments more chain =>
      cases bracket <;> cases opens
      cases more <;> exact .inl fun _ => trivial
  | _ =>
      cases opens
      exact .inl fun _ => trivial

theorem Grammar.closes_of_step {grammar : Grammar} {state next : State} {bracket : Bracket}
    (moves : grammar.step state (.closes bracket) = some next) :
    grammar.closes state.mode = true := by
  obtain ⟨mode, limits, frames⟩ := state
  obtain ⟨frame, below, -, -, closed, -⟩ := exists_of_step_closes moves
  exact closed

namespace State.IsMet

variable {here : Lexeme} {rest later : List Lexeme} {state next : State} {role : Role}
  {bracket : Bracket}

theorem opens (noBrace : bracket ≠ .curly) (met : Frame.AreMet 0 later state.frames)
    (moves : (Grammar.formula .written).step state (.opens bracket) = some next) :
    next.IsMet later := by
  obtain ⟨mode, limits, frames⟩ := state
  obtain ⟨resume, inner, opens, rfl⟩ := Grammar.exists_of_step_opens moves
  refine ⟨trivial, ?_⟩
  rw [Frame.AreMet, if_neg noBrace]
  exact ⟨(Grammar.isMet_of_opens opens).resolve_right fun isBrace => noBrace isBrace.1, met⟩

theorem closes (noBrace : bracket ≠ .curly) (met : Frame.AreMet 0 later state.frames)
    (settled : (Grammar.formula .accepted).closes state.mode = true)
    (moves : (Grammar.formula .written).step state (.closes bracket) = some next) :
    (Grammar.formula .accepted).step state (.closes bracket) = some next ∧
      (∀ lexemes, next.mode.IsMet lexemes) ∧ Frame.AreMet 0 later next.frames := by
  obtain ⟨mode, limits, frames⟩ := state
  obtain ⟨frame, below, rfl, rfl, _, rfl⟩ := Grammar.exists_of_step_closes moves
  rw [Frame.AreMet, if_neg noBrace] at met
  exact ⟨Grammar.step_closes settled below, met⟩

/-- A token with one role keeps what the check has found, and goes on as in an accepted formula. -/
theorem step (met : state.IsMet (here :: rest)) (plays : here.token.Plays role)
    (complete : ∀ isLog, role = .function isLog → Lexeme.lacksArgument rest = false)
    (noCall : ∀ applied, role ≠ .call applied)
    (moves : (Grammar.formula .written).step state role = some next) :
    (Grammar.formula .accepted).step state role = some next ∧ next.IsMet rest := by
  cases isBracket : role.isBracket with
  | false =>
      obtain ⟨mode, limits, frames⟩ := state
      obtain ⟨behind, isNext, rfl⟩ := Grammar.exists_of_step isBracket moves
      have noBrace (bracket : Bracket) : role ≠ .opens bracket ∧ role ≠ .closes bracket := by
        constructor <;> rintro rfl <;> cases isBracket
      exact ⟨Grammar.step_of_next isBracket (met.mode.next_accepted plays isNext) frames,
        met.mode.next plays complete noCall isNext,
        plays.pass (noBrace .curly).1 (noBrace .curly).2 met.frames⟩
  | true =>
      cases role with
      | «opens» bracket =>
          refine ⟨moves, ?_⟩
          by_cases isBrace : bracket = .curly
          · subst isBrace
            have opener := plays.opener.2 rfl
            obtain ⟨mode, limits, frames⟩ := state
            obtain ⟨resume, inner, opens, rfl⟩ := Grammar.exists_of_step_opens moves
            refine ⟨trivial, ?_⟩
            rw [Frame.AreMet, if_pos rfl]
            refine ⟨fun after isAfter => ?_, met.frames.open opener⟩
            rcases Grammar.isMet_of_opens opens with free | ⟨_, isScript⟩
            · exact free after
            · have operand : Lexeme.afterScript? (here :: rest) = some after := by
                rw [Lexeme.afterScript?_of_visible (plays.visible (by simp)), if_pos opener, isAfter]
              rcases isScript with rfl | rfl <;> cases opens <;> exact met.mode after operand
          · exact opens isBrace (plays.pass (by simpa) (by simp) met.frames) moves
      | closes bracket =>
          have refuse : Lexeme.Refuse (here :: rest) := plays.refuse (.inr ⟨bracket, rfl⟩)
          obtain ⟨mode, limits, frames⟩ := state
          obtain ⟨frame, below, rfl, rfl, closed, rfl⟩ := Grammar.exists_of_step_closes moves
          have settled := met.mode.closes refuse closed
          by_cases isBrace : frame.bracket = .curly
          · have closer : here.token = .closeBrace := plays.closer.2 (by rw [isBrace])
            have frames := met.frames
            rw [Frame.AreMet, if_pos isBrace] at frames
            refine ⟨Grammar.step_closes settled below, frames.1 rest ?_, frames.2.close closer⟩
            rw [Lexeme.afterBrace?_cons, if_neg (by simp [closer]), if_pos closer]
          · obtain ⟨moves', mode, frames⟩ := closes isBrace
              (plays.pass (by simp) (by simpa) met.frames) settled moves
            exact ⟨moves', mode rest, frames⟩
      | _ => cases isBracket

end State.IsMet

end TexCalc
