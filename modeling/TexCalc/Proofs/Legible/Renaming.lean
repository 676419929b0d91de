import TexCalc.Proofs.Legible.LogBases

/-!
# Renaming the commands of a legible formula

What a command is renamed to plays the part of the command.  The name of a function stands between
blanks and waits for its argument as the command did, and the letters of names are none of the
letters that stand for themselves.
-/

namespace TexCalc

/-- What a role becomes when commands are renamed. -/
inductive Role.Renamed : Role → Role → Prop where
  | same (role : Role) (plain : role.isCommand = false) : Renamed role role
  | function (isLog applied : Bool) : Renamed (.function isLog) (.call applied)
  | value : Renamed (.value false) (.value true)
  | plusMinus : Renamed .plusMinus .sign

/-- Whether the target form of a command is a name or an operator of the target language. -/
def Command.hasTarget : Command → Bool
  | function target => Vocabulary.functionNames.any (· = target)
  | constant target =>
      target = ['e'] || (Vocabulary.standard.namesOf .constant).any (·.text = target)
  | operator sign => sign = '*' || sign = '/'
  | _ => true

theorem Command.hasTarget_of_named? {name : Text} {command : Command}
    (isNamed : named? name = some command) : command.hasTarget = true := by
  have all : table.all (·.2.hasTarget) = true := by decide
  exact List.all_eq_true.1 all _ (mem_table_of_named? isNamed)

namespace Glyph

variable {name text : Text} {role : Role} {options : Options}

/-- What is written for a command in front of any text. -/
structure Renames (letter : Char) (role : Role) (glyph : Glyph) (gap : Text) : Prop where
  isGap : gap = [] ∨ gap = [' ']
  plain : ∀ name, glyph ≠ .word name
  weight : glyph.weight letter = 0
  ends : ∀ rest : Text, Text.endsRun Text.isNameChar (gap ++ (glyph.source ++ rest)) = true
  exists_role : ∀ rest : Text, ∃ role', glyph.role? (gap ++ rest) = some role' ∧ role.Renamed role'

theorem Renames.call {letter : Char} {callable : Callable} (isStandard : callable.isStandard = true)
    (isLog : Bool) : Renames letter (.function isLog) (.call callable) [' '] where
  isGap := .inr rfl
  plain _ := by simp
  weight := rfl
  ends _ := rfl
  exists_role rest := by
    refine ⟨.call (Text.isApplied (' ' :: rest)), ?_, .function isLog _⟩
    have ends : Text.endsRun Text.isNameChar (' ' :: rest) = true := rfl
    simp [role?, isStandard, ends]

theorem Renames.char {letter c : Char} {role' : Role} (noWord : c.isAlphanum = false)
    (isRole : Role.ofChar? c = some role') (isRenamed : role.Renamed role') :
    Renames letter role (.char c) [] where
  isGap := .inl rfl
  plain _ := by simp
  weight := weight_of_not_isAlpha letter (Bool.or_eq_false_iff.1 noWord).1
  ends rest := by
    have noMark : c ≠ Parked.mark := by
      rintro rfl
      cases isRole
    simp [Text.endsRun, source, Text.isNameChar, noWord, noMark]
  exists_role rest :=
    ⟨role', (role?_of_not_isAlpha (Bool.or_eq_false_iff.1 noWord).1 _).trans isRole, isRenamed⟩

theorem Renames.value {letter : Char} {name : Name}
    (isMember : name ∈ Vocabulary.standard.namesOf .constant) :
    Renames letter (.value false) (.value name) [' '] where
  isGap := .inr rfl
  plain _ := by simp
  weight := rfl
  ends _ := rfl
  exists_role rest := ⟨.value true, if_pos ⟨isMember, rfl⟩, .value⟩

theorem Renames.euler {letter : Char} (other : letter ≠ 'e') :
    Renames letter .euler (.char 'e') [' '] where
  isGap := .inr rfl
  plain _ := by simp
  weight := by simp [Glyph.weight, Ne.symm other]
  ends _ := rfl
  exists_role rest := by
    have blank : Text.StandsFor (' ' :: rest) [' '] := .of_ends rfl fun applied => by cases applied
    have none : Text.beginsName ('e' :: ' ' :: rest) = false := blank.beginsName (by decide)
    exact ⟨.euler, by rw [List.singleton_append, role?, none]; rfl, .same _ rfl⟩

/-- What is written for a command plays its part. -/
theorem exists_renames {letter : Char} (other : letter ≠ 'e') (options : Options)
    (isWord : Role.ofWord? name = some role) (noFraction : role ≠ .fraction) (noRoot : role ≠ .root) :
    ∃ glyph gap, Command.rename options name = gap ++ (glyph.source ++ gap) ∧
      Renames letter role glyph gap := by
  obtain ⟨-, rfl⟩ | ⟨-, -, rfl⟩ | ⟨command, isNamed, isRole, -, -⟩ := cases_of_ofWord? isWord
  · exact absurd rfl noFraction
  · exact absurd rfl noRoot
  have isRenamed : Command.rename options name = command.target options ('\\' :: name) := by
    rw [Command.rename, isNamed]
  have hasTarget := Command.hasTarget_of_named? isNamed
  cases command with
  | structural | spacing => cases isRole
  | function target =>
      cases isRole
      obtain ⟨callable, rfl, isStandard⟩ := Callable.exists_of_mem (by simpa [Command.hasTarget] using hasTarget)
      exact ⟨_, _, isRenamed, .call isStandard false⟩
  | reciprocal ratio =>
      cases isRole
      exact ⟨.call (.parked ⟨ratio, false⟩), _, isRenamed, .call rfl false⟩
  | log =>
      cases isRole
      have isMember : options.logBase.function ∈ Vocabulary.functionNames := by
        cases options.logBase <;> decide
      obtain ⟨callable, isText, isStandard⟩ := Callable.exists_of_mem isMember
      refine ⟨.call callable, [' '], ?_, .call isStandard true⟩
      rw [isRenamed, source, isText]
      rfl
  | constant target =>
      rw [Role.ofCommand?] at isRole
      split at isRole <;> cases isRole
      · rename_i isEuler
        subst isEuler
        exact ⟨_, _, isRenamed, .euler other⟩
      · rename_i noEuler
        have isConstant : (Vocabulary.standard.namesOf .constant).any (·.text = target) = true := by
          simpa [Command.hasTarget, noEuler] using hasTarget
        obtain ⟨constant, isMember, isText⟩ := List.any_eq_true.1 isConstant
        obtain rfl := of_decide_eq_true isText
        exact ⟨_, _, isRenamed, .value isMember⟩
  | operator sign =>
      cases isRole
      have isSign : sign = '*' ∨ sign = '/' := by simpa [Command.hasTarget] using hasTarget
      refine ⟨.char sign, [], isRenamed, ?_⟩
      rcases isSign with rfl | rfl <;> exact .char rfl rfl (.same _ rfl)
  | plusMinus =>
      cases isRole
      refine ⟨.char options.plusMinus.char, [], isRenamed, ?_⟩
      cases options.plusMinus <;> exact .char rfl rfl .plusMinus
  | minusPlus =>
      cases isRole
      refine ⟨.char options.plusMinus.opposite.char, [], isRenamed, ?_⟩
      cases options.plusMinus <;> exact .char rfl rfl .plusMinus

end Glyph

/-! ## Modes behind names -/

/-- The mode in which a function is no command any more. -/
def Mode.named : Mode → Mode
  | .function _ chain => .function false chain
  | mode => mode

theorem Mode.named_of_isFunction {mode : Mode} (noFunction : mode.isFunction = false) :
    mode.named = mode := by
  cases mode <;> first | rfl | cases noFunction

namespace Grammar

variable {mode behind : Mode} {limits : Limits} {role role' : Role} {chain : Chain}

theorem afterIdle_renamed (renamed : role.Renamed role')
    (isNext : afterIdle .unbased limits role = some behind) :
    afterIdle .unbased limits role' = some behind.named := by
  cases renamed with
  | same role plain =>
      have same : behind.named = behind := by
        cases role <;> simp only [afterIdle] at isNext <;> (try split at isNext) <;>
          cases isNext <;> first | rfl | cases plain
      rwa [same]
  | function isLog applied =>
      simp only [afterIdle] at isNext
      split at isNext <;> cases isNext
      rename_i isFree
      simp [afterIdle, Stage.allowsCall, Stage.unbased, isFree, Mode.named]
  | _ =>
      cases isNext
      rfl

theorem afterOperand_renamed (renamed : role.Renamed role')
    (isNext : afterOperand .unbased limits chain role = some behind) :
    afterOperand .unbased limits chain role' = some behind.named := by
  cases renamed with
  | same role plain =>
      have same : behind.named = behind := by
        cases role <;> simp only [afterOperand] at isNext <;> (try split at isNext) <;>
          cases isNext <;> first | rfl | cases plain
      rwa [same]
  | function isLog applied =>
      simp only [afterOperand] at isNext
      split at isNext <;> cases isNext
      rename_i isFree
      cases chain <;>
        simp [afterOperand, Stage.allowsCall, Stage.allowsBehind, Stage.unbased, isFree, Mode.named]
  | plusMinus =>
      simp only [afterOperand] at isNext
      split at isNext <;> cases isNext
      rfl
  | value =>
      cases isNext
      rfl

/-- What may follow a command may follow a name. -/
theorem next_renamed (free : mode.isFree = true) (renamed : role.Renamed role')
    (isNext : (formula .unbased).next mode limits role = some behind) :
    (formula .unbased).next mode.named limits role' = some behind.named := by
  have idle (isSame : afterIdle .unbased limits role = some behind) :=
    afterIdle_renamed renamed isSame
  have operand (chain : Chain) (isSame : afterOperand .unbased limits chain role = some behind) :=
    afterOperand_renamed renamed isSame
  cases mode with
  | base | arguments | radicand => cases free
  | function isLog chain =>
      cases renamed with
      | same role plain =>
          cases role with
          | blank =>
              cases isNext
              rfl
          | caret =>
              simp only [formula] at isNext
              split at isNext <;> cases isNext
              rename_i unbased
              exact if_neg unbased
          | underscore => simp [formula, Stage.unbased] at isNext
          | _ => exact operand chain isNext
      | _ => exact operand chain isNext
  | operand chain | signed chain =>
      cases renamed with
      | same role plain =>
          cases role <;> first | exact operand chain isNext | (cases isNext <;> rfl)
      | _ => first | exact operand chain isNext | cases isNext
  | _ =>
      cases renamed with
      | same role plain =>
          cases role <;> first | exact idle isNext | (cases isNext <;> rfl)
      | _ => first | exact idle isNext | cases isNext

/-- A step over what a glyph is renamed to. -/
theorem step_renamed {state next : State} (free : state.IsFree) (renamed : role.Renamed role')
    (moves : (formula .unbased).step state role = some next) :
    (formula .unbased).step { state with mode := state.mode.named } role' =
      some { next with mode := next.mode.named } := by
  cases isBracket : role.isBracket with
  | false =>
      obtain ⟨behind, isNext, rfl⟩ := exists_of_step isBracket moves
      have plain : role'.isBracket = false := by
        cases renamed <;> exact isBracket
      exact step_of_next plain (next_renamed free.mode renamed isNext) state.frames
  | true =>
      cases renamed with
      | same role _ =>
          cases role with
          | «opens» bracket =>
              obtain ⟨resume, inner, opens, rfl⟩ := exists_of_step_opens moves
              have opens' : (formula .unbased).opens state.mode.named state.limits bracket =
                  some (resume, inner) := by
                rw [← opens]
                cases state.mode <;> rfl
              rw [step, opens']
              rfl
          | closes bracket =>
              obtain ⟨mode, limits, frames⟩ := state
              obtain ⟨frame, below, rfl, rfl, closes, rfl⟩ := exists_of_step_closes moves
              have closes' : (formula .unbased).closes mode.named = true := by
                cases mode <;> exact closes
              have noFunction := (free.frames frame List.mem_cons_self).2.1
              rw [Mode.named_of_isFunction noFunction]
              exact step_closes closes' below
          | _ => cases isBracket
      | _ => cases isBracket

end Grammar

namespace Text

namespace Follows

variable {letter : Char} {state next : State} {count : Nat} {text : Text} {role : Role}

/-- Neither a base nor a structure is left. -/
theorem ne_of_unbased (moves : (Grammar.formula .unbased).step state role = some next) :
    role ≠ .underscore ∧ role ≠ .fraction ∧ role ≠ .root := by
  obtain ⟨mode, limits, frames⟩ := state
  refine ⟨?_, ?_, ?_⟩
  · rintro rfl
    obtain ⟨behind, isNext, -⟩ := Grammar.exists_of_step rfl moves
    obtain ⟨chain, rfl⟩ := exists_log_of_underscore isNext
    simp [Grammar.formula, Stage.unbased] at isNext
  · rintro rfl
    obtain ⟨behind, isNext, -⟩ := Grammar.exists_of_step rfl moves
    cases (opens_of_structure (.inl rfl) isNext).1
  · rintro rfl
    obtain ⟨behind, isNext, -⟩ := Grammar.exists_of_step rfl moves
    cases (opens_of_structure (.inr rfl) isNext).1

/-- A legible formula whose commands are renamed is legible and has no commands any more. -/
theorem renameCommands (other : letter ≠ 'e') (options : Options) (free : state.IsFree)
    (follows : Follows (.formula .unbased) letter state count text) :
    Follows (.formula .unbased) letter { state with mode := state.mode.named } count
        (text.renameCommands options) ∧
      (text.renameCommands options).StandsFor text ∧ '\\' ∉ text.renameCommands options := by
  induction follows with
  | @done mode limits count closes =>
      have closes' : (Grammar.formula .unbased).closes mode.named = true := by
        cases mode <;> exact closes
      have empty : Text.renameCommands options [] = [] := by simp [Text.renameCommands, pieces]
      rw [empty]
      exact ⟨.done count closes', .refl [], List.not_mem_nil⟩
  | @glyph state next glyph rest role count isRole moves later ih =>
      obtain ⟨noBase, noFraction, noRoot⟩ := ne_of_unbased moves
      obtain ⟨follows, standsFor, noBack⟩ := ih (Grammar.isFree_of_step rfl free noBase moves)
      by_cases isWord : ∃ name, glyph = .word name
      · obtain ⟨name, rfl⟩ := isWord
        obtain ⟨ends, isWord⟩ := Glyph.exists_word isRole
        obtain ⟨letters, nonempty⟩ := Glyph.all_isAlpha_of_ofWord? isWord
        obtain ⟨target, gap, isTarget, renames⟩ :=
          Glyph.exists_renames other options isWord noFraction noRoot
        obtain ⟨role', isRole', renamed⟩ := renames.exists_role (rest.renameCommands options)
        have blank : gap.all (· == ' ') = true ∧ '\\' ∉ gap := by
          rcases renames.isGap with rfl | rfl <;> decide
        have whole := blanks_append blank.1
          (.glyph isRole' (Grammar.step_renamed free renamed moves) (follows.blanks_append blank.1))
        rw [Glyph.source, List.cons_append, renameCommands_word letters nonempty ends, isTarget,
          List.append_assoc, List.append_assoc]
        refine ⟨?_, .of_ends (renames.ends _) (fun applied => by cases applied), ?_⟩
        · rwa [renames.weight] at whole
        · simp [blank.2, Glyph.not_mem_source isRole' renames.plain, noBack]
      · have plain : role.isCommand = false := by
          rw [Bool.eq_false_iff]
          exact fun isCommand => isWord (Glyph.exists_command isRole isCommand)
        have noBack' := Glyph.not_mem_source isRole (not_exists.1 isWord)
        rw [renameCommands_append noBack']
        refine ⟨.glyph_of_standsFor isRole (Grammar.step_renamed free (.same role plain) moves) follows
          standsFor, standsFor.append _, ?_⟩
        exact List.not_mem_append noBack' noBack

end Follows

end Text

end TexCalc
