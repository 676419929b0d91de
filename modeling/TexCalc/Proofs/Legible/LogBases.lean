import TexCalc.Proofs.Legible.BareArguments
import TexCalc.Proofs.Linear.Bases
import TexCalc.Proofs.Words.Kept

/-!
# Inverse functions and bases in a legible formula

Behind the exponent of an inverse function its argument can be read.  The name of the function with
that argument in parentheses may stand where the command stood.

The base of a logarithm and the argument behind it can be read as well.  They hold no base of their
own, and the quotient that is written for them may stand where the command stood.  Behind the last
of these arguments no base is left.
-/

namespace TexCalc

/-! ## Inverse functions -/

namespace Text

/-- What a step writes stands for what it reads, if only commands are replaced. -/
theorem StandsFor.of_plain {step : Text → Text} (nil : step [] = [])
    (plain : ∀ c rest, c ≠ '\\' → step (c :: rest) = c :: step rest)
    (command : ∀ rest, (step ('\\' :: rest)).endsRun Text.isNameChar = true) (text : Text) :
    (step text).StandsFor text := by
  induction text with
  | nil => rw [nil]; exact .refl []
  | cons c rest ih =>
      by_cases back : c = '\\'
      · subst back
        exact .of_ends (command rest) fun applied => by cases applied
      · rw [plain c rest back]
        exact ih.append [c]

theorem standsFor_resolveInverses (vocabulary : Vocabulary) (text : Text) :
    (text.resolveInverses vocabulary).StandsFor text := by
  refine .of_plain (by rw [resolveInverses]) (fun c rest plain => resolveInverses_plain plain rest)
    (fun rest => ?_) text
  rw [resolveInverses_eq]
  split
  · rfl
  · split <;> rfl

/-- The letters of a word end where the word ends. -/
theorem eq_of_word_eq {name name' rest rest' : Text} (letters : name.all Char.isAlpha = true)
    (letters' : name'.all Char.isAlpha = true) (ends : rest.endsRun Char.isAlpha = true)
    (ends' : rest'.endsRun Char.isAlpha = true) (same : name ++ rest = name' ++ rest') :
    name = name' ∧ rest = rest' := by
  have isName := congrArg (List.takeWhile Char.isAlpha) same
  rw [takeWhile_append_of_endsRun letters ends, takeWhile_append_of_endsRun letters' ends'] at isName
  subst isName
  exact ⟨rfl, List.append_cancel_left same⟩

namespace Follows

variable {stage : Stage} {letter : Char} {mode : Mode} {limits : Limits} {chain : Chain}
  {frames : List Frame} {state : State} {count : Nat} {text rest : Text} {c : Char}

/-- A mark that a text begins with, blanks apart. -/
theorem of_dropLead? {grammar : Grammar} (follows : Follows grammar letter state count text)
    (found : dropLead? text.trimStart [c] = some rest) (noLetter : c.isAlpha = false)
    (noMark : c ≠ Parked.mark) (noBack : c ≠ '\\') :
    ∃ role next, Role.ofChar? c = some role ∧ grammar.step state role = some next ∧
      Follows grammar letter next count rest := by
  have trimmed := follows.trimStart
  rw [dropLead?_eq_some_iff.1 found] at trimmed
  exact trimmed.exists_char noLetter noMark noBack

/-- Behind the exponent of an inverse function its argument is expected. -/
theorem of_afterMinusOne? {isLog : Bool}
    (follows : Follows (.formula stage) letter ⟨.function isLog chain, limits, frames⟩ count text)
    (found : text.afterMinusOne? = some rest) :
    chain ≠ .based ∧ Follows (.formula stage) letter ⟨.operand .raised, limits, frames⟩ count rest := by
  simp only [afterMinusOne?, List.foldlM_cons, List.foldlM_nil] at found
  obtain ⟨script, isScript, found⟩ := Option.bind_eq_some_iff.1 found
  obtain ⟨sign, isSign, found⟩ := Option.bind_eq_some_iff.1 found
  obtain ⟨digit, isDigit, found⟩ := Option.bind_eq_some_iff.1 found
  obtain ⟨closer, isCloser, found⟩ := Option.bind_eq_some_iff.1 found
  obtain ⟨ending, isEnding, found⟩ := Option.bind_eq_some_iff.1 found
  cases found
  obtain ⟨_, _, isRole, moves, raised⟩ :=
    follows.of_dropLead? isScript (by decide) (by decide) (by decide)
  cases isRole
  obtain ⟨_, isNext, rfl⟩ := Grammar.exists_of_step rfl moves
  simp only [Grammar.formula] at isNext
  split at isNext <;> cases isNext
  rename_i unbased
  obtain ⟨_, _, isRole, moves, braced⟩ :=
    raised.of_dropLead? isSign (by decide) (by decide) (by decide)
  cases isRole
  cases moves
  obtain ⟨_, _, isRole, moves, minus⟩ :=
    braced.of_dropLead? isDigit (by decide) (by decide) (by decide)
  cases isRole
  cases moves
  obtain ⟨_, _, isRole, moves, one⟩ :=
    minus.of_dropLead? isCloser (by decide) (by decide) (by decide)
  cases isRole
  cases moves
  obtain ⟨_, _, isRole, moves, closed⟩ :=
    one.of_dropLead? isEnding (by decide) (by decide) (by decide)
  cases isRole
  cases moves
  exact ⟨unbased, closed⟩

/-- The inverse of a trigonometric function is the name of a function. -/
theorem exists_callable_of_inverse? {name inverse : Text} (isName : name ∈ trigonometric)
    (isInverse : Command.inverse? name = some inverse) :
    ∃ callable : Callable, callable.text = inverse ∧ callable.isStandard = true := by
  have all : ∀ name ∈ trigonometric, ∀ inverse ∈ Command.inverse? name,
      inverse ∈ Vocabulary.functionNames ∨ ∃ parked ∈ Parked.all, parked.name = inverse := by
    decide
  rcases all name isName inverse isInverse with isMember | ⟨parked, -, isParked⟩
  · exact Callable.exists_of_mem isMember
  · exact ⟨.parked parked, isParked, rfl⟩

/-- Where an inverse function is found, a command for a function stands. -/
theorem of_inverseMark? {name : Text} {mark : Cut} {role : Role}
    (isRole : (Glyph.word name).role? text = some role)
    (found : inverseMark? ('\\' :: (name ++ text)) = some mark) :
    role = .function false ∧ text.afterMinusOne? = some mark.rest ∧
      ∃ callable : Callable, callable.text = mark.text ∧ callable.isStandard = true := by
  obtain ⟨ends, isWord⟩ := Glyph.exists_word isRole
  obtain ⟨letters, -⟩ := Glyph.all_isAlpha_of_ofWord? isWord
  obtain ⟨name', isName, rest, same, isAfter, isInverse⟩ := exists_of_inverseMark? found
  have all : ∀ name ∈ trigonometric, name.all Char.isAlpha = true ∧
      Role.ofWord? name = some (.function false) := by
    decide
  obtain ⟨rfl, rfl⟩ := eq_of_word_eq letters (all name' isName).1 ends
    (dropsPlain_of_afterMinusOne? isAfter).2 (List.cons.inj same).2
  rw [(all name isName).2] at isWord
  exact ⟨(Option.some.inj isWord).symm, isAfter, exists_callable_of_inverse? isName isInverse⟩

/-- A legible formula without its inverse functions is legible. -/
theorem resolveInverses (follows : Follows (.formula .resolved) letter state count text) :
    Follows (.formula .inverted) letter state count (text.resolveInverses .standard) := by
  have isEarlier : Stage.resolved.Within .inverted := .inr rfl
  induction length : text.length using Nat.strongRecOn generalizing text state count with
  | ind bound ih =>
    cases follows with
    | done count closes =>
        rw [Text.resolveInverses]
        exact .done count closes
    | @glyph _ next glyph rest role count isRole moves later =>
        have shorter : rest.length < bound := by
          have nonempty := List.length_pos_iff.2 (Glyph.source_ne_nil isRole)
          rw [List.length_append] at length
          omega
        have kept : Follows (.formula .inverted) letter state (glyph.weight letter + count)
            (glyph.source ++ rest.resolveInverses .standard) :=
          .glyph_of_standsFor isRole (Grammar.step_of_stage isEarlier moves)
            (ih rest.length shorter later rfl) (standsFor_resolveInverses .standard rest)
        by_cases isWord : ∃ name, glyph = .word name
        · obtain ⟨name, rfl⟩ := isWord
          rw [Glyph.source, List.cons_append, resolveInverses_eq]
          cases found : inverseMark? ('\\' :: (name ++ rest)) with
          | none =>
              have letters := (Glyph.all_isAlpha_of_ofWord? (Glyph.exists_word isRole).2).1
              have noBack : '\\' ∉ name := fun isMember =>
                absurd (List.all_eq_true.1 letters _ isMember) (by decide)
              simp only
              rwa [resolveInverses_append noBack]
          | some mark =>
              obtain ⟨rfl, isAfter, callable, isText, isStandard⟩ := of_inverseMark? isRole found
              obtain ⟨mode, limits, frames⟩ := state
              obtain ⟨mode', isNext, rfl⟩ := Grammar.exists_of_step rfl moves
              obtain ⟨chain, rfl⟩ := Grammar.exists_chain isNext
              obtain ⟨unbased, raised⟩ := later.of_afterMinusOne? isAfter
              obtain ⟨argument, first, second, isArgument, isSum, inside, behind⟩ :=
                raised.exists_bareArgument rfl rfl rfl
              have allowed : Stage.inverted.allowsBehind chain = true := by
                cases chain <;> first | rfl | exact absurd rfl unbased
              have isCall :=
                Grammar.next_call_of_function allowed (Grammar.next_of_stage isEarlier isNext)
              have same : limits.behind chain = limits.behind .raised := by
                cases chain <;> first | rfl | exact absurd rfl unbased
              have further : argument.rest.length < bound := by
                have taken := length_le_of_bareArgument? isArgument
                have marked := length_lt_of_inverseMark? found
                rw [Glyph.source, List.cons_append] at length
                omega
              have whole := blank_cons (call_append callable isStandard isCall
                (same ▸ inside.relax isEarlier (.refl _) (.refl _))
                (ih _ further behind rfl))
              simp only [isArgument]
              rw [show (Glyph.word name).weight letter = 0 from rfl, Nat.zero_add, ← isSum, ← isText]
              simpa only [List.cons_append, List.append_assoc] using whole
        · rwa [resolveInverses_append (Glyph.not_mem_source isRole (not_exists.1 isWord))]

end Follows

end Text

/-! ## Parts without bases -/

namespace Grammar

variable {mode behind : Mode} {limits limits' : Limits} {role : Role} {chain : Chain} {stage : Stage}

/-- Without bases no less may follow, whatever the limits of bases are. -/
theorem next_unbased (same : limits'.copied = limits.copied)
    (noBase : role = .underscore → limits.based = true)
    (isNext : (formula .inverted).next mode limits role = some behind) :
    (formula .unbased).next mode limits' role = some behind := by
  have idle (isSame : afterIdle .inverted limits role = some behind) :
      afterIdle .unbased limits' role = some behind := by
    cases role <;> simp only [afterIdle, Stage.allowsCall, same] at isSame ⊢ <;> exact isSame
  have operand (chain : Chain) (isSame : afterOperand .inverted limits chain role = some behind) :
      afterOperand .unbased limits' chain role = some behind := by
    cases role with
    | call applied =>
        obtain ⟨allowed, isSame⟩ := Option.ite_none_right_eq_some.1 isSame
        rw [Bool.and_eq_true, Stage.allowsCall, ← same] at allowed
        have anywhere : Stage.unbased.allowsBehind chain = true := by cases chain <;> rfl
        rw [afterOperand, anywhere, Bool.and_true]
        exact (if_pos allowed.1).trans isSame
    | _ =>
        simp only [afterOperand, same] at isSame ⊢
        exact isSame
  cases mode with
  | function isLog chain =>
      cases role with
      | underscore =>
          have isBased := noBase rfl
          simp [formula, isBased] at isNext
      | blank | caret => exact isNext
      | _ => exact operand chain isNext
  | operand chain | signed chain =>
      cases role <;> first | exact isNext | exact operand chain isNext
  | script | base | arguments | radicand => cases role <;> exact isNext
  | _ => cases role <;> first | exact isNext | exact idle isNext

theorem exists_opens_unbased {bracket : Bracket} {resume : Mode} {inner : Limits}
    (same : limits'.copied = limits.copied) (isBased : limits.based = true)
    (opens : (formula .inverted).opens mode limits bracket = some (resume, inner)) :
    ∃ inner', (formula .unbased).opens mode limits' bracket = some (resume, inner') ∧
      inner'.copied = inner.copied ∧ inner.based = true := by
  have behind (chain : Chain) : (limits.behind chain).based = true := by
    simp [Limits.behind, isBased]
  cases mode with
  | function | operand | signed | arguments | radicand =>
      cases bracket <;> cases opens <;> exact ⟨_, rfl, same, behind _⟩
  | script | atomExponent => cases bracket <;> cases opens <;> exact ⟨_, rfl, rfl, isBased⟩
  | base =>
      cases bracket <;> cases opens
      exact ⟨_, rfl, same, rfl⟩
  | _ =>
      cases opens
      exact ⟨_, rfl, same, isBased⟩

/-- In a part that belongs to a logarithm with a base there are no bases. -/
theorem simulates_unbased : (formula .unbased).Simulates (formula .inverted)
    fun place place' => place'.1 = place.1 ∧ place'.2.copied = place.2.copied ∧ place.2.based = true where
  closes isRelated closes := by
    obtain ⟨isMode, -⟩ := isRelated
    cases isMode
    exact closes
  next isRelated _ isNext := by
    obtain ⟨isMode, same, isBased⟩ := isRelated
    cases isMode
    exact ⟨_, next_unbased same (fun _ => isBased) isNext, rfl, same, isBased⟩
  opens isRelated opens := by
    obtain ⟨isMode, same, isBased⟩ := isRelated
    cases isMode
    obtain ⟨inner', opens', same', isBased'⟩ := exists_opens_unbased same isBased opens
    exact ⟨_, inner', opens', ⟨rfl, same, isBased⟩, rfl, same', isBased'⟩

end Grammar

/-! ## Places in front of a base -/

/-- Whether a mode is outside of structures and outside the base and the argument of a logarithm with
a base. -/
def Mode.isFree : Mode → Bool
  | .base | .arguments _ _ | .radicand _ => false
  | .function _ chain | .operand chain | .signed chain => chain ≠ .based
  | _ => true

/-- Whether a mode is that behind a function. -/
def Mode.isFunction : Mode → Bool
  | .function _ _ => true
  | _ => false

/-- A place outside the bases of logarithms and the arguments behind them. -/
structure State.IsFree (state : State) : Prop where
  mode : state.mode.isFree = true
  limits : state.limits.based = false
  frames : ∀ frame ∈ state.frames, frame.resume.isFree = true ∧ frame.resume.isFunction = false ∧
    frame.limits.based = false

namespace Grammar

variable {stage : Stage} {mode behind : Mode} {limits inner : Limits} {role : Role} {chain : Chain}
  {state next : State}

theorem isFree_of_afterIdle (flat : stage.structured = false)
    (isNext : afterIdle stage limits role = some behind) : behind.isFree = true := by
  cases role <;> simp only [afterIdle, afterStructure, flat, Bool.false_eq_true,
    if_false] at isNext <;> (try split at isNext) <;>
    cases isNext <;> rfl

theorem isFree_of_afterOperand (flat : stage.structured = false) (unbased : chain ≠ .based)
    (isNext : afterOperand stage limits chain role = some behind) : behind.isFree = true := by
  have isFree : decide (chain ≠ .based) = true := decide_eq_true unbased
  cases role <;> simp only [afterOperand, afterStructure, flat, Bool.false_eq_true,
    if_false] at isNext <;> (try split at isNext) <;> cases isNext <;> first | rfl | exact isFree

/-- A base begins only with its sign. -/
theorem isFree_of_next (flat : stage.structured = false) (free : mode.isFree = true)
    (noBase : role ≠ .underscore) (isNext : (formula stage).next mode limits role = some behind) :
    behind.isFree = true := by
  have idle (isSame : afterIdle stage limits role = some behind) := isFree_of_afterIdle flat isSame
  have operand (chain : Chain) (unbased : chain ≠ .based)
      (isSame : afterOperand stage limits chain role = some behind) :=
    isFree_of_afterOperand flat unbased isSame
  cases mode with
  | base | arguments | radicand => cases free
  | function isLog chain =>
      cases role with
      | underscore => exact absurd rfl noBase
      | blank =>
          cases isNext
          exact free
      | caret =>
          simp only [formula] at isNext
          split at isNext <;> cases isNext
          rfl
      | _ => exact operand chain (of_decide_eq_true free) isNext
  | operand chain | signed chain =>
      cases role with
      | blank =>
          cases isNext
          exact free
      | _ => first | exact operand chain (of_decide_eq_true free) isNext | cases isNext
  | script => cases role <;> cases isNext <;> rfl
  | _ => cases role <;> first | exact idle isNext | cases isNext <;> rfl

/-- Only the command for a logarithm may have a base behind it. -/
theorem role_of_next {chain : Chain}
    (isNext : (formula stage).next mode limits role = some (.function true chain)) :
    role = .function true ∨ role = .blank := by
  have idle (isSame : afterIdle stage limits role = some (.function true chain)) :
      role = .function true ∨ role = .blank := by
    cases role <;> simp only [afterIdle, afterStructure] at isSame <;> (try split at isSame) <;>
      cases isSame
    exact .inl rfl
  have operand (chain' : Chain)
      (isSame : afterOperand stage limits chain' role = some (.function true chain)) :
      role = .function true ∨ role = .blank := by
    cases role <;> simp only [afterOperand, afterStructure] at isSame <;> (try split at isSame) <;>
      cases isSame
    exact .inl rfl
  cases mode with
  | function isLog chain' =>
      cases role with
      | blank => exact .inr rfl
      | caret | underscore => simp only [formula] at isNext; split at isNext <;> cases isNext
      | _ => exact operand chain' isNext
  | operand chain' | signed chain' =>
      cases role with
      | blank => exact .inr rfl
      | _ => first | exact operand chain' isNext | cases isNext
  | arguments more chain' =>
      cases role with
      | blank => exact .inr rfl
      | value spelled => cases more <;> cases spelled <;> cases isNext
      | _ => cases more <;> cases isNext
  | script | base | radicand =>
      cases role with
      | blank => exact .inr rfl
      | value spelled => cases spelled <;> cases isNext
      | _ => cases isNext
  | _ =>
      cases role with
      | blank => exact .inr rfl
      | _ => first | exact idle isNext | cases isNext

/-- A group outside of a base is outside of it inside and behind it. -/
theorem isFree_of_opens {bracket : Bracket} {resume : Mode} (free : mode.isFree = true)
    (noBase : limits.based = false)
    (opens : (formula stage).opens mode limits bracket = some (resume, inner)) :
    resume.isFree = true ∧ resume.isFunction = false ∧ inner.based = false := by
  have behind {chain : Chain} (unbased : decide (chain ≠ .based) = true) :
      (limits.behind chain).based = false := by
    have apart : chain ≠ .based := of_decide_eq_true unbased
    simp [Limits.behind, noBase, apart]
  cases mode with
  | base | arguments | radicand => cases free
  | function | operand | signed => cases bracket <;> cases opens <;> exact ⟨rfl, rfl, behind free⟩
  | script | atomExponent => cases bracket <;> cases opens <;> exact ⟨rfl, rfl, noBase⟩
  | _ =>
      cases opens
      exact ⟨rfl, rfl, noBase⟩

/-- A glyph that is no sign of a base stays outside of bases. -/
theorem isFree_of_step (flat : stage.structured = false) (free : state.IsFree)
    (noBase : role ≠ .underscore) (moves : (formula stage).step state role = some next) :
    next.IsFree := by
  obtain ⟨mode, limits, frames⟩ := state
  cases isBracket : role.isBracket with
  | false =>
      obtain ⟨mode', isNext, rfl⟩ := exists_of_step isBracket moves
      exact ⟨isFree_of_next flat free.mode noBase isNext, free.limits, free.frames⟩
  | true =>
      cases role with
      | «opens» bracket =>
          obtain ⟨resume, inner, opens, rfl⟩ := exists_of_step_opens moves
          obtain ⟨isResume, noFunction, isInner⟩ := isFree_of_opens free.mode free.limits opens
          exact ⟨rfl, isInner,
            List.forall_mem_cons.2 ⟨⟨isResume, noFunction, free.limits⟩, free.frames⟩⟩
      | closes bracket =>
          obtain ⟨frame, below, rfl, -, -, rfl⟩ := exists_of_step_closes moves
          obtain ⟨isFrame, isBelow⟩ := List.forall_mem_cons.1 free.frames
          exact ⟨isFrame.1, isFrame.2.2, isBelow⟩
      | _ => cases isBracket

end Grammar

namespace Text

theorem standsFor_resolveLogBases (vocabulary : Vocabulary) (text : Text) :
    (text.resolveLogBases vocabulary).StandsFor text := by
  refine .of_plain (by rw [resolveLogBases]) (fun c rest plain => resolveLogBases_plain plain rest)
    (fun rest => ?_) text
  rw [resolveLogBases_eq]
  split
  · rfl
  · split
    · rw [logOf]
      split <;> rfl
    · rw [bareLog]
      split <;> rfl

namespace Follows

variable {stage : Stage} {letter : Char} {mode : Mode} {limits : Limits} {chain : Chain}
  {frames : List Frame} {state : State} {count first second : Nat} {text rest : Text}

/-- What belongs to a logarithm with a base may stand where bases are gone. -/
theorem unbased
    (follows : Follows (.formula .inverted) letter ⟨.idle, limits.behind .based, []⟩ count text) :
    Follows (.formula .unbased) letter ⟨.idle, limits, []⟩ count text :=
  follows.simulate Grammar.simulates_unbased ⟨rfl, rfl, by simp [Limits.behind]⟩ .nil

/-- The logarithm that is written for a base and an argument. -/
theorem logOf_append {isLog : Bool} {base argument : Text}
    (isNext : (Grammar.formula .unbased).next mode limits (.function isLog) =
      some (.function isLog .alone))
    (isBase : Follows (.formula .unbased) letter ⟨.idle, limits, []⟩ first base)
    (isArgument : Follows (.formula .unbased) letter ⟨.idle, limits, []⟩ second argument)
    (later : Follows (.formula .unbased) letter ⟨.idle, limits, frames⟩ count rest) :
    Follows (.formula .unbased) letter ⟨mode, limits, frames⟩ (first + (second + count))
      (logOf base argument ++ rest) := by
  have isCall := Grammar.next_call_of_function rfl isNext
  have same := Limits.behind_alone limits
  rw [logOf]
  split
  · rename_i function found
    have isMember : function ∈ Vocabulary.functionNames := by
      unfold logFunction? at found
      repeat' split at found
      all_goals cases found <;> decide
    obtain ⟨callable, rfl, isStandard⟩ := Callable.exists_of_mem isMember
    have whole := blank_cons (call_append callable isStandard isCall (same ▸ isArgument) later)
    simpa using whole.mono_count (Nat.le_add_left _ first)
  · have isName : "log".toList ∈ Vocabulary.functionNames := by decide
    obtain ⟨log, isText, isStandard⟩ := Callable.exists_of_mem isName
    have opens := Grammar.opens_of_function isNext
    have isCall := Grammar.next_idle_call .unbased limits
    have denominator := call_append log isStandard isCall (same ▸ isBase) ended
    have inside := call_append log isStandard isCall (same ▸ isArgument)
      (mark_cons (c := '/') rfl rfl denominator)
    have whole := blank_cons (parenthesized_append opens (same ▸ inside) later)
    have counted := whole.mono_count (show _ ≤ first + (second + count) by omega)
    simpa [isText] using counted

/-- Behind the command for a logarithm its base and its argument can be read. -/
theorem exists_base (follows : Follows (.formula .inverted) letter
      ⟨.function true chain, limits, frames⟩ count text)
    (found : dropLead? text.trimStart ['_'] = some rest) :
    chain = .alone ∧ ∃ base argument first second third, Argument.read? rest = some base ∧
      base.rest.bareArgument? .standard = some argument ∧ first + (second + third) = count ∧
        Follows (.formula .unbased) letter ⟨.idle, limits, []⟩ first base.text.trim ∧
          Follows (.formula .unbased) letter ⟨.idle, limits, []⟩ second argument.text ∧
            Follows (.formula .inverted) letter ⟨.idle, limits, frames⟩ third argument.rest := by
  obtain ⟨_, _, isRole, moves, based⟩ :=
    follows.of_dropLead? found (by decide) (by decide) (by decide)
  cases isRole
  obtain ⟨_, isNext, rfl⟩ := Grammar.exists_of_step rfl moves
  obtain ⟨allowed, isBase⟩ := Option.ite_none_right_eq_some.1 isNext
  cases isBase
  simp only [Bool.and_eq_true, decide_eq_true_eq] at allowed
  have isCurly : (Grammar.formula .inverted).opens .base limits .curly =
      some (.operand .based, limits.behind .based) := by simp [Grammar.formula, Limits.behind]
  obtain ⟨base, first, _, isRead, rfl, inside, behind⟩ :=
    based.exists_argument rfl
      (fun role plain visible => by cases role <;> first | rfl | exact absurd rfl visible)
      isCurly rfl fun _ => rfl
  obtain ⟨argument, second, third, isArgument, rfl, operand, later⟩ :=
    behind.exists_bareArgument rfl rfl rfl
  exact ⟨allowed.2, base, argument, first, second, third, isRead, isArgument, rfl,
    inside.trim.unbased, operand.unbased, later⟩

/-- Only behind a logarithm stands the sign of a base. -/
theorem exists_log_of_underscore {behind : Mode}
    (isNext : (Grammar.formula stage).next mode limits .underscore = some behind) :
    ∃ chain, mode = .function true chain := by
  cases mode with
  | function isLog chain =>
      obtain ⟨allowed, -⟩ := Option.ite_none_right_eq_some.1 isNext
      simp only [Bool.and_eq_true] at allowed
      exact ⟨chain, by rw [allowed.1.1.1]⟩
  | _ => cases isNext

/-- Where a base is found, the command for a logarithm stands. -/
theorem of_logBase? {name : Text} {role : Role} {base : Argument}
    (isRole : (Glyph.word name).role? rest = some role)
    (found : (afterLogMark? ('\\' :: (name ++ rest))).bind Argument.read? = some base) :
    role = .function true ∧ ∃ after, dropLead? rest.trimStart ['_'] = some after ∧
      Argument.read? after = some base := by
  obtain ⟨ends, isWord⟩ := Glyph.exists_word isRole
  obtain ⟨letters, -⟩ := Glyph.all_isAlpha_of_ofWord? isWord
  obtain ⟨blanks, after, same, blank, isRead⟩ := exists_of_logBase? found
  have ends' : (blanks ++ '_' :: after).endsRun Char.isAlpha = true := by
    cases blanks with
    | nil => rfl
    | cons c blanks =>
        rw [isAllBlank, List.all_cons, Bool.and_eq_true] at blank
        simp [endsRun, isAlpha_eq_false_of_isBlank blank.1]
  have words : name ++ rest = "log".toList ++ (blanks ++ '_' :: after) := (List.cons.inj same).2
  obtain ⟨rfl, rfl⟩ := eq_of_word_eq letters (by decide) ends ends' words
  refine ⟨Option.some.inj (isWord.symm.trans rfl), after, ?_, isRead⟩
  rw [dropLead?_eq_some_iff, Text.trimStart, List.dropWhile_append_of_pos (List.all_eq_true.1 blank)]
  rfl

/-- Behind the command for a logarithm the sign of a base is looked for. -/
theorem afterLogMark?_of_role {name : Text}
    (isRole : (Glyph.word name).role? rest = some (.function true)) :
    afterLogMark? ('\\' :: (name ++ rest)) = dropLead? rest.trimStart ['_'] := by
  obtain ⟨command, isNamed, -, isLog⟩ := Glyph.exists_function (Glyph.exists_word isRole).2
  have only : Command.table.all (fun (name, command) =>
      command ≠ .log || name = "log".toList) = true := by decide
  have isMember := List.all_eq_true.1 only _ (Command.mem_table_of_named? isNamed)
  rw [of_decide_eq_true isLog.symm] at isMember
  have isName : name = "log".toList := by simpa using isMember
  have begins : dropLead? ('\\' :: ("log".toList ++ rest)) "\\log".toList = some rest :=
    dropLead?_eq_some_iff.2 rfl
  rw [afterLogMark?, isName, begins, Option.bind_some]

/-- Where no base follows a logarithm none follows it behind the next glyph. -/
theorem noBase_of_step {next : State} {glyph : Glyph} (free : state.IsFree)
    (isRole : glyph.role? rest = some role)
    (moves : (Grammar.formula stage).step state role = some next)
    (noBase : ∀ chain, state.mode = .function true chain →
      (glyph.source ++ rest).trimStart.head? ≠ some '_')
    (isBase : ¬ (role = .function true ∧ ∃ after, dropLead? rest.trimStart ['_'] = some after)) :
    ∀ chain, next.mode = .function true chain → rest.trimStart.head? ≠ some '_' := by
  intro chain isMode
  cases isBracket : role.isBracket with
  | false =>
      obtain ⟨mode', isNext, rfl⟩ := Grammar.exists_of_step isBracket moves
      cases isMode
      rcases Grammar.role_of_next isNext with rfl | rfl
      · intro begins
        obtain ⟨after, isAfter⟩ := List.head?_eq_some_iff.1 begins
        exact isBase ⟨rfl, after, dropLead?_eq_some_iff.2 isAfter⟩
      · obtain rfl := Glyph.eq_space isRole
        rw [Grammar.next_blank] at isNext
        exact noBase chain (Option.some.inj isNext)
  | true =>
      cases role with
      | «opens» bracket =>
          obtain ⟨_, _, -, rfl⟩ := Grammar.exists_of_step_opens moves
          cases isMode
      | closes bracket =>
          obtain ⟨frame, below, isFrames, -, -, rfl⟩ := Grammar.exists_of_step_closes moves
          have isFrame := free.frames frame (by rw [isFrames]; exact List.mem_cons_self)
          rw [show frame.resume = .function true chain from isMode] at isFrame
          cases isFrame.2.1
      | _ => cases isBracket

/-- A legible formula without its bases of logarithms is legible. -/
theorem resolveLogBases (free : state.IsFree)
    (noBase : ∀ chain, state.mode = .function true chain → text.trimStart.head? ≠ some '_')
    (follows : Follows (.formula .inverted) letter state count text) :
    Follows (.formula .unbased) letter state count (text.resolveLogBases .standard) := by
  induction length : text.length using Nat.strongRecOn generalizing text state count with
  | ind bound ih =>
    cases follows with
    | done count closes =>
        rw [Text.resolveLogBases]
        exact .done count closes
    | @glyph _ next glyph rest role count isRole moves later =>
        have shorter : rest.length < bound := by
          have nonempty := List.length_pos_iff.2 (Glyph.source_ne_nil isRole)
          rw [List.length_append] at length
          omega
        by_cases isBase : role = .function true ∧
            ∃ after, dropLead? rest.trimStart ['_'] = some after
        · -- The logarithm is written with its base and its argument.
          obtain ⟨rfl, after, isAfter⟩ := isBase
          obtain ⟨name, rfl⟩ := Glyph.exists_command isRole rfl
          obtain ⟨mode, limits, frames⟩ := state
          obtain ⟨mode', isNext, rfl⟩ := Grammar.exists_of_step rfl moves
          obtain ⟨chain, rfl⟩ := Grammar.exists_chain isNext
          obtain ⟨rfl, base, argument, first, second, third, isRead, isArgument, rfl, isBase, inside,
            behind⟩ := later.exists_base isAfter
          have isMark := afterLogMark?_of_role isRole
          rw [isAfter] at isMark
          have further : argument.rest.length < bound := by
            have marked := length_lt_of_afterLogMark? isMark
            have taken := Argument.length_lt_of_read? isRead
            have passed := length_le_of_bareArgument? isArgument
            rw [Glyph.source, List.cons_append] at length
            omega
          have whole := logOf_append (Grammar.next_unbased rfl (by simp) isNext) isBase inside
            (ih _ further ⟨rfl, free.limits, free.frames⟩ (by simp) behind rfl)
          rw [Glyph.source, List.cons_append, resolveLogBases_eq, isMark, Option.bind_some, isRead]
          simpa only [isArgument, Glyph.weight, Nat.zero_add] using whole
        · -- The glyph stays.
          have noBase' := noBase_of_step free isRole moves noBase isBase
          have visible : role ≠ .underscore := by
            rintro rfl
            obtain ⟨c, rfl, rfl⟩ := Glyph.exists_char isRole rfl
            obtain ⟨mode', isNext, rfl⟩ := Grammar.exists_of_step rfl moves
            obtain ⟨chain, isMode⟩ := exists_log_of_underscore isNext
            exact noBase chain isMode rfl
          have free' := Grammar.isFree_of_step rfl free visible moves
          have moves' : (Grammar.formula .unbased).step state role = some next := by
            refine Grammar.step_of_step (fun mode closes => ?_) (fun _ _ _ => ?_)
              (fun mode isNext => Grammar.next_unbased rfl (absurd · visible) isNext) moves
            · exact closes
            · rfl
          have kept : Follows (.formula .unbased) letter state (glyph.weight letter + count)
              (glyph.source ++ rest.resolveLogBases .standard) :=
            .glyph_of_standsFor isRole moves' (ih _ shorter free' noBase' later rfl)
              (standsFor_resolveLogBases .standard rest)
          by_cases isWord : ∃ name, glyph = .word name
          · obtain ⟨name, rfl⟩ := isWord
            have letters := (Glyph.all_isAlpha_of_ofWord? (Glyph.exists_word isRole).2).1
            have noBack : '\\' ∉ name := fun isMember =>
              absurd (List.all_eq_true.1 letters _ isMember) (by decide)
            have none : (afterLogMark? ('\\' :: (name ++ rest))).bind Argument.read? = none := by
              rw [Option.eq_none_iff_forall_ne_some]
              intro base found
              obtain ⟨isFunction, after, isAfter, -⟩ := of_logBase? isRole found
              exact isBase ⟨isFunction, after, isAfter⟩
            rw [Glyph.source, List.cons_append] at kept ⊢
            rwa [resolveLogBases_cons none, resolveLogBases_append noBack]
          · rwa [resolveLogBases_append (Glyph.not_mem_source isRole (not_exists.1 isWord))]

end Follows

end Text

end TexCalc
