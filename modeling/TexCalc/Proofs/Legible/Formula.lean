import TexCalc.Proofs.Legible.Follows

/-!
# The grammar of legible formulas

In a legible formula every reader of arguments stops where the formula means it to.  No function is
named right behind a `^`, or behind the numeral with which an argument begins, and none is named in
an exponent that is copied with its base.  Exponents of functions, bases of logarithms and arguments
of fractions and roots are groups in braces or single characters.  A logarithm with a base has no
other base in its argument, and a function that is its argument without brackets has no exponent.

The grammar changes a little from step to step.  That every function finds its argument is no part
of it before the formula has been checked; structures and bases go as they are replaced, and with
the first inverse function names come that no command stands for any more.
-/

namespace TexCalc

/-- What a formula on its way to the linear form may hold. -/
structure Stage where
  /-- Every function must find its argument. -/
  checked : Bool
  /-- There may be commands for fractions and roots. -/
  structured : Bool
  /-- There may be logarithms with a base. -/
  based : Bool
  /-- There may be names of functions that wait for their argument. -/
  named : Bool
  deriving DecidableEq, Repr

namespace Stage

def written : Stage := ⟨false, true, true, false⟩
def accepted : Stage := ⟨true, true, true, false⟩
def resolved : Stage := ⟨true, false, true, false⟩
def inverted : Stage := ⟨true, false, true, true⟩
def unbased : Stage := ⟨true, false, false, true⟩
def called : Stage := ⟨true, false, false, false⟩

variable (stage : Stage)

/-- Whether the name of a function may stand in some part of a formula. -/
def allowsCall (limits : Limits) (applied : Bool) : Bool :=
  applied || stage.named && !limits.copied

/-- Whether the name of a function may stand where the argument of another one is expected. -/
def allowsBehind : Chain → Bool
  | .alone => true
  | .raised => stage.named || !stage.based
  | .based => !stage.based

end Stage

/-- The mode behind an argument of a structure. -/
def Mode.behindArgument (more : Bool) (chain : Chain) : Mode :=
  if more then .arguments false chain else .idle

/-- The limits in the argument of a function. -/
def Limits.behind (limits : Limits) (chain : Chain) : Limits :=
  { limits with based := limits.based || chain = .based }

namespace Grammar

variable (stage : Stage)

/-- The mode behind a command for a fraction or a root. -/
def afterStructure (mode : Mode) : Option Mode :=
  if stage.structured then some mode else none

/-- The mode behind a glyph, when nothing was expected. -/
def afterIdle (limits : Limits) : Role → Option Mode
  | .blank | .sign | .plusMinus | .point | .mark | .euler | .letter | .digit | .value _ => some .idle
  | .caret => some .exponent
  | .function isLog => if limits.copied then none else some (.function isLog .alone)
  | .call applied => if stage.allowsCall limits applied then some (.function false .alone) else none
  | .fraction => afterStructure stage (.arguments true .alone)
  | .root => afterStructure stage (.radicand .alone)
  | .underscore | .opens _ | .closes _ => none

/-- The mode behind a glyph, when the argument of a function was expected. -/
def afterOperand (limits : Limits) (chain : Chain) : Role → Option Mode
  | .sign => some (.signed chain)
  | .plusMinus => if chain = .alone then some (.signed chain) else none
  | .digit => some .numeral
  | .euler | .letter => some .atom
  | .value _ => some .idle
  | .function isLog => if limits.copied then none else some (.function isLog chain)
  | .call applied =>
      if stage.allowsCall limits applied && stage.allowsBehind chain then
        some (.function false chain)
      else none
  | .fraction => afterStructure stage (.arguments true chain)
  | .root => afterStructure stage (.radicand chain)
  | .mark => if stage.checked then none else some .idle
  | .blank | .caret | .underscore | .point | .opens _ | .closes _ => none

/-- The mode behind a single character that is a whole exponent. -/
def afterScript (mode : Mode) : Role → Option Mode
  | .digit | .letter => some mode
  | _ => none

/-- The mode behind a single character or a command that is a whole argument. -/
def afterSingle (mode : Mode) : Role → Option Mode
  | .digit | .euler | .letter | .value false => some mode
  | _ => none

/-- The grammar of legible formulas. -/
def formula : Grammar where
  closes
    | .idle | .euler | .numeral | .atom => true
    | .function _ _ | .operand _ | .signed _ => !stage.checked
    | _ => false
  next
    | mode, _, .blank => some mode
    | .idle, limits, role => afterIdle stage limits role
    | .exponent, limits, role =>
        match role with
        | .function _ | .call _ | .caret => none
        | .euler => some .euler
        | role => afterIdle stage limits role
    | .euler, limits, role =>
        match role with
        | .caret => none
        | role => afterIdle stage limits role
    | .function isLog chain, limits, role =>
        match role with
        | .caret => if chain = .based then none else some .script
        | .underscore =>
            if isLog && stage.based && !limits.based && chain = .alone then some .base else none
        | role => afterOperand stage limits chain role
    | .operand chain, limits, role => afterOperand stage limits chain role
    | .signed chain, limits, role =>
        match role with
        | .sign | .plusMinus => none
        | role => afterOperand stage limits chain role
    | .script, _, role => afterScript (.operand .raised) role
    | .base, _, role => afterSingle (.operand .based) role
    | .numeral, limits, role =>
        match role with
        | .digit | .point => some .numeral
        | .function _ | .call _ => none
        | role => afterIdle stage limits role
    | .atom, limits, role =>
        match role with
        | .caret => some .atomExponent
        | role => afterIdle stage limits role
    | .atomExponent, limits, role =>
        match role with
        | .function _ | .call _ | .caret | .fraction | .root => none
        | .euler => some .euler
        | role => afterIdle stage limits role
    | .arguments more chain, _, role => afterSingle (.behindArgument more chain) role
    | .radicand _, _, role => afterSingle .idle role
  opens
    | .idle, limits, _ | .exponent, limits, _ | .euler, limits, _ | .numeral, limits, _
    | .atom, limits, _ => some (.idle, limits)
    | .function _ chain, limits, bracket | .operand chain, limits, bracket
    | .signed chain, limits, bracket =>
        if bracket = .square then none else some (.idle, limits.behind chain)
    | .script, limits, bracket =>
        if bracket = .curly then some (.operand .raised, { limits with copied := true }) else none
    | .base, limits, bracket =>
        if bracket = .curly then some (.operand .based, { limits with based := true }) else none
    | .atomExponent, limits, bracket =>
        if bracket = .square then none else some (.idle, { limits with copied := true })
    | .arguments more chain, limits, bracket =>
        if bracket = .curly then some (.behindArgument more chain, limits.behind chain) else none
    | .radicand chain, limits, bracket =>
        match bracket with
        | .round => none
        | .curly => some (.idle, limits.behind chain)
        | .square => some (.arguments false chain, limits.behind chain)
  next_blank mode _ := by cases mode <;> rfl
  next_applied {mode limits behind} isNext := by
    have idle (isSame : afterIdle stage limits (.call false) = some behind) :
        afterIdle stage limits (.call true) = some behind := by
      simp only [afterIdle] at isSame
      split at isSame <;> cases isSame
      rfl
    have operand {chain : Chain}
        (isSame : afterOperand stage limits chain (.call false) = some behind) :
        afterOperand stage limits chain (.call true) = some behind := by
      simp only [afterOperand] at isSame
      split at isSame <;> cases isSame
      rename_i allowed
      rw [Bool.and_eq_true] at allowed
      rw [afterOperand, allowed.2]
      rfl
    cases mode <;> first | exact idle isNext | exact operand isNext | exact isNext

end Grammar

/-! ## Modes that allow more -/

/-- Limits that allow whatever others allow. -/
def Limits.Within (limits wider : Limits) : Prop :=
  (wider.copied = true → limits.copied = true) ∧ (wider.based = true → limits.based = true)

theorem Limits.Within.refl (limits : Limits) : limits.Within limits :=
  ⟨id, id⟩

/-- A mode in which everything may follow that may follow in another one. -/
inductive Mode.Within : Mode → Mode → Prop where
  | refl (mode : Mode) : Within mode mode
  | euler : Within .euler .idle
  | exponent : Within .exponent .idle
  | numeral : Within .numeral .idle
  | atom : Within .atom .idle
  | atomExponent : Within .atomExponent .exponent
  | operand (chain : Chain) : Within (.operand chain) .idle
  | signed (chain : Chain) : Within (.signed chain) .idle
  | unsigned (chain : Chain) : Within (.signed chain) (.operand chain)
  | alone (chain : Chain) : Within (.signed chain) (.signed .alone)
  | function (isLog : Bool) (chain : Chain) :
      Within (.function isLog chain) (.function isLog .alone)
  | called (isLog : Bool) (chain : Chain) : Within (.operand chain) (.function isLog chain)
  | arguments (more : Bool) (chain : Chain) :
      Within (.arguments more chain) (.arguments more .alone)
  | radicand (chain : Chain) : Within (.radicand chain) (.radicand .alone)

/-- A stage that differs from another one in the names that it allows at most. -/
def Stage.Within (stage wider : Stage) : Prop :=
  wider = stage ∨ wider = { stage with named := true }

namespace Grammar

/-- Where one mode and its limits allow no more than others. -/
def Within (place wider : Mode × Limits) : Prop :=
  place.1.Within wider.1 ∧ place.2.Within wider.2

variable {stage wider : Stage} {mode mode' behind : Mode} {limits limits' : Limits} {role : Role}
  {chain chain' : Chain}

theorem copied_eq_false (isLess : limits.Within limits') (isFree : limits.copied = false) :
    limits'.copied = false := by
  rw [Bool.eq_false_iff]
  intro isCopied
  rw [isLess.1 isCopied] at isFree
  cases isFree

theorem allowsCall_of_within (isEarlier : stage.Within wider) (isLess : limits.Within limits')
    {applied : Bool} (allowed : stage.allowsCall limits applied = true) :
    wider.allowsCall limits' applied = true := by
  simp only [Stage.allowsCall, Bool.or_eq_true, Bool.and_eq_true, Bool.not_eq_true'] at allowed ⊢
  refine allowed.imp_right fun allowed => ⟨?_, copied_eq_false isLess allowed.2⟩
  rcases isEarlier with rfl | rfl
  · exact allowed.1
  · rfl

theorem allowsBehind_of_within (isEarlier : stage.Within wider)
    (weaker : chain' = chain ∨ chain' = .alone) (allowed : stage.allowsBehind chain = true) :
    wider.allowsBehind chain' = true := by
  rcases weaker with rfl | rfl
  · rcases isEarlier with rfl | rfl
    · exact allowed
    · cases chain' <;> first | rfl | exact allowed
  · rfl

theorem afterStructure_of_within (isEarlier : stage.Within wider) (narrow wide : Mode)
    (isNext : afterStructure stage narrow = some behind) :
    afterStructure wider wide = some wide ∧ behind = narrow := by
  simp only [afterStructure] at isNext ⊢
  split at isNext <;> cases isNext
  rename_i structured
  rcases isEarlier with rfl | rfl <;> exact ⟨if_pos structured, rfl⟩

/-- What is allowed where nothing is expected does not become less. -/
theorem afterIdle_of_within (isEarlier : stage.Within wider) (isLess : limits.Within limits')
    (isNext : afterIdle stage limits role = some behind) :
    afterIdle wider limits' role = some behind := by
  cases role with
  | function isLog =>
      simp only [afterIdle] at isNext ⊢
      split at isNext <;> cases isNext
      rename_i isFree
      rw [copied_eq_false isLess (by simpa using isFree)]
      rfl
  | call applied =>
      simp only [afterIdle] at isNext ⊢
      split at isNext <;> cases isNext
      rename_i allowed
      rw [allowsCall_of_within isEarlier isLess allowed]
      rfl
  | fraction | root =>
      obtain ⟨isSame, rfl⟩ := afterStructure_of_within isEarlier _ _ isNext
      exact isSame
  | _ => exact isNext

theorem afterOperand_of_stage (isEarlier : stage.Within wider)
    (isNext : afterOperand stage limits chain role = some behind) :
    afterOperand wider limits chain role = some behind := by
  cases role with
  | call applied =>
      simp only [afterOperand] at isNext ⊢
      split at isNext <;> cases isNext
      rename_i allowed
      rw [Bool.and_eq_true] at allowed
      rw [allowsCall_of_within isEarlier (.refl limits) allowed.1,
        allowsBehind_of_within isEarlier (.inl rfl) allowed.2]
      rfl
  | _ => rcases isEarlier with rfl | rfl <;> exact isNext

/-- The mode behind a glyph is the same at every stage that allows it. -/
theorem next_of_stage (isEarlier : stage.Within wider)
    (isNext : (formula stage).next mode limits role = some behind) :
    (formula wider).next mode limits role = some behind := by
  have idle (isSame : afterIdle stage limits role = some behind) :=
    afterIdle_of_within isEarlier (.refl limits) isSame
  have operand (chain : Chain) (isSame : afterOperand stage limits chain role = some behind) :=
    afterOperand_of_stage isEarlier isSame
  cases mode with
  | function isLog chain =>
      cases role with
      | underscore => rcases isEarlier with rfl | rfl <;> exact isNext
      | blank | caret => exact isNext
      | _ => exact operand chain isNext
  | operand chain | signed chain =>
      cases role <;> first | exact isNext | exact operand chain isNext
  | script | base | arguments | radicand => cases role <;> exact isNext
  | _ => cases role <;> first | exact isNext | exact idle isNext

theorem step_of_stage {state next : State} (isEarlier : stage.Within wider)
    (moves : (formula stage).step state role = some next) :
    (formula wider).step state role = some next := by
  refine step_of_step (fun mode closes => ?_) (fun _ _ _ => ?_)
    (fun mode isNext => next_of_stage isEarlier isNext) moves
  · rcases isEarlier with rfl | rfl <;> exact closes
  · rfl

theorem exists_chain {isLog : Bool}
    (isNext : (formula stage).next mode limits (.function isLog) = some behind) :
    ∃ chain, behind = .function isLog chain := by
  have idle (isSame : afterIdle stage limits (.function isLog) = some behind) :
      ∃ chain, behind = .function isLog chain := by
    simp only [afterIdle] at isSame
    split at isSame <;> cases isSame
    exact ⟨.alone, rfl⟩
  have operand {chain : Chain} (isSame : afterOperand stage limits chain (.function isLog) = some behind) :
      ∃ chain, behind = .function isLog chain := by
    simp only [afterOperand] at isSame
    split at isSame <;> cases isSame
    exact ⟨chain, rfl⟩
  cases mode <;> first | exact idle isNext | exact operand isNext | cases isNext

theorem next_idle_call (stage : Stage) (limits : Limits) :
    (formula stage).next .idle limits (.call true) = some (.function false .alone) :=
  rfl

theorem opens_idle (stage : Stage) (limits : Limits) (bracket : Bracket) :
    (formula stage).opens .idle limits bracket = some (.idle, limits) :=
  rfl

/-- Where a command for a function may stand, its name may stand with a group behind it. -/
theorem next_call_of_function {isLog : Bool} (allowed : stage.allowsBehind chain = true)
    (isNext : (formula stage).next mode limits (.function isLog) = some (.function isLog chain)) :
    (formula stage).next mode limits (.call true) = some (.function false chain) := by
  have idle (isSame : afterIdle stage limits (.function isLog) = some (.function isLog chain)) :
      afterIdle stage limits (.call true) = some (.function false chain) := by
    simp only [afterIdle] at isSame
    split at isSame <;> cases isSame
    rfl
  have operand {chain' : Chain}
      (isSame : afterOperand stage limits chain' (.function isLog) = some (.function isLog chain)) :
      afterOperand stage limits chain' (.call true) = some (.function false chain) := by
    simp only [afterOperand] at isSame
    split at isSame <;> cases isSame
    rw [afterOperand, allowed]
    rfl
  cases mode <;> first | exact idle isNext | exact operand isNext | cases isNext

/-- Where a command for a function may stand, a group may stand in its place. -/
theorem opens_of_function {isLog : Bool}
    (isNext : (formula stage).next mode limits (.function isLog) = some (.function isLog chain)) :
    (formula stage).opens mode limits .round = some (.idle, limits.behind chain) := by
  have idle (isSame : afterIdle stage limits (.function isLog) = some (.function isLog chain)) :
      some (Mode.idle, limits) = some (.idle, limits.behind chain) := by
    simp only [afterIdle] at isSame
    split at isSame <;> cases isSame
    simp [Limits.behind]
  have operand {chain' : Chain}
      (isSame : afterOperand stage limits chain' (.function isLog) = some (.function isLog chain)) :
      some (Mode.idle, limits.behind chain') = some (.idle, limits.behind chain) := by
    simp only [afterOperand] at isSame
    split at isSame <;> cases isSame
    rfl
  cases mode <;> first | exact idle isNext | exact operand isNext | cases isNext

/-! ### Modes that expect an operand -/

theorem closes_operand (checked : stage.checked = true)
    (isMode : mode = .operand chain ∨ mode = .signed chain) : (formula stage).closes mode = false := by
  rcases isMode with rfl | rfl <;> simp [formula, checked]

theorem opens_operand {bracket : Bracket} {resume : Mode} {inner : Limits}
    (isMode : mode = .operand chain ∨ mode = .signed chain)
    (opens : (formula stage).opens mode limits bracket = some (resume, inner)) :
    bracket ≠ .square ∧ resume = .idle ∧ inner = limits.behind chain := by
  rcases isMode with rfl | rfl
  all_goals
    simp only [formula] at opens
    split at opens <;> cases opens
    exact ⟨‹_›, rfl, rfl⟩

theorem afterOperand_of_next (isMode : mode = .operand chain ∨ mode = .signed chain)
    (visible : role ≠ .blank) (isNext : (formula stage).next mode limits role = some behind) :
    afterOperand stage limits chain role = some behind := by
  rcases isMode with rfl | rfl <;> cases role <;>
    first | exact isNext | exact absurd rfl visible | cases isNext

theorem next_atom (isMode : mode = .operand chain ∨ mode = .signed chain)
    (isAtom : role = .euler ∨ role = .letter) (limits : Limits) :
    (formula stage).next mode limits role = some .atom := by
  rcases isMode with rfl | rfl <;> rcases isAtom with rfl | rfl <;> rfl

theorem next_value (isMode : mode = .operand chain ∨ mode = .signed chain) (spelled : Bool)
    (limits : Limits) : (formula stage).next mode limits (.value spelled) = some .idle := by
  rcases isMode with rfl | rfl <;> rfl

theorem next_function {isLog : Bool} (isMode : mode = .operand chain ∨ mode = .signed chain)
    (isNext : (formula stage).next mode limits (.function isLog) = some behind) :
    behind = .function isLog chain ∧ ∀ inner : Limits, inner.copied = limits.copied →
      (formula stage).next mode inner (.function isLog) = some (.function isLog chain) := by
  rcases isMode with rfl | rfl
  all_goals
    simp only [formula, afterOperand] at isNext ⊢
    split at isNext <;> cases isNext
    rename_i free
    exact ⟨rfl, fun inner same => if_neg (by rwa [same])⟩

/-- Behind a function without exponent and base any argument may stand. -/
theorem afterOperand_of_within (isEarlier : stage.Within wider) (isLess : limits.Within limits')
    (weaker : chain' = chain ∨ chain' = .alone)
    (isNext : afterOperand stage limits chain role = some behind) :
    ∃ behind', afterOperand wider limits' chain' role = some behind' ∧ behind.Within behind' := by
  have function (isLog : Bool) : (Mode.function isLog chain).Within (.function isLog chain') := by
    rcases weaker with rfl | rfl
    · exact .refl _
    · exact .function isLog chain
  have sign : (Mode.signed chain).Within (.signed chain') := by
    rcases weaker with rfl | rfl
    · exact .refl _
    · exact .alone chain
  cases role with
  | function isLog =>
      simp only [afterOperand] at isNext ⊢
      split at isNext <;> cases isNext
      rename_i isFree
      rw [copied_eq_false isLess (by simpa using isFree)]
      exact ⟨_, rfl, function isLog⟩
  | call applied =>
      simp only [afterOperand] at isNext ⊢
      split at isNext <;> cases isNext
      rename_i allowed
      rw [Bool.and_eq_true] at allowed
      rw [allowsCall_of_within isEarlier isLess allowed.1,
        allowsBehind_of_within isEarlier weaker allowed.2]
      exact ⟨_, rfl, function false⟩
  | sign =>
      cases isNext
      exact ⟨_, rfl, sign⟩
  | plusMinus =>
      simp only [afterOperand] at isNext ⊢
      split at isNext <;> cases isNext
      rename_i isAlone
      have isAlone' : chain' = .alone := by
        rcases weaker with rfl | rfl
        · exact isAlone
        · rfl
      exact ⟨_, if_pos isAlone', sign⟩
  | fraction =>
      obtain ⟨isSame, rfl⟩ := afterStructure_of_within isEarlier _ (.arguments true chain') isNext
      refine ⟨_, isSame, ?_⟩
      rcases weaker with rfl | rfl
      · exact .refl _
      · exact .arguments true chain
  | root =>
      obtain ⟨isSame, rfl⟩ := afterStructure_of_within isEarlier _ (.radicand chain') isNext
      refine ⟨_, isSame, ?_⟩
      rcases weaker with rfl | rfl
      · exact .refl _
      · exact .radicand chain
  | mark =>
      refine ⟨behind, ?_, .refl _⟩
      rcases isEarlier with rfl | rfl <;> exact isNext
  | _ => exact ⟨_, isNext, .refl _⟩

/-- Whatever may be an argument may stand where nothing is expected. -/
theorem afterIdle_of_afterOperand (isEarlier : stage.Within wider) (isLess : limits.Within limits')
    (isNext : afterOperand stage limits chain role = some behind) :
    ∃ behind', afterIdle wider limits' role = some behind' ∧ behind.Within behind' := by
  cases role with
  | function isLog =>
      simp only [afterOperand] at isNext
      split at isNext <;> cases isNext
      rename_i isFree
      simp only [afterIdle]
      rw [copied_eq_false isLess (by simpa using isFree)]
      exact ⟨_, rfl, .function isLog chain⟩
  | call applied =>
      simp only [afterOperand] at isNext
      split at isNext <;> cases isNext
      rename_i allowed
      rw [Bool.and_eq_true] at allowed
      simp only [afterIdle]
      rw [allowsCall_of_within isEarlier isLess allowed.1]
      exact ⟨_, rfl, .function false chain⟩
  | mark =>
      simp only [afterOperand] at isNext
      split at isNext <;> cases isNext
      exact ⟨_, rfl, .refl _⟩
  | sign =>
      cases isNext
      exact ⟨_, rfl, .signed chain⟩
  | plusMinus =>
      simp only [afterOperand] at isNext
      split at isNext <;> cases isNext
      exact ⟨_, rfl, .signed chain⟩
  | digit =>
      cases isNext
      exact ⟨_, rfl, .numeral⟩
  | euler | letter =>
      cases isNext
      exact ⟨_, rfl, .atom⟩
  | value =>
      cases isNext
      exact ⟨_, rfl, .refl _⟩
  | fraction =>
      obtain ⟨isSame, rfl⟩ := afterStructure_of_within isEarlier _ (.arguments true .alone) isNext
      exact ⟨_, isSame, .arguments true chain⟩
  | root =>
      obtain ⟨isSame, rfl⟩ := afterStructure_of_within isEarlier _ (.radicand .alone) isNext
      exact ⟨_, isSame, .radicand chain⟩
  | blank | caret | underscore | point | «opens» _ | closes _ => cases isNext

/-- Behind a function in front of an argument, an exponent or a base. -/
theorem next_function_of_within (isEarlier : stage.Within wider) (isLess : limits.Within limits')
    {isLog : Bool} (weaker : chain' = chain ∨ chain' = .alone) (visible : role ≠ .blank)
    (isNext : (formula stage).next (.function isLog chain) limits role = some behind) :
    ∃ behind', (formula wider).next (.function isLog chain') limits' role = some behind' ∧
      behind.Within behind' := by
  have operand (isSame : afterOperand stage limits chain role = some behind) :=
    afterOperand_of_within isEarlier isLess weaker isSame
  cases role with
  | blank => exact absurd rfl visible
  | caret =>
      simp only [formula] at isNext ⊢
      split at isNext <;> cases isNext
      rename_i unbased
      refine ⟨_, if_neg ?_, .refl _⟩
      rcases weaker with rfl | rfl
      · exact unbased
      · decide
  | underscore =>
      simp only [formula] at isNext ⊢
      split at isNext <;> cases isNext
      rename_i allowed
      simp only [Bool.and_eq_true, Bool.not_eq_true', decide_eq_true_eq] at allowed
      have noBase : limits'.based = false := by
        rw [Bool.eq_false_iff]
        intro isBased
        rw [isLess.2 isBased] at allowed
        exact absurd allowed.1.2 (by decide)
      have isAlone : chain' = .alone := weaker.elim (fun same => same.trans allowed.2) id
      have based : wider.based = true := by
        rcases isEarlier with rfl | rfl <;> exact allowed.1.1.2
      exact ⟨_, if_pos (by simp [allowed.1.1.1, based, noBase, isAlone]), .refl _⟩
  | _ => exact operand isNext

/-- Everything may follow that may follow where less is allowed. -/
theorem exists_next_of_within (isEarlier : stage.Within wider) (isWithin : mode.Within mode')
    (isLess : limits.Within limits') (visible : role ≠ .blank)
    (isNext : (formula stage).next mode limits role = some behind) :
    ∃ behind', (formula wider).next mode' limits' role = some behind' ∧ behind.Within behind' := by
  have idle (isSame : afterIdle stage limits role = some behind) :
      ∃ behind', afterIdle wider limits' role = some behind' ∧ behind.Within behind' :=
    ⟨behind, afterIdle_of_within isEarlier isLess isSame, .refl behind⟩
  have operand (chain : Chain) (isSame : afterOperand stage limits chain role = some behind) :=
    afterOperand_of_within isEarlier isLess (.inl rfl) isSame
  have alone (chain : Chain) (isSame : afterOperand stage limits chain role = some behind) :=
    afterOperand_of_within isEarlier isLess (.inr rfl) isSame
  have passive (chain : Chain) (isSame : afterOperand stage limits chain role = some behind) :=
    afterIdle_of_afterOperand isEarlier isLess isSame
  have same (isSame : (formula wider).next mode limits' role = some behind) :
      ∃ behind', (formula wider).next mode limits' role = some behind' ∧ behind.Within behind' :=
    ⟨behind, isSame, .refl behind⟩
  cases isWithin with
  | refl =>
      cases mode with
      | function isLog chain =>
          exact next_function_of_within isEarlier isLess (.inl rfl) visible isNext
      | operand chain | signed chain =>
          cases role <;>
            first | exact operand chain isNext | exact absurd rfl visible | cases isNext
      | script | base | arguments | radicand => cases role <;> exact same isNext
      | _ => cases role <;> first | exact idle isNext | exact same isNext
  | euler =>
      cases role <;> first | exact absurd rfl visible | exact idle isNext | cases isNext
  | exponent | numeral | atomExponent =>
      cases role <;>
        first | exact idle isNext | (cases isNext; exact ⟨_, rfl, by constructor⟩) | cases isNext
  | atom =>
      cases role <;> first
        | exact idle isNext
        | exact absurd rfl visible
        | (cases isNext; exact ⟨_, rfl, .atomExponent⟩)
  | operand chain | signed chain =>
      cases role <;> first | exact passive chain isNext | exact absurd rfl visible | cases isNext
  | unsigned chain | called isLog chain =>
      cases role <;> first | exact operand chain isNext | exact absurd rfl visible | cases isNext
  | alone chain =>
      cases role <;> first | exact alone chain isNext | exact absurd rfl visible | cases isNext
  | function isLog chain =>
      exact next_function_of_within isEarlier isLess (.inr rfl) visible isNext
  | arguments more chain =>
      cases role with
      | value spelled =>
          cases spelled <;> cases isNext
          exact ⟨_, rfl, by cases more <;> constructor⟩
      | _ =>
          first
            | (cases isNext; exact ⟨_, rfl, by cases more <;> constructor⟩)
            | exact absurd rfl visible
            | cases isNext
  | radicand chain =>
      cases role with
      | value spelled =>
          cases spelled <;> cases isNext
          exact ⟨_, rfl, .refl _⟩
      | _ =>
          first
            | (cases isNext; exact ⟨_, rfl, .refl _⟩)
            | exact absurd rfl visible
            | cases isNext

theorem behind_within (isLess : limits.Within limits') (weaker : chain' = chain ∨ chain' = .alone) :
    (limits.behind chain).Within (limits'.behind chain') := by
  refine ⟨isLess.1, fun isBased => ?_⟩
  simp only [Limits.behind, Bool.or_eq_true, decide_eq_true_eq] at isBased ⊢
  rcases isBased with isBased | isBased
  · exact .inl (isLess.2 isBased)
  · rcases weaker with rfl | rfl
    · exact .inr isBased
    · cases isBased

theorem within_behind (isLess : limits.Within limits') (chain : Chain) :
    (limits.behind chain).Within limits' :=
  ⟨isLess.1, fun isBased => by simp [Limits.behind, isLess.2 isBased]⟩

theorem exists_opens_of_within {bracket : Bracket} {resume : Mode} {inner : Limits}
    (isWithin : mode.Within mode') (isLess : limits.Within limits')
    (opens : (formula stage).opens mode limits bracket = some (resume, inner)) :
    ∃ resume' inner', (formula wider).opens mode' limits' bracket = some (resume', inner') ∧
      resume.Within resume' ∧ inner.Within inner' := by
  cases isWithin with
  | refl =>
      cases mode with
      | function | operand | signed | arguments | radicand =>
          cases bracket <;> cases opens <;>
            exact ⟨_, _, rfl, .refl _, behind_within isLess (.inl rfl)⟩
      | script | atomExponent =>
          cases bracket <;> cases opens <;> exact ⟨_, _, rfl, .refl _, fun _ => rfl, isLess.2⟩
      | base =>
          cases bracket <;> cases opens
          exact ⟨_, _, rfl, .refl _, isLess.1, fun _ => rfl⟩
      | _ =>
          cases opens
          exact ⟨_, _, rfl, .refl _, isLess⟩
  | function | alone =>
      cases bracket <;> cases opens <;>
        exact ⟨_, _, rfl, .refl _, behind_within isLess (.inr rfl)⟩
  | unsigned | called =>
      cases bracket <;> cases opens <;>
        exact ⟨_, _, rfl, .refl _, behind_within isLess (.inl rfl)⟩
  | operand chain | signed chain =>
      cases bracket <;> cases opens <;> exact ⟨_, _, rfl, .refl _, within_behind isLess chain⟩
  | atomExponent =>
      cases bracket <;> cases opens <;> exact ⟨_, _, rfl, .refl _, fun _ => rfl, isLess.2⟩
  | arguments more =>
      cases bracket <;> cases opens
      exact ⟨_, _, rfl, by cases more <;> constructor, behind_within isLess (.inr rfl)⟩
  | radicand =>
      cases bracket <;> cases opens <;>
        exact ⟨_, _, rfl, by constructor, behind_within isLess (.inr rfl)⟩
  | _ =>
      cases opens
      exact ⟨_, _, rfl, .refl _, isLess⟩

/-- The grammar of a stage simulates itself wherever less is allowed. -/
theorem simulates_formula (isEarlier : stage.Within wider) :
    (formula wider).Simulates (formula stage) Within where
  closes {mode _ _ _} isWithin closes := by
    obtain ⟨isWithin, _⟩ := isWithin
    have same : wider.checked = stage.checked := by rcases isEarlier with rfl | rfl <;> rfl
    have unchecked (isOpen : (!stage.checked) = true) : (!wider.checked) = true := same ▸ isOpen
    cases isWithin with
    | refl => cases mode <;> first | exact closes | exact unchecked closes
    | _ => first | rfl | exact unchecked closes | cases closes
  next {_ _ _ _ role _} isWithin _ isNext := by
    by_cases blank : role = .blank
    · subst blank
      rw [next_blank] at isNext
      cases isNext
      exact ⟨_, next_blank _ _ _, isWithin⟩
    · obtain ⟨behind', isNext', isWithin'⟩ :=
        exists_next_of_within isEarlier isWithin.1 isWithin.2 blank isNext
      exact ⟨behind', isNext', isWithin', isWithin.2⟩
  opens isWithin opens := by
    obtain ⟨resume', inner', opens', isResume, isInner⟩ :=
      exists_opens_of_within isWithin.1 isWithin.2 opens
    exact ⟨resume', inner', opens', ⟨isResume, isWithin.2⟩, .refl _, isInner⟩

theorem framesRelated_refl {related : Mode × Limits → Mode × Limits → Prop}
    (refl : ∀ place, related place place) (frames : List Frame) :
    FramesRelated related frames frames := by
  induction frames with
  | nil => exact .nil
  | cons frame frames ih => exact .cons ⟨rfl, refl _⟩ ih

end Grammar

namespace Text.Follows

variable {stage wider : Stage} {letter : Char} {mode mode' : Mode} {limits limits' : Limits}
  {frames : List Frame} {count : Nat} {text : Text}

/-- A text may stand wherever more is allowed. -/
theorem relax (follows : Follows (.formula stage) letter ⟨mode, limits, frames⟩ count text)
    (isEarlier : stage.Within wider) (isWithin : mode.Within mode')
    (isLess : limits.Within limits') :
    Follows (.formula wider) letter ⟨mode', limits', frames⟩ count text :=
  follows.simulate (Grammar.simulates_formula isEarlier) ⟨isWithin, isLess⟩
    (Grammar.framesRelated_refl (fun _ => ⟨.refl _, .refl _⟩) frames)

/-- A text may stand in every mode that allows more, at the same stage. -/
theorem widen (follows : Follows (.formula stage) letter ⟨mode, limits, frames⟩ count text)
    (isWithin : mode.Within mode') :
    Follows (.formula stage) letter ⟨mode', limits, frames⟩ count text :=
  follows.relax (.inl rfl) isWithin (.refl limits)

end Text.Follows

end TexCalc
