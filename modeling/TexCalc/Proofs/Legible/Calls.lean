import TexCalc.Proofs.Inside.Operands
import TexCalc.Proofs.Legible.Renaming

/-!
# Calls of a legible formula

A function without a group behind it finds its argument in a legible formula, and the exponent in
front of the argument is found as well.  What is read is legible by itself, and so is the call that
is written for it: a parenthesis stands behind the name then.  A function that the argument ends in
is called in its turn, so that no function is left without a group.
-/

namespace TexCalc

/-- Whether a role is that of a function that may lack a group behind it. -/
def Role.isUnapplied : Role → Bool
  | .function _ | .call false => true
  | _ => false

namespace Grammar

variable {mode behind : Mode} {limits limits' : Limits} {role : Role} {chain : Chain}

/-- Where every function has a group behind it, names are called. -/
theorem next_called (applied : limits.copied = true ∨ role.isUnapplied = false)
    (isNext : (formula .unbased).next mode limits role = some behind) :
    (formula .called).next mode limits' role = some behind := by
  have idle (isSame : afterIdle .unbased limits role = some behind) :
      afterIdle .called limits' role = some behind := by
    cases role with
    | function isLog => 
        have isCopied : limits.copied = true := applied.resolve_right (by simp [Role.isUnapplied])
        simp [afterIdle, isCopied] at isSame
    | call isApplied =>
        cases isApplied with
        | true => exact isSame
        | false =>
            have isCopied : limits.copied = true := applied.resolve_right (by simp [Role.isUnapplied])
            simp [afterIdle, Stage.allowsCall, isCopied] at isSame
    | _ => exact isSame
  have operand (chain : Chain) (isSame : afterOperand .unbased limits chain role = some behind) :
      afterOperand .called limits' chain role = some behind := by
    cases role with
    | function isLog => 
        have isCopied : limits.copied = true := applied.resolve_right (by simp [Role.isUnapplied])
        simp [afterOperand, isCopied] at isSame
    | call isApplied =>
        cases isApplied with
        | true => cases chain <;> exact isSame
        | false =>
            have isCopied : limits.copied = true := applied.resolve_right (by simp [Role.isUnapplied])
            simp [afterOperand, Stage.allowsCall, isCopied] at isSame
    | _ => exact isSame
  cases mode with
  | function isLog chain =>
      cases role with
      | underscore => simp [formula, Stage.unbased] at isNext
      | blank | caret => exact isNext
      | _ => exact operand chain isNext
  | operand chain | signed chain =>
      cases role <;> first | exact isNext | exact operand chain isNext
  | script | base | arguments | radicand => cases role <;> exact isNext
  | _ => cases role <;> first | exact isNext | exact idle isNext

theorem exists_opens_called {bracket : Bracket} {resume : Mode} {inner : Limits}
    (isCopied : limits.copied = true)
    (opens : (formula .unbased).opens mode limits bracket = some (resume, inner)) :
    ∃ inner', (formula .called).opens mode limits' bracket = some (resume, inner') ∧
      inner.copied = true := by
  cases mode with
  | function | operand | signed | arguments | radicand =>
      cases bracket <;> cases opens <;> exact ⟨_, rfl, isCopied⟩
  | script | atomExponent => cases bracket <;> cases opens <;> exact ⟨_, rfl, rfl⟩
  | base =>
      cases bracket <;> cases opens
      exact ⟨_, rfl, isCopied⟩
  | _ =>
      cases opens
      exact ⟨_, rfl, isCopied⟩

/-- In a part that is copied every function has a group behind it. -/
theorem simulates_called : (formula .called).Simulates (formula .unbased)
    fun place place' => place'.1 = place.1 ∧ place.2.copied = true where
  closes isRelated closes := by
    obtain ⟨isMode, -⟩ := isRelated
    cases isMode
    exact closes
  next isRelated _ isNext := by
    obtain ⟨isMode, isCopied⟩ := isRelated
    cases isMode
    exact ⟨_, next_called (.inl isCopied) isNext, rfl, isCopied⟩
  opens isRelated opens := by
    obtain ⟨isMode, isCopied⟩ := isRelated
    cases isMode
    obtain ⟨inner', opens', isCopied'⟩ := exists_opens_called isCopied opens
    exact ⟨_, inner', opens', ⟨rfl, isCopied⟩, rfl, isCopied'⟩

end Grammar

/-! ## Layers around a core -/

namespace Text.Follows

variable {letter : Char} {mode : Mode} {limits limits' : Limits} {frames : List Frame}
  {count first second third : Nat} {text rest inside : Text}

/-- What is copied may stand where every function has a group behind it. -/
theorem copied (follows : Follows (.formula .unbased) letter
      ⟨mode, { limits with copied := true }, []⟩ count text) :
    Follows (.formula .called) letter ⟨mode, limits', []⟩ count text :=
  follows.simulate Grammar.simulates_called ⟨rfl, rfl⟩ .nil

end Text.Follows

/-- A layer whose exponent is legible. -/
def Layer.IsLegible (letter : Char) (limits : Limits) (count : Nat) : Layer → Prop
  | .sign c => c = '-' ∨ c = '+'
  | .brackets => True
  | .call function none => function.isStandard = true
  | .call function (some exponent) => function.isStandard = true ∧
      Text.Follows (.formula .called) letter ⟨.exponent, limits, []⟩ count exponent

/-- Layers whose exponents are legible. -/
inductive Layer.AreLegible (letter : Char) (limits : Limits) : List Layer → Nat → Prop where
  | nil : AreLegible letter limits [] 0
  | cons {layer : Layer} {layers : List Layer} {first second : Nat}
      (isLegible : layer.IsLegible letter limits first)
      (areLegible : AreLegible letter limits layers second) :
      AreLegible letter limits (layer :: layers) (first + second)

namespace Layer

variable {letter : Char} {mode : Mode} {limits : Limits} {frames : List Frame}
  {first second third : Nat} {inside rest : Text}

/-- A call may stand where its function and a group may stand. -/
theorem call_append {function : Callable} {exponent? : Option Text}
    (isLegible : (Layer.call function exponent?).IsLegible letter limits first)
    (isNext : (Grammar.formula .called).next mode limits (.call true) =
      some (.function false .alone))
    (opens : (Grammar.formula .called).opens mode limits .round = some (.idle, limits))
    (isInside : Text.Follows (.formula .called) letter ⟨.idle, limits, []⟩ second inside)
    (later : Text.Follows (.formula .called) letter ⟨.idle, limits, frames⟩ third rest) :
    Text.Follows (.formula .called) letter ⟨mode, limits, frames⟩ (first + (second + third))
      ((Layer.call function exponent?).around inside ++ rest) := by
  have same := Limits.behind_alone limits
  cases exponent? with
  | none =>
      have whole := Text.Follows.call_append function isLegible isNext (same ▸ isInside) later
      rw [around, List.append_assoc]
      exact whole.mono_count (Nat.le_add_left _ _)
  | some exponent =>
      obtain ⟨isStandard, isExponent⟩ := isLegible
      have raised : Text.Follows (.formula .called) letter ⟨.idle, limits, []⟩ first
          ('^' :: exponent) := isExponent.cons (by decide) rfl rfl
      have power := Text.Follows.call_append function isStandard
        (Grammar.next_idle_call .called limits) (same ▸ isInside) raised
      have whole := Text.Follows.parenthesized_append opens power later
      rw [around, List.append_assoc]
      exact whole.mono_count (by omega)

/-- Layers may stand around a core that nothing is expected in front of. -/
theorem around_foldr {layers : List Layer} (areLegible : AreLegible letter limits layers first)
    (isCore : Text.Follows (.formula .called) letter ⟨.idle, limits, []⟩ second inside) :
    Text.Follows (.formula .called) letter ⟨.idle, limits, []⟩ (first + second)
      (layers.foldr around inside) := by
  induction areLegible with
  | nil => rwa [Nat.zero_add]
  | @cons layer layers first third isLegible _ ih =>
      cases layer with
      | sign c =>
          have isSign : Role.ofChar? c = some .sign ∧ c.isAlpha = false := by
            rcases isLegible with rfl | rfl <;> exact ⟨rfl, rfl⟩
          exact (ih.cons isSign.2 isSign.1 rfl).mono_count (by omega)
      | brackets =>
          have whole :=
            Text.Follows.parenthesized_append (Grammar.opens_idle .called limits .round) ih .ended
          rw [List.append_nil] at whole
          exact whole.mono_count (by omega)
      | call function exponent? =>
          have whole := call_append isLegible (Grammar.next_idle_call .called limits) rfl ih .ended
          rw [List.append_nil] at whole
          exact whole.mono_count (by omega)

/-- A call stands for its function, whatever comes behind. -/
theorem standsFor_call (function : Callable) (exponent? : Option Text) (inside tail rest : Text) :
    ((Layer.call function exponent?).around inside ++ tail).StandsFor (function.text ++ rest) := by
  cases exponent? with
  | none =>
      rw [around, List.append_assoc]
      exact (Text.StandsFor.of_ends rfl fun _ => rfl).append function.text
  | some exponent =>
      rw [around, Text.parenthesized_append]
      exact .of_ends rfl fun _ => rfl

end Layer

/-! ## Operands behind the renaming -/

namespace Text

theorem exponent?_eq_none {text rest : Text} {c : Char} (start : text.skipBlanks = c :: rest)
    (plain : Bracket.ofArgument? c = none)
    (noConstant : Vocabulary.standard.constantAt? (c :: rest) = none) (noWord : c.isAlphanum = false) :
    text.exponent? .standard = none := by
  rw [exponent?, start]
  simp only [plain, noConstant, noWord, Bool.false_eq_true, if_false]

namespace Follows

variable {letter : Char} {mode : Mode} {limits inner : Limits} {chain : Chain} {frames : List Frame}
  {count : Nat} {text rest : Text} {c : Char}

/-- An exponent that is read is a group or a single glyph. -/
theorem exponent?_cases {grammar : Grammar}
    (follows : Follows grammar letter ⟨mode, limits, frames⟩ count text)
    (noCall : ∀ applied, grammar.next mode limits (.call applied) = none) {exponent : Cut}
    (found : text.exponent? .standard = some exponent) :
    (∃ (bracket : Bracket) (rest : Text) (group : Group), bracket ≠ .square ∧
      text.skipBlanks = bracket.opener :: rest ∧ bracket.group? rest = some group ∧
        exponent = ⟨group.inside.wrap, group.rest⟩) ∨
      ∃ (glyph : Glyph) (role : Role) (behind : Mode) (later : Nat),
        text.skipBlanks = glyph.source ++ exponent.rest ∧ exponent.text = glyph.source ∧
          glyph.source.all Char.isAlphanum = true ∧ glyph.role? exponent.rest = some role ∧
            role ∈ [.digit, .letter, .euler, .value true] ∧
              grammar.next mode limits role = some behind ∧ glyph.weight letter + later = count ∧
                Follows grammar letter ⟨behind, limits, frames⟩ later exponent.rest := by
  have skipped := follows.skipBlanks
  generalize start : text.skipBlanks = visible at skipped ⊢
  cases skipped.starts with
  | done =>
      rw [exponent?, start] at found
      cases found
  | @closer frame _ _ rest =>
      have noConstant : Vocabulary.standard.constantAt? (frame.bracket.closer :: rest) = none :=
        Vocabulary.standard.constantAt?_eq_none (by cases frame.bracket <;> rfl) rest
      rw [exponent?_eq_none start (by cases frame.bracket <;> rfl) noConstant
        (by cases frame.bracket <;> rfl)] at found
      cases found
  | @group bracket _ _ rest group _ _ _ _ isGroup =>
      left
      by_cases fixed : bracket = .square
      · subst fixed
        rw [exponent?_eq_none start rfl (Vocabulary.standard.constantAt?_eq_none rfl rest) rfl] at found
        cases found
      · rw [exponent?_group fixed start isGroup] at found
        exact ⟨bracket, rest, group, fixed, rfl, isGroup, (Option.some.inj found).symm⟩
  | @glyph glyph role behind after _ later isRole plain isNext isRest =>
      right
      cases glyph with
      | char c =>
          cases word : c.isAlphanum with
          | false =>
              have noOpener : Bracket.ofArgument? c = none := by
                rw [Option.eq_none_iff_forall_ne_some]
                intro bracket opens
                obtain rfl := opener_of_ofArgument? opens
                have isOpener := Glyph.ofChar?_of_role? isRole
                rw [Role.ofChar?_opener] at isOpener
                cases isOpener
                cases plain
              rw [exponent?_eq_none start noOpener (Glyph.constantAt?_char isRole) word] at found
              cases found
          | true =>
              rw [exponent?_word start isRole word] at found
              cases found
              refine ⟨.char c, role, behind, later, rfl, rfl, by simp [Glyph.source, word], isRole, ?_,
                isNext, rfl, isRest⟩
              rcases Bool.or_eq_true_iff.1 word with isLetter | isDigit
              · rcases Glyph.role_of_letter isRole isLetter with rfl | rfl <;> simp
              · rw [Role.eq_digit_of_isDecimalDigit (Glyph.ofChar?_of_role? isRole)
                  (isDecimalDigit_of_isDigit isDigit)]
                simp
      | call callable =>
          obtain ⟨rfl, -, -⟩ := Glyph.exists_call isRole
          cases (noCall _).symm.trans isNext
      | value name =>
          obtain ⟨rfl, -, -⟩ := Glyph.exists_value isRole
          rw [exponent?_value start isRole] at found
          cases found
          exact ⟨.value name, _, behind, later, rfl, rfl, name.all_isAlphanum, isRole, by simp, isNext,
            rfl, isRest⟩
      | word name =>
          rw [exponent?_eq_none start rfl (Vocabulary.standard.constantAt?_eq_none rfl _) rfl] at found
          cases found

/-- The exponent of a letter, as far as it is read. -/
theorem atomExponent
    (follows : Follows (.formula .unbased) letter ⟨.atomExponent, limits, frames⟩ count text)
    (isCopied : inner = { limits with copied := true }) {exponent : Cut}
    (found : text.exponent? .standard = some exponent) :
    ∃ first second behind, first + second = count ∧ (behind = .idle ∨ behind = .euler) ∧
      Leads .unbased letter inner .atomExponent behind first text exponent.rest ∧
        Follows (.formula .unbased) letter ⟨.idle, limits, frames⟩ second exponent.rest := by
  have gap : Leads .unbased letter inner .atomExponent .atomExponent 0 text text.skipBlanks :=
    .skipBlanks follows
  rcases follows.exponent?_cases (fun _ => rfl) found with
    ⟨bracket, rest, group, fixed, start, isGroup, rfl⟩ |
    ⟨glyph, role, mode', later, start, -, -, isRole, isMember, isNext, isSum, isRest⟩
  · have skipped := follows.skipBlanks
    rw [start] at skipped gap
    obtain ⟨resume, deeper, group', first, second, opens, isGroup', isSum, isInside, isRest⟩ :=
      exists_group skipped
    cases isGroup.symm.trans isGroup'
    simp only [Grammar.formula, if_neg fixed, Option.some.injEq, Prod.mk.injEq] at opens
    obtain ⟨rfl, rfl⟩ := opens
    have braces : Leads .unbased letter inner .atomExponent .idle first
        (bracket.opener :: (group.inside ++ bracket.closer :: group.rest)) group.rest := by
      refine .group ?_ (isCopied ▸ isInside)
      rw [isCopied]
      exact if_neg fixed
    rw [← Bracket.eq_of_group? isGroup] at braces
    exact ⟨first, second, .idle, isSum, .inl rfl, by simpa using gap.trans braces, isRest⟩
  · rw [start] at gap
    have noCall : ∀ applied, role ≠ .call applied := by
      rintro applied rfl
      simp at isMember
    have isPlain : role.isBracket = false := by
      simp only [List.mem_cons, List.not_mem_nil, or_false] at isMember
      rcases isMember with rfl | rfl | rfl | rfl <;> rfl
    have isBehind : (mode' = .idle ∨ mode' = .euler) ∧
        (Grammar.formula .unbased).next .atomExponent inner role = some mode' := by
      simp only [List.mem_cons, List.not_mem_nil, or_false] at isMember
      rcases isMember with rfl | rfl | rfl | rfl <;> cases isNext <;> exact ⟨by simp, rfl⟩
    have leads := gap.trans (.glyph isRole noCall isPlain isBehind.2)
    refine ⟨_, later, mode', isSum, isBehind.1, by simpa using leads, ?_⟩
    rcases isBehind.1 with rfl | rfl
    · exact isRest
    · exact isRest.widen .euler

/-- A letter is read with its exponent, if it has one that can be read. -/
theorem afterAtom?_cases (noConstant : Vocabulary.standard.constantAt? (c :: rest) = none)
    (isLetter : c.isAlpha = true)
    (noCallable : Vocabulary.standard.callableAt? (c :: rest) = none) :
    afterAtom? .standard (c :: rest) = some rest ∨ ∃ (script : Text) (exponent : Cut),
      rest.skipBlanks = '^' :: script ∧ script.exponent? .standard = some exponent ∧
        afterAtom? .standard (c :: rest) = some exponent.rest := by
  simp only [afterAtom?, noConstant, isLetter, noCallable, Option.isNone_none, Bool.and_true, if_true]
  split
  · rename_i script start
    split
    · rename_i exponent found
      exact .inr ⟨script, exponent, start, found, rfl⟩
    · exact .inl rfl
  · exact .inl rfl

/-- What is read of a letter with its exponent, behind the letter. -/
theorem afterAtom (follows : Follows (.formula .unbased) letter ⟨.atom, limits, frames⟩ count rest)
    (isCopied : inner = { limits with copied := true })
    (noConstant : Vocabulary.standard.constantAt? (c :: rest) = none) (isLetter : c.isAlpha = true)
    (noCallable : Vocabulary.standard.callableAt? (c :: rest) = none) :
    ∃ after first second behind, afterAtom? .standard (c :: rest) = some after ∧
      first + second = count ∧ (Grammar.formula .unbased).closes behind = true ∧
        Leads .unbased letter inner .atom behind first rest after ∧
          Follows (.formula .unbased) letter ⟨.idle, limits, frames⟩ second after := by
  rcases afterAtom?_cases noConstant isLetter noCallable with
    isAfter | ⟨script, exponent, start, found, isAfter⟩
  · exact ⟨rest, 0, count, .atom, isAfter, Nat.zero_add count, rfl, .refl rest, follows.widen .atom⟩
  · have skipped := follows.skipBlanks
    have gap : Leads .unbased letter inner .atom .atom 0 rest rest.skipBlanks := .skipBlanks follows
    rw [start] at skipped gap
    obtain ⟨_, _, isRole, moves, behind⟩ :=
      skipped.exists_char (by decide) (by decide) (by decide)
    cases isRole
    cases moves
    obtain ⟨first, second, ended, isSum, isEnded, leads, isRest⟩ := behind.atomExponent isCopied found
    have caret : Leads .unbased letter inner .atom .atomExponent 0 ('^' :: script) script :=
      .cons (by decide) rfl rfl rfl
    refine ⟨exponent.rest, first, second, ended, isAfter, isSum, ?_,
      by simpa using gap.trans (caret.trans leads), isRest⟩
    rcases isEnded with rfl | rfl <;> rfl

end Follows

end Text

/-! ## Applications -/

namespace Application

variable {letter : Char} {mode : Mode} {limits inner : Limits} {chain : Chain} {frames : List Frame}
  {first second count : Nat} {text rest : Text} {application : Application} {c : Char}

/-- An application with legible layers and a legible core, behind which nothing is expected.  Calls
are completed in the core if it was a group. -/
def IsLegible (letter : Char) (limits : Limits) (frames : List Frame) (count : Nat)
    (application : Application) : Prop :=
  '\\' ∉ application.core ∧ '\\' ∉ application.rest ∧
  ∃ around core after, around + (core + after) = count ∧
    Layer.AreLegible letter limits application.layers around ∧
      Text.Follows (.formula (if application.grouped then .unbased else .called)) letter
          ⟨.idle, limits, []⟩ core application.core ∧
        Text.Follows (.formula .unbased) letter ⟨.idle, limits, frames⟩ after application.rest

theorem IsLegible.within {layer : Layer} (isLayer : layer.IsLegible letter limits first)
    (isLegible : application.IsLegible letter limits frames second) :
    (application.within layer).IsLegible letter limits frames (first + second) := by
  obtain ⟨plainCore, plainRest, around, core, after, rfl, layers, isCore, isRest⟩ := isLegible
  exact ⟨plainCore, plainRest, first + around, core, after, Nat.add_assoc _ _ _,
    .cons isLayer layers, isCore, isRest⟩

theorem IsLegible.signed (isSign : c = '-' ∨ c = '+') (operand : Text)
    (isLegible : application.IsLegible letter limits frames second) :
    (application.signed c operand).IsLegible letter limits frames second := by
  have sign : (Layer.sign c).IsLegible letter limits 0 := isSign
  rw [Application.signed]
  split
  · have brackets : Layer.brackets.IsLegible letter limits 0 := trivial
    simpa using (isLegible.within brackets).within sign
  · simpa using isLegible.within sign

/-- What is copied is a legible core. -/
theorem isLegible_ofPlain {behind : Mode} (noBack : '\\' ∉ text)
    (isCopied : inner = { limits with copied := true })
    (isWithin : mode.Within .idle) (closes : (Grammar.formula .unbased).closes behind = true)
    (leads : Text.Leads .unbased letter inner mode behind first text rest)
    (isRest : Text.Follows (.formula .unbased) letter ⟨.idle, limits, frames⟩ second rest) :
    (ofPlain text rest).IsLegible letter limits frames (first + second) := by
  obtain ⟨piece, rfl, isPiece⟩ := leads.exists_piece closes
  rw [List.mem_append, not_or] at noBack
  subst isCopied
  rw [ofPlain, Text.before_append]
  exact ⟨noBack.1, noBack.2, 0, first, second, Nat.zero_add _, .nil,
    (isPiece.widen isWithin).copied, isRest⟩

/-- A group is a legible core. -/
theorem isLegible_ofGroup {bracket : Bracket} {group : Group} (noBack : '\\' ∉ text)
    (found : bracket.group? text = some group)
    (isInside : Text.Follows (.formula .unbased) letter ⟨.idle, limits, []⟩ first group.inside)
    (isRest : Text.Follows (.formula .unbased) letter ⟨.idle, limits, frames⟩ second group.rest) :
    (ofGroup group).IsLegible letter limits frames (first + second) := by
  rw [Bracket.eq_of_group? found, List.mem_append, List.mem_cons, not_or, not_or] at noBack
  exact ⟨noBack.1, noBack.2.2, 0, first, second, Nat.zero_add _, .nil, isInside, isRest⟩

/-- What is read behind the name of a function, a group included. -/
def argument? (function : Callable) (text : Text) : Option Application :=
  (read? .standard (some function) text).or
    ((ofGroupArgument? text).map (·.within (.call function none)))

/-! ### What an operand begins with -/

theorem read?_sign (isSign : c = '-' ∨ c = '+') (rest : Text) :
    read? .standard none (c :: rest) =
      (read? .standard none (Text.skipBlanks rest)).map (signed c (Text.skipBlanks rest)) := by
  have noCallable : Vocabulary.standard.callableAt? (c :: rest) = none := by
    rcases isSign with rfl | rfl <;>
      exact Vocabulary.standard.callableAt?_eq_none rfl (by decide) rest
  rw [read?_operand_eq, noCallable]
  simp only [if_pos isSign]

theorem read?_digit (digit : c.isDigit = true) (rest : Text) :
    read? .standard none (c :: rest) =
      some (ofPlain (c :: rest) (Text.afterCoefficient .standard (c :: rest))) := by
  have word : c.isAlphanum = true := by simp [Char.isAlphanum, digit]
  have noCallable : Vocabulary.standard.callableAt? (c :: rest) = none :=
    Vocabulary.standard.callableAt?_eq_none (isAlpha_eq_false_of_isDigit digit)
      (ne_of_isAlphanum word (by decide)) rest
  have noSign : ¬ (c = '-' ∨ c = '+') :=
    not_or.2 ⟨ne_of_isAlphanum word (by decide), ne_of_isAlphanum word (by decide)⟩
  rw [read?_operand_eq, noCallable]
  simp only [if_neg noSign, Bracket.ofArgument?_of_isAlphanum word, digit, if_true]

theorem read?_atom (isLetter : c.isAlpha = true)
    (noCallable : Vocabulary.standard.callableAt? (c :: rest) = none) {after : Text}
    (found : Text.afterAtom? .standard (c :: rest) = some after) :
    read? .standard none (c :: rest) = some (ofPlain (c :: rest) after) := by
  have word : c.isAlphanum = true := by simp [Char.isAlphanum, isLetter]
  have noSign : ¬ (c = '-' ∨ c = '+') :=
    not_or.2 ⟨ne_of_isAlphanum word (by decide), ne_of_isAlphanum word (by decide)⟩
  rw [read?_operand_eq, noCallable]
  simp only [if_neg noSign, Bracket.ofArgument?_of_isAlphanum word,
    isDigit_eq_false_of_isAlpha isLetter, Bool.false_eq_true, if_false, found, Option.map_some]

/-- An operand is read at the start of a text, and it is legible. -/
def HasOperand (letter : Char) (limits : Limits) (frames : List Frame) (count : Nat)
    (text : Text) : Prop :=
  ∃ application, read? .standard none text = some application ∧
    application.IsLegible letter limits frames count

/-- Wherever an operand is expected at the start of a text, it is read. -/
def ReadsOperands (letter : Char) (text : Text) : Prop :=
  ∀ {mode : Mode} {chain : Chain} {limits : Limits} {frames : List Frame} {count : Nat},
    chain ≠ .based → mode = .operand chain ∨ mode = .signed chain →
      Text.Follows (.formula .unbased) letter ⟨mode, limits, frames⟩ count text →
        text.skipBlanks = text → '\\' ∉ text → HasOperand letter limits frames count text

/-- The argument of a function is read behind it, and it is legible. -/
def HasArgument (letter : Char) (limits : Limits) (frames : List Frame) (count : Nat)
    (function : Callable) (text : Text) : Prop :=
  ∃ application exponent? layers, argument? function text = some application ∧
    application.layers = .call function exponent? :: layers ∧
      application.IsLegible letter limits frames count

/-! ### The argument of a function -/

section

variable {function : Callable} {group : Group} {bracket : Bracket}

/-- The function has an exponent. -/
theorem hasArgument_raised
    (reads : ∀ operand : Text, operand.length ≤ text.length → ReadsOperands letter operand)
    (isStandard : function.isStandard = true) (unbased : chain ≠ .based)
    (start : text.skipBlanks = '^' :: rest) (noBack : '\\' ∉ rest)
    (follows : Text.Follows (.formula .unbased) letter ⟨.function false chain, limits, frames⟩ count
      ('^' :: rest)) : HasArgument letter limits frames count function text := by
  obtain ⟨_, _, isRole, moves, behind⟩ :=
    follows.exists_char (by decide) (by decide) (by decide)
  cases isRole
  obtain ⟨mode', isNext, rfl⟩ := Grammar.exists_of_step rfl moves
  simp only [Grammar.formula, if_neg unbased, Option.some.injEq] at isNext
  subst isNext
  obtain ⟨exponent, first, second, isExponent, rfl, script, -, later⟩ := behind.script
  have passes : Text.Passes false rest exponent.rest := Text.passes_of_exponent? isExponent
  have ends : exponent.rest.skipBlanks <:+ rest := (List.dropWhile_suffix _).trans passes.suffix
  have shorter : exponent.rest.skipBlanks.length ≤ text.length := by
    have visible := text.length_skipBlanks_le
    have whole := ends.length_le
    rw [start, List.length_cons] at visible
    omega
  obtain ⟨application, isOperand, isLegible⟩ :=
    reads exponent.rest.skipBlanks shorter (by simp) (.inl rfl) later.skipBlanks
      (Text.skipBlanks_skipBlanks _) fun isMember => noBack (ends.subset isMember)
  have raised : (Layer.call function (some exponent.text)).IsLegible letter limits first :=
    ⟨isStandard, script.copied⟩
  refine ⟨application.within (.call function (some exponent.text)), _, _, ?_, rfl,
    isLegible.within raised⟩
  have isRead := read?_function_eq .standard function text
  rw [start] at isRead
  simp only [if_true, isExponent, Option.bind_some, isOperand, Option.map_some] at isRead
  rw [argument?, isRead, Option.some_or]

/-- The argument of the function is a group. -/
theorem hasArgument_group (isStandard : function.isStandard = true) (unbased : chain ≠ .based)
    (start : text.skipBlanks = bracket.opener :: rest)
    (isOpener : Bracket.ofArgument? bracket.opener = some bracket) (noBack : '\\' ∉ rest)
    (follows : Text.Follows (.formula .unbased) letter ⟨.function false chain, limits, frames⟩ count
      (bracket.opener :: rest)) : HasArgument letter limits frames count function text := by
  obtain ⟨resume, inner, group, first, second, opens, found, rfl, isInside, isRest⟩ :=
    Text.Follows.exists_group follows
  have same : limits.behind chain = limits := by simp [Limits.behind, unbased]
  simp only [Grammar.formula, if_neg (Text.ne_square_of_ofArgument? isOpener), same,
    Option.some.injEq, Prod.mk.injEq] at opens
  obtain ⟨rfl, rfl⟩ := opens
  have call : (Layer.call function none).IsLegible letter limits 0 := isStandard
  have noCaret : bracket.opener ≠ '^' := by cases bracket <;> decide
  refine ⟨(ofGroup group).within (.call function none), none, [], ?_, rfl, ?_⟩
  · have isRead := read?_function_eq .standard function text
    rw [start] at isRead
    simp only [if_neg noCaret, isOpener, Option.isSome_some, if_true] at isRead
    rw [argument?, isRead, Option.none_or, ofGroupArgument?, start]
    simp only [isOpener, Option.bind_some, found, Option.map_some]
  · simpa using (isLegible_ofGroup noBack found isInside isRest).within call

/-- The argument of the function is an operand without brackets. -/
theorem hasArgument_operand
    (reads : ∀ operand : Text, operand.length ≤ text.length → ReadsOperands letter operand)
    (isStandard : function.isStandard = true) (unbased : chain ≠ .based)
    (ends : text.endsRun Char.isAlphanum = true) (start : text.skipBlanks = c :: rest)
    (noCaret : c ≠ '^') (noOpener : Bracket.ofArgument? c = none) (noBack : '\\' ∉ c :: rest)
    (follows : Text.Follows (.formula .unbased) letter ⟨.function false chain, limits, frames⟩ count
      (c :: rest)) : HasArgument letter limits frames count function text := by
  have visible : c ≠ ' ' := by
    rintro rfl
    exact absurd (Text.not_isAsciiBlank_of_skipBlanks start) (by decide)
  have noBase : c ≠ '_' := by
    rintro rfl
    obtain ⟨_, _, isRole, moves, -⟩ := follows.exists_char (by decide) (by decide) (by decide)
    cases isRole
    exact (Text.Follows.ne_of_unbased moves).1 rfl
  have apart : text.head?.any Char.isAlpha = false := by
    cases text with
    | nil => rfl
    | cons d later =>
        have noWord : d.isAlphanum = false := by simpa [Text.endsRun] using ends
        exact (Bool.or_eq_false_iff.1 noWord).1
  have call : (Layer.call function none).IsLegible letter limits 0 := isStandard
  obtain ⟨application, isOperand, isLegible⟩ :=
    reads (c :: rest) (start ▸ text.length_skipBlanks_le) unbased (.inl rfl)
      (follows.operand_of_function visible noCaret noBase)
      (start ▸ Text.skipBlanks_skipBlanks text) noBack
  refine ⟨application.within (.call function none), none, _, ?_, rfl, ?_⟩
  · have isRead := read?_function_eq .standard function text
    rw [start] at isRead
    simp only [if_neg noCaret, noOpener, Option.isSome_none, Bool.false_eq_true, if_false, apart,
      Bool.false_and, isOperand, Option.map_some] at isRead
    rw [argument?, isRead, Option.some_or]
  · simpa using isLegible.within call

/-- Behind a function its argument is read, with the exponent of the function in front of it. -/
theorem hasArgument
    (reads : ∀ operand : Text, operand.length ≤ text.length → ReadsOperands letter operand)
    (isStandard : function.isStandard = true) (unbased : chain ≠ .based)
    (ends : text.endsRun Char.isAlphanum = true) (noBack : '\\' ∉ text)
    (follows : Text.Follows (.formula .unbased) letter ⟨.function false chain, limits, frames⟩ count
      text) : HasArgument letter limits frames count function text := by
  have skipped := follows.skipBlanks
  have isSuffix : text.skipBlanks <:+ text := List.dropWhile_suffix _
  have visible : '\\' ∉ text.skipBlanks := fun isMember => noBack (isSuffix.subset isMember)
  cases start : text.skipBlanks with
  | nil =>
      rw [start] at skipped
      exact absurd skipped.of_nil.1 Bool.false_ne_true
  | cons c rest =>
      rw [start] at skipped visible
      have noRest : '\\' ∉ rest := fun isMember => visible (List.mem_cons_of_mem _ isMember)
      by_cases isCaret : c = '^'
      · subst isCaret
        exact hasArgument_raised reads isStandard unbased start noRest skipped
      · cases isOpener : Bracket.ofArgument? c with
        | some bracket =>
            obtain rfl := Text.opener_of_ofArgument? isOpener
            exact hasArgument_group isStandard unbased start isOpener noRest skipped
        | none =>
            exact hasArgument_operand reads isStandard unbased ends start isCaret isOpener visible
              skipped

end

/-! ### Operands -/

section

variable {glyph : Glyph} {role : Role} {behind : Mode} {after : Text}

theorem within_idle (isMode : mode = .operand chain ∨ mode = .signed chain) : mode.Within .idle := by
  rcases isMode with rfl | rfl
  · exact .operand chain
  · exact .signed chain

theorem hasOperand_group {bracket : Bracket} {resume : Mode} {group : Group}
    (unbased : chain ≠ .based) (isMode : mode = .operand chain ∨ mode = .signed chain)
    (noBack : '\\' ∉ rest)
    (opens : (Grammar.formula .unbased).opens mode limits bracket = some (resume, inner))
    (found : bracket.group? rest = some group)
    (isInside : Text.Follows (.formula .unbased) letter ⟨.idle, inner, []⟩ first group.inside)
    (isRest : Text.Follows (.formula .unbased) letter ⟨resume, limits, frames⟩ second group.rest) :
    HasOperand letter limits frames (first + second) (bracket.opener :: rest) := by
  obtain ⟨fixed, rfl, rfl⟩ := Grammar.opens_operand isMode opens
  have same : limits.behind chain = limits := by simp [Limits.behind, unbased]
  rw [same] at isInside
  exact ⟨ofGroup group, (read?_opener fixed _).trans (congrArg (Option.map ofGroup) found),
    isLegible_ofGroup noBack found isInside isRest⟩

/-- A function with its argument. -/
theorem hasOperand_call {callable : Callable}
    (reads : ∀ operand : Text, operand.length ≤ after.length → ReadsOperands letter operand)
    (unbased : chain ≠ .based) (isMode : mode = .operand chain ∨ mode = .signed chain)
    (noBack : '\\' ∉ after) (isRole : (Glyph.call callable).role? after = some role)
    (isNext : (Grammar.formula .unbased).next mode limits role = some behind)
    (isRest : Text.Follows (.formula .unbased) letter ⟨behind, limits, frames⟩ count after) :
    HasOperand letter limits frames ((Glyph.call callable).weight letter + count)
      ((Glyph.call callable).source ++ after) := by
  obtain ⟨rfl, isStandard, ends⟩ := Glyph.exists_call isRole
  obtain ⟨-, isSame⟩ :=
    Option.ite_none_right_eq_some.1 (Grammar.afterOperand_of_next isMode (by simp) isNext)
  cases isSame
  obtain ⟨application, exponent?, layers, isArgument, -, isLegible⟩ :=
    hasArgument reads isStandard unbased ends noBack isRest
  refine ⟨application, ?_, by simpa [Glyph.weight] using isLegible⟩
  rw [read?_operand_eq, Glyph.source, Glyph.callableAt?_call isRole]
  exact isArgument

/-- A constant. -/
theorem hasOperand_value {name : Name} (isMode : mode = .operand chain ∨ mode = .signed chain)
    (noBack : '\\' ∉ (Glyph.value name).source ++ after)
    (isRole : (Glyph.value name).role? after = some role)
    (isNext : (Grammar.formula .unbased).next mode limits role = some behind)
    (isRest : Text.Follows (.formula .unbased) letter ⟨behind, limits, frames⟩ count after) :
    HasOperand letter limits frames ((Glyph.value name).weight letter + count)
      ((Glyph.value name).source ++ after) := by
  obtain ⟨rfl, -, -⟩ := Glyph.exists_value isRole
  cases (Grammar.next_value isMode true limits).symm.trans isNext
  obtain ⟨c, run, isName, isLetter, -⟩ := Glyph.exists_letter_of_value isRole
  have isAfter : Text.afterAtom? .standard (name.text ++ after) = some after := by
    simp only [Text.afterAtom?, Glyph.constantAt?_value isRole]
  have noCallable : Vocabulary.standard.callableAt? (c :: (run ++ after)) = none :=
    Glyph.callableAt?_value isRole (by simp [isName])
  have isRead : read? .standard none (name.text ++ after) =
      some (ofPlain (name.text ++ after) after) := by
    rw [isName, List.cons_append] at isAfter ⊢
    exact read?_atom isLetter noCallable isAfter
  exact ⟨_, isRead, isLegible_ofPlain noBack rfl (within_idle isMode) rfl
    (.glyph isRole (by simp) rfl (Grammar.next_value isMode true _)) isRest⟩

/-- A letter with its exponent. -/
theorem hasOperand_atom (isMode : mode = .operand chain ∨ mode = .signed chain)
    (noBack : '\\' ∉ c :: after) (isLetter : c.isAlpha = true)
    (isRole : (Glyph.char c).role? after = some role)
    (isNext : (Grammar.formula .unbased).next mode limits role = some behind)
    (isRest : Text.Follows (.formula .unbased) letter ⟨behind, limits, frames⟩ count after) :
    HasOperand letter limits frames ((Glyph.char c).weight letter + count) (c :: after) := by
  have isAtom := Glyph.role_of_letter isRole isLetter
  have plain : (∀ applied, role ≠ .call applied) ∧ role.isBracket = false := by
    rcases isAtom with rfl | rfl <;> exact ⟨by simp, rfl⟩
  have noCallable := Glyph.callableAt?_char isRole
  cases (Grammar.next_atom isMode isAtom limits).symm.trans isNext
  obtain ⟨rest, first, second, ended, isAfter, rfl, closes, leads, later⟩ :=
    isRest.afterAtom rfl (Glyph.constantAt?_char isRole) isLetter noCallable
  have whole := isLegible_ofPlain noBack rfl (within_idle isMode) closes
    ((Text.Leads.glyph isRole plain.1 plain.2 (Grammar.next_atom isMode isAtom _)).trans leads) later
  exact ⟨_, read?_atom isLetter noCallable isAfter, Nat.add_assoc _ _ _ ▸ whole⟩

/-- A sign with its operand. -/
theorem hasOperand_sign (reads : ReadsOperands letter after.skipBlanks) (unbased : chain ≠ .based)
    (isMode : mode = .operand chain ∨ mode = .signed chain) (isSign : c = '-' ∨ c = '+')
    (noBack : '\\' ∉ after)
    (isNext : (Grammar.formula .unbased).next mode limits .sign = some behind)
    (isRest : Text.Follows (.formula .unbased) letter ⟨behind, limits, frames⟩ count after) :
    HasOperand letter limits frames ((Glyph.char c).weight letter + count) (c :: after) := by
  cases Grammar.afterOperand_of_next isMode (by simp) isNext
  obtain ⟨application, isRead, isLegible⟩ := reads unbased (.inr rfl) isRest.skipBlanks
    (Text.skipBlanks_skipBlanks after) fun isMember =>
      noBack ((List.dropWhile_suffix _).subset isMember)
  have noLetter : c.isAlpha = false := by rcases isSign with rfl | rfl <;> rfl
  rw [Glyph.weight_of_not_isAlpha letter noLetter, Nat.zero_add]
  refine ⟨application.signed c (Text.skipBlanks after), ?_, isLegible.signed isSign _⟩
  rw [read?_sign isSign after, isRead, Option.map_some]

end

/-- An operand is read wherever one is expected. -/
theorem readsOperands (letter : Char) (text : Text) : ReadsOperands letter text := by
  induction length : text.length using Nat.strongRecOn generalizing text with
  | ind bound ih =>
    intro mode chain limits frames count unbased isMode follows start noBack
    have isOpen : (Grammar.formula .unbased).closes mode = false :=
      Grammar.closes_operand rfl isMode
    cases follows.starts with
    | done _ closes | closer closes => cases closes.symm.trans isOpen
    | group opens found isInside isRest =>
        exact hasOperand_group unbased isMode (fun isMember => noBack (List.mem_cons_of_mem _ isMember))
          opens found isInside isRest
    | @glyph glyph role behind after _ later isRole plain isNext isRest =>
        have shorter : after.length < bound := by
          have nonempty := List.length_pos_iff.2 (Glyph.source_ne_nil isRole)
          rw [List.length_append] at length
          omega
        have noBack' : '\\' ∉ after := fun isMember => noBack (List.mem_append_right _ isMember)
        cases glyph with
        | call callable =>
            exact hasOperand_call (fun operand le => ih operand.length (by omega) operand rfl) unbased
              isMode noBack' isRole isNext isRest
        | value name => exact hasOperand_value isMode noBack isRole isNext isRest
        | word name => exact absurd (List.mem_append_left _ List.mem_cons_self) noBack
        | char c =>
            have fits := Role.fits_of_ofChar? (Glyph.ofChar?_of_role? isRole)
            cases role with
            | blank => exact absurd rfl (Text.Follows.ne_blank_of_skipBlanks start isRole)
            | sign =>
                have passed := Text.length_skipBlanks_le after
                exact hasOperand_sign (ih after.skipBlanks.length (by omega) _ rfl) unbased isMode fits
                  noBack' isNext isRest
            | digit =>
                obtain ⟨first, second, ended, isSum, closes, leads, isRest⟩ :=
                  follows.coefficient (fun _ => by rcases isMode with rfl | rfl <;> rfl) fits
                exact ⟨_, read?_digit fits after, isSum ▸
                  isLegible_ofPlain noBack rfl (within_idle isMode) closes (leads _) isRest⟩
            | euler =>
                have isLetter : c.isAlpha = true := by
                  cases fits
                  rfl
                exact hasOperand_atom isMode noBack isLetter isRole isNext isRest
            | letter => exact hasOperand_atom isMode noBack fits isRole isNext isRest
            | mark | caret | underscore | point =>
                cases Grammar.afterOperand_of_next isMode (by simp) isNext
            | «opens» | closes => cases plain
            | _ => exact fits.elim

end Application

/-! ## Completed calls -/

/-- A glyph that is no function waits for no argument. -/
theorem Glyph.isUnapplied_eq_false {glyph : Glyph} {rest : Text} {role : Role}
    (isRole : glyph.role? rest = some role) (noWord : ∀ name, glyph ≠ .word name)
    (noCall : ∀ callable, glyph ≠ .call callable) : role.isUnapplied = false := by
  cases glyph with
  | char c =>
      have fits := Role.fits_of_ofChar? (Glyph.ofChar?_of_role? isRole)
      cases role <;> first | rfl | exact fits.elim
  | value name =>
      obtain ⟨rfl, -, -⟩ := Glyph.exists_value isRole
      rfl
  | call callable => exact absurd rfl (noCall callable)
  | word name => exact absurd rfl (noWord name)

/-- Whether no argument is expected in a mode. -/
def Mode.isSettled : Mode → Bool
  | .idle | .exponent | .euler => true
  | _ => false

namespace Text

/-- Calls are completed behind a glyph that is no function. -/
theorem completeCalls_glyph {glyph : Glyph} {rest : Text} {role : Role}
    (isRole : glyph.role? rest = some role) (noWord : ∀ name, glyph ≠ .word name)
    (noCall : ∀ callable, glyph ≠ .call callable) :
    completeCalls .standard false (glyph.source ++ rest) =
      glyph.source ++ completeCalls .standard false rest := by
  have noBack := Glyph.not_mem_source isRole noWord
  cases glyph with
  | char c =>
      exact completeCalls_plain (fun same => noBack (same ▸ List.mem_singleton_self c))
        (Glyph.callableAt?_char isRole)
  | call callable => exact absurd rfl (noCall callable)
  | word name => exact absurd rfl (noWord name)
  | value name =>
      suffices passed : ∀ run : Text, run <:+ name.text →
          completeCalls .standard false (run ++ rest) =
            run ++ completeCalls .standard false rest from passed _ List.suffix_rfl
      intro run isEnding
      induction run with
      | nil => rfl
      | cons c run ih =>
          have plain : c ≠ '\\' := fun same =>
            noBack (isEnding.subset (same ▸ List.mem_cons_self))
          rw [List.cons_append, completeCalls_plain plain (Glyph.callableAt?_value isRole isEnding),
            ih ((List.suffix_cons c run).trans isEnding), List.cons_append]

namespace Follows

variable {letter : Char} {mode : Mode} {limits : Limits} {frames : List Frame} {count : Nat}
  {text rest : Text} {state next : State} {role : Role} {stage : Stage}

/-- No argument is expected, or a group follows. -/
structure IsSettled (state : State) (text : Text) : Prop where
  mode : state.mode.isSettled = true ∨ state.mode = .function false .alone ∧ text.isApplied = true
  frames : ∀ frame ∈ state.frames, frame.resume = .idle

theorem isSettled_of_next {behind : Mode} (isSettled : mode.isSettled = true)
    (noCommand : role.isCommand = false) (noCall : ∀ applied, role ≠ .call applied)
    (isNext : (Grammar.formula stage).next mode limits role = some behind) :
    behind.isSettled = true := by
  cases mode with
  | idle | exponent | euler =>
      cases role with
      | call applied => exact absurd rfl (noCall applied)
      | function | plusMinus | fraction | root => cases noCommand
      | _ => cases isNext <;> rfl
  | _ => cases isSettled

/-- A group, or a blank in front of it, is all that may follow a function that has its argument. -/
theorem eq_blank_of_isApplied {glyph : Glyph} (isRole : glyph.role? rest = some role)
    (applied : isApplied (glyph.source ++ rest) = true) (noWord : ∀ name, glyph ≠ .word name)
    (noCall : ∀ callable, glyph ≠ .call callable) (plain : role.isBracket = false) :
    glyph = .char ' ' := by
  cases glyph with
  | call callable => exact absurd rfl (noCall callable)
  | word name => exact absurd rfl (noWord name)
  | value name =>
      obtain ⟨c, run, isName, isLetter, -⟩ := Glyph.exists_letter_of_value isRole
      have word : c.isAlphanum = true := by simp [Char.isAlphanum, isLetter]
      rw [Glyph.source, isName, List.cons_append, isApplied,
        skipBlanks_cons (isAsciiBlank_eq_false_of_isAlphanum word)] at applied
      simp [Bracket.ofArgument?_of_isAlphanum word] at applied
  | char c =>
      cases blank : isAsciiBlank c with
      | true =>
          exact congrArg Glyph.char
            (Role.eq_space_of_isBlank (isBlank_of_isAsciiBlank blank) (Glyph.ofChar?_of_role? isRole))
      | false =>
          rw [Glyph.source, List.singleton_append, isApplied, skipBlanks_cons blank] at applied
          obtain ⟨bracket, opens⟩ := Option.isSome_iff_exists.1 applied
          obtain rfl := opener_of_ofArgument? opens
          have isOpener := Glyph.ofChar?_of_role? isRole
          rw [Role.ofChar?_opener] at isOpener
          cases isOpener
          cases plain

/-- A glyph that is no function leaves a place where no argument is expected. -/
theorem IsSettled.step {glyph : Glyph} (isSettled : IsSettled state (glyph.source ++ rest))
    (isRole : glyph.role? rest = some role) (noWord : ∀ name, glyph ≠ .word name)
    (noCall : ∀ callable, glyph ≠ .call callable)
    (moves : (Grammar.formula stage).step state role = some next) : IsSettled next rest := by
  obtain ⟨mode, limits, frames⟩ := state
  obtain ⟨isMode, areFrames⟩ := isSettled
  cases isBracket : role.isBracket with
  | false =>
      obtain ⟨behind, isNext, rfl⟩ := Grammar.exists_of_step isBracket moves
      refine ⟨?_, areFrames⟩
      rcases isMode with isMode | ⟨isMode, applied⟩
      · have noCommand : role.isCommand = false := by
          rw [Bool.eq_false_iff]
          intro isCommand
          obtain ⟨name, isWord⟩ := Glyph.exists_command isRole isCommand
          exact noWord name isWord
        refine .inl (isSettled_of_next isMode noCommand ?_ isNext)
        rintro applied rfl
        cases glyph with
        | char c => exact (Role.fits_of_ofChar? (Glyph.ofChar?_of_role? isRole)).elim
        | call callable => exact noCall callable rfl
        | word name => exact noWord name rfl
        | value name => cases (Glyph.exists_value isRole).1
      · obtain rfl := eq_blank_of_isApplied isRole applied noWord noCall isBracket
        cases (Glyph.role?_of_not_isAlpha (by decide) rest).symm.trans isRole
        cases isMode
        cases isNext
        exact .inr ⟨rfl, applied⟩
  | true =>
      rcases Glyph.eq_char_of_isBracket isRole isBracket with
        ⟨bracket, rfl, rfl⟩ | ⟨bracket, rfl, rfl⟩
      · obtain ⟨resume, inner, opens, rfl⟩ := Grammar.exists_of_step_opens moves
        have isIdle : resume = .idle := by
          rcases isMode with isMode | ⟨isMode, -⟩
          · cases mode with
            | idle | exponent | euler =>
                cases opens
                rfl
            | _ => cases isMode
          · cases isMode
            simp only [Grammar.formula] at opens
            split at opens <;> cases opens
            rfl
        exact ⟨.inl rfl, List.forall_mem_cons.2 ⟨isIdle, areFrames⟩⟩
      · obtain ⟨frame, below, rfl, -, -, rfl⟩ := Grammar.exists_of_step_closes moves
        obtain ⟨isIdle, areBelow⟩ := List.forall_mem_cons.1 areFrames
        exact ⟨.inl (by rw [isIdle]; rfl), areBelow⟩

theorem isApplied_of_ofGroupArgument? {application : Application}
    (found : Application.ofGroupArgument? text = some application) : text.isApplied = true := by
  rw [Application.ofGroupArgument?] at found
  cases start : text.skipBlanks with
  | nil => simp [start] at found
  | cons c rest =>
      rw [start] at found
      obtain ⟨bracket, isOpener, -⟩ := Option.bind_eq_some_iff.1 found
      simp [isApplied, start, isOpener]

/-- A function has a group behind it, and is none itself. -/
theorem isApplied_callable (callable : Callable) (rest : Text) :
    isApplied (callable.text ++ rest) = false := by
  have opened {c : Char} {tail : Text} (isText : callable.text = c :: tail)
      (visible : isAsciiBlank c = false) (noOpener : Bracket.ofArgument? c = none) :
      isApplied (callable.text ++ rest) = false := by
    rw [isText, List.cons_append, isApplied, skipBlanks_cons visible]
    simp [noOpener]
  cases callable with
  | parked waiting => exact opened rfl (by decide) (by decide)
  | function name =>
      obtain ⟨c, tail, isName⟩ := List.exists_cons_of_ne_nil name.text_ne_nil
      have valid := name.isName
      rw [isName, Text.isName, Bool.and_eq_true] at valid
      have isLetter : c.isAlpha = true := valid.1
      have word : c.isAlphanum = true := by simp [Char.isAlphanum, isLetter]
      exact opened isName (isAsciiBlank_eq_false_of_isAlphanum word)
        (Bracket.ofArgument?_of_isAlphanum word)

/-- A function is named where nothing is expected. -/
theorem IsSettled.isIdle {callable : Callable} {applied : Bool} {behind : Mode}
    (isSettled : IsSettled ⟨mode, limits, frames⟩ ((Glyph.call callable).source ++ rest))
    (isNext : (Grammar.formula stage).next mode limits (.call applied) = some behind) :
    (mode = .idle ∨ mode = .euler) ∧ behind = .function false .alone ∧
      stage.allowsCall limits applied = true := by
  rcases isSettled.mode with isMode | ⟨-, applied⟩
  · cases mode with
    | idle | euler =>
        obtain ⟨allowed, isSame⟩ := Option.ite_none_right_eq_some.1 isNext
        exact ⟨by simp, (Option.some.inj isSame).symm, allowed⟩
    | exponent => cases isNext
    | _ => cases isMode
  · rw [Glyph.source, isApplied_callable] at applied
    cases applied

/-- A function is given its argument, or has a group behind it already. -/
theorem completeCalls_call {callable : Callable} {behind : Mode}
    (isSettled : IsSettled ⟨mode, limits, frames⟩ ((Glyph.call callable).source ++ rest))
    (noBack : '\\' ∉ rest) (isRole : (Glyph.call callable).role? rest = some role)
    (isNext : (Grammar.formula .unbased).next mode limits role = some behind)
    (later : Follows (.formula .unbased) letter ⟨behind, limits, frames⟩ count rest)
    (shorter : ∀ {text : Text} {state : State} {count : Nat}, text.length ≤ rest.length →
      IsSettled state text → '\\' ∉ text → Follows (.formula .unbased) letter state count text →
        Follows (.formula .called) letter state count (text.completeCalls .standard false) ∧
          (text.completeCalls .standard false).StandsFor text) :
    Follows (.formula .called) letter ⟨mode, limits, frames⟩
        ((Glyph.call callable).weight letter + count)
        (Text.completeCalls .standard false ((Glyph.call callable).source ++ rest)) ∧
      (Text.completeCalls .standard false ((Glyph.call callable).source ++ rest)).StandsFor
        ((Glyph.call callable).source ++ rest) := by
  obtain ⟨rfl, isStandard, ends⟩ := Glyph.exists_call isRole
  obtain ⟨isMode, rfl, -⟩ := isSettled.isIdle isNext
  have found := Glyph.callableAt?_call isRole
  obtain ⟨application, exponent?, layers, isArgument, isLayers, noBackCore, noBackRest, around, core,
      after, isSum, areLegible, isCore, isRest⟩ :=
    Application.hasArgument (fun operand _ => Application.readsOperands letter operand) isStandard
      (by decide) ends noBack later
  cases isRead : Application.read? .standard (some callable) rest with
  | none =>
      rw [Application.argument?, isRead, Option.none_or] at isArgument
      obtain ⟨group, isGroup, -⟩ := Option.map_eq_some_iff.1 isArgument
      have applied := isApplied_of_ofGroupArgument? isGroup
      have settled : IsSettled ⟨.function false .alone, limits, frames⟩ rest :=
        ⟨.inr ⟨rfl, applied⟩, isSettled.frames⟩
      obtain ⟨follows, standsFor⟩ := shorter (Nat.le_refl _) settled noBack later
      rw [Glyph.source, Application.completeCalls_of_read?_eq_none found isRead]
      refine ⟨.glyph_of_standsFor isRole ?_ follows standsFor, standsFor.append _⟩
      refine Grammar.step_of_next rfl (Grammar.next_called (.inr ?_) isNext) frames
      rw [applied]
      rfl
  | some read =>
      rw [Application.argument?, isRead, Option.some_or] at isArgument
      cases isArgument
      have fits := Application.fitsIn_of_read? isRead
      simp only [Application.FitsIn] at fits
      have settled : IsSettled ⟨.idle, limits, frames⟩ application.rest :=
        ⟨.inl rfl, isSettled.frames⟩
      have followsRest := (shorter (by omega) settled noBackRest isRest).1
      have followsCore : Follows (.formula .called) letter ⟨.idle, limits, []⟩ core
          (if application.grouped then (Text.completeCalls .standard false application.core).trim
          else application.core) := by
        cases isGrouped : application.grouped with
        | false => simpa [isGrouped] using isCore
        | true =>
            rw [isGrouped] at isCore
            have settled : IsSettled ⟨.idle, limits, []⟩ application.core := ⟨.inl rfl, by simp⟩
            exact (shorter (by omega) settled noBackCore isCore).1.trim
      rw [Glyph.source, completeCalls_application found isRead, isLayers, List.foldr_cons]
      rw [isLayers] at areLegible
      cases areLegible with
      | @cons _ _ first second isLegible areLegible =>
          have inside := Layer.around_foldr areLegible followsCore
          have isCall : (Grammar.formula .called).next mode limits (.call true) =
              some (.function false .alone) := by rcases isMode with rfl | rfl <;> rfl
          have opens : (Grammar.formula .called).opens mode limits .round =
              some (.idle, limits) := by rcases isMode with rfl | rfl <;> rfl
          have whole := Layer.call_append isLegible isCall opens inside followsRest
          exact ⟨whole.mono_count (by omega), Layer.standsFor_call callable exponent? _ _ rest⟩

/-- In a legible formula whose calls are completed every function has a group behind it. -/
theorem completeCalls (isSettled : IsSettled state text) (noBack : '\\' ∉ text)
    (follows : Follows (.formula .unbased) letter state count text) :
    Follows (.formula .called) letter state count (text.completeCalls .standard false) ∧
      (text.completeCalls .standard false).StandsFor text := by
  induction length : text.length using Nat.strongRecOn generalizing text state count with
  | ind bound ih =>
    cases follows with
    | done count closes =>
        rw [Text.completeCalls]
        exact ⟨.done count closes, .refl []⟩
    | @glyph _ next glyph rest role count isRole moves later =>
        have shorter : rest.length < bound := by
          have nonempty := List.length_pos_iff.2 (Glyph.source_ne_nil isRole)
          rw [List.length_append] at length
          omega
        rw [List.mem_append, not_or] at noBack
        have noWord (name : Text) : glyph ≠ .word name := by
          rintro rfl
          exact noBack.1 List.mem_cons_self
        by_cases isCall : ∃ callable, glyph = .call callable
        · obtain ⟨callable, rfl⟩ := isCall
          obtain ⟨mode, limits, frames⟩ := state
          obtain ⟨rfl, -, -⟩ := Glyph.exists_call isRole
          obtain ⟨behind, isNext, rfl⟩ := Grammar.exists_of_step rfl moves
          exact completeCalls_call isSettled noBack.2 isRole isNext later
            fun less settled plain follows => ih _ (by omega) settled plain follows rfl
        · have noCall := not_exists.1 isCall
          obtain ⟨follows, standsFor⟩ :=
            ih _ shorter (isSettled.step isRole noWord noCall moves) noBack.2 later rfl
          rw [completeCalls_glyph isRole noWord noCall]
          refine ⟨.glyph_of_standsFor isRole ?_ follows standsFor, standsFor.append _⟩
          refine Grammar.step_of_step (fun mode closes => ?_) ?_ (fun behind isNext => ?_) moves
          · exact closes
          · exact fun _ _ _ => rfl
          · exact Grammar.next_called (.inr (Glyph.isUnapplied_eq_false isRole noWord noCall)) isNext

end Follows

end Text

end TexCalc
