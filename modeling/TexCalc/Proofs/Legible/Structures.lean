import TexCalc.Proofs.Legible.Formula
import TexCalc.Proofs.Linear.Commands
import TexCalc.Proofs.Linear.Termination
import TexCalc.Proofs.Tex.Arguments

/-!
# Fractions and roots of a legible formula

Every argument of a fraction or a root can be read, and it is legible by itself.  What is written for
the structure may therefore stand where its command stood, so that a round of replacements leaves the
formula legible, and after the last round no structure is left.
-/

namespace TexCalc

@[simp] theorem Limits.behind_alone (limits : Limits) : limits.behind .alone = limits := by
  simp [Limits.behind]

namespace Glyph

variable {glyph : Glyph} {rest : Text} {role : Role}

/-- The letters of a name are no control sequence. -/
theorem not_mem_source (isRole : glyph.role? rest = some role)
    (noWord : ∀ name, glyph ≠ word name) : '\\' ∉ glyph.source := by
  have ofName (name : Name) : '\\' ∉ name.text := fun isMember => by
    have word := List.all_eq_true.1 name.all_isAlphanum _ isMember
    exact absurd word (by decide)
  cases glyph with
  | char c =>
      intro isMember
      cases List.mem_singleton.1 isMember
      cases ofChar?_of_role? isRole
  | call callable =>
      cases callable with
      | function name => exact ofName name
      | parked waiting =>
          rcases waiting with ⟨function, inverse⟩
          cases function <;> cases inverse <;> decide
  | value name => exact ofName name
  | word name => exact absurd rfl (noWord name)

/-- A letter or a digit is read as a whole argument. -/
theorem read?_char {c : Char} (word : c.isAlphanum = true) (rest : Text) :
    Argument.read? (c :: rest) = some ⟨[c], false, rest⟩ := by
  have other {d : Char} (noWord : d.isAlphanum = false) : c ≠ d := ne_of_isAlphanum word noWord
  have taken : Argument.isRefused c = false := by
    simp [Argument.isRefused, other (d := '\x7d') (by decide), other (d := ')') (by decide),
      other (d := ']') (by decide), other (d := '^') (by decide), other (d := '_') (by decide),
      other (d := '&') (by decide)]
  rw [Argument.read?, Text.skipBlanks_cons (isAsciiBlank_eq_false_of_isAlphanum word)]
  simp only [if_neg (other (d := '\x7b') (by decide)), if_neg (other (d := '\\') (by decide)),
    taken, Bool.false_eq_true, if_false]

/-- A command for a constant is read as a whole argument. -/
theorem read?_word {name : Text} (isRole : (word name).role? rest = some role) :
    Argument.read? ('\\' :: (name ++ rest)) = some ⟨'\\' :: name, false, rest⟩ := by
  obtain ⟨ends, isWord⟩ := exists_word isRole
  obtain ⟨letters, nonempty⟩ := all_isAlpha_of_ofWord? isWord
  rw [Argument.read?, Text.skipBlanks_cons (by decide)]
  simp only [if_neg (show ('\\' : Char) ≠ '\x7b' by decide), if_true,
    Control.read?_word letters nonempty ends]
  rfl

/-- A single character or a command for a constant is a whole argument. -/
theorem exists_single {resume behind : Mode} (isRole : glyph.role? rest = some role)
    (isNext : Grammar.afterSingle resume role = some behind) :
    behind = resume ∧ Argument.read? (glyph.source ++ rest) = some ⟨glyph.source, false, rest⟩ ∧
      glyph.role? [] = some role ∧ ∀ stage limits, Grammar.afterIdle stage limits role = some .idle := by
  have noCall : ∀ applied, role ≠ .call applied := by
    rintro applied rfl
    cases isNext
  have facts : behind = resume ∧ ∀ stage limits, Grammar.afterIdle stage limits role = some .idle := by
    cases role with
    | digit | euler | letter => exact ⟨(Option.some.inj isNext).symm, fun _ _ => rfl⟩
    | value spelled =>
        cases spelled <;> cases isNext
        exact ⟨rfl, fun _ _ => rfl⟩
    | _ => cases isNext
  refine ⟨facts.1, ?_, role?_of_prefix isRole noCall List.nil_prefix, facts.2⟩
  cases glyph with
  | char c =>
      have fits := Role.fits_of_ofChar? (ofChar?_of_role? isRole)
      have word : c.isAlphanum = true := by
        cases role with
        | digit => simp [Char.isAlphanum, show c.isDigit = true from fits]
        | letter => simp [Char.isAlphanum, show c.isAlpha = true from fits]
        | euler => rw [show c = 'e' from fits]; decide
        | value => exact fits.elim
        | _ => cases isNext
      exact read?_char word rest
  | call callable =>
      simp only [role?] at isRole
      split at isRole <;> cases isRole
      cases isNext
  | value name =>
      simp only [role?] at isRole
      split at isRole <;> cases isRole
      cases isNext
  | word name => exact read?_word isRole

/-- A letter or a digit is a character. -/
theorem exists_alphanum (isRole : glyph.role? rest = some role)
    (isWord : role = .digit ∨ role = .letter) : ∃ c, glyph = char c ∧ c.isAlphanum = true := by
  obtain ⟨c, rfl, fits⟩ := exists_char isRole (by rcases isWord with rfl | rfl <;> rfl)
  refine ⟨c, rfl, ?_⟩
  rcases isWord with rfl | rfl
  · simp [Char.isAlphanum, show c.isDigit = true from fits]
  · simp [Char.isAlphanum, show c.isAlpha = true from fits]

/-- A glyph in front of a text is cut off by itself. -/
theorem exists_pieces (isRole : glyph.role? rest = some role) :
    ∃ cut, Text.pieces (glyph.source ++ rest) = cut ++ rest.pieces ∧
      Text.ofPieces cut = glyph.source ∧ ∀ name, .control name ∈ cut → glyph = .word name := by
  have plain (noWord : ∀ name, glyph ≠ word name) :
      ∃ cut, Text.pieces (glyph.source ++ rest) = cut ++ rest.pieces ∧
        Text.ofPieces cut = glyph.source ∧ ∀ name, .control name ∈ cut → glyph = .word name := by
    have noBack := not_mem_source isRole noWord
    generalize glyph.source = source at noBack ⊢
    induction source with
    | nil => exact ⟨[], rfl, rfl, by simp⟩
    | cons c source ih =>
        rw [List.mem_cons, not_or] at noBack
        obtain ⟨cut, isCut, isSource, noControl⟩ := ih noBack.2
        refine ⟨.plain c :: cut, ?_, ?_, ?_⟩
        · rw [List.cons_append, Text.pieces_cons (Ne.symm noBack.1), isCut]
          rfl
        · rw [Text.ofPieces, List.flatMap_cons, ← Text.ofPieces, isSource]
          rfl
        · intro name isMember
          exact noControl name (by simpa using isMember)
  cases glyph with
  | word name =>
      obtain ⟨ends, isWord⟩ := exists_word isRole
      obtain ⟨letters, nonempty⟩ := all_isAlpha_of_ofWord? isWord
      refine ⟨[.control name], Text.pieces_word letters nonempty ends, ?_, ?_⟩
      · simp [Text.ofPieces, Piece.source, source]
      · simp
  | _ => exact plain fun name => by simp

end Glyph

namespace Text.Follows

variable {stage : Stage} {letter : Char} {mode resume : Mode} {limits : Limits} {chain : Chain}
  {frames : List Frame} {state : State} {count : Nat} {text : Text}

/-! ## Arguments -/

/-- An argument is a group in braces, a character or a command for a constant. -/
theorem exists_argument
    (follows : Follows (.formula stage) letter ⟨mode, limits, frames⟩ count text)
    (isOpen : (Grammar.formula stage).closes mode = false)
    (isSingle : ∀ role, role.isBracket = false → role ≠ .blank →
      (Grammar.formula stage).next mode limits role = Grammar.afterSingle resume role)
    (isCurly : (Grammar.formula stage).opens mode limits .curly = some (resume, limits.behind chain))
    (noRound : (Grammar.formula stage).opens mode limits .round = none)
    (noSquare : text.skipBlanks.head? = some '[' →
      (Grammar.formula stage).opens mode limits .square = none) :
    ∃ argument first second, Argument.read? text = some argument ∧ first + second = count ∧
      Follows (.formula stage) letter ⟨.idle, limits.behind chain, []⟩ first argument.text ∧
        Follows (.formula stage) letter ⟨resume, limits, frames⟩ second argument.rest := by
  have skipped := follows.skipBlanks
  generalize start : text.skipBlanks = visible at skipped noSquare
  cases skipped.starts with
  | done _ closes | closer closes => cases closes.symm.trans isOpen
  | @group bracket _ _ rest group _ first second opens found isInside isRest =>
      cases bracket with
      | round => cases noRound.symm.trans opens
      | square => cases (noSquare rfl).symm.trans opens
      | curly =>
          cases isCurly.symm.trans opens
          refine ⟨⟨group.inside, true, group.rest⟩, first, second, ?_, rfl, isInside, isRest⟩
          rw [Argument.read?, start]
          exact congrArg (Option.map _) found
  | @glyph glyph role _ after _ count isRole plain isNext isRest =>
      rw [isSingle role plain (ne_blank_of_skipBlanks start isRole)] at isNext
      obtain ⟨rfl, isRead, alone, isIdle⟩ := Glyph.exists_single isRole isNext
      refine ⟨⟨glyph.source, false, after⟩, glyph.weight letter, count, ?_, rfl, ?_, isRest⟩
      · rw [← isRead, ← start, Argument.read?, Argument.read?, Text.skipBlanks_skipBlanks]
      · have single : Follows (.formula stage) letter ⟨.idle, limits.behind chain, []⟩
            (glyph.weight letter + 0) (glyph.source ++ []) := by
          have ended : Follows (.formula stage) letter ⟨.idle, limits.behind chain, []⟩ 0 [] :=
            .done 0 rfl
          refine .glyph alone (Grammar.step_of_next plain ?_ []) ended
          have isNext := isIdle stage (limits.behind chain)
          cases role <;> exact isNext
        simpa using single

/-! ## Structures -/

variable {name : Text}

/-- The argument of a fraction, and perhaps the one behind it. -/
theorem exists_fractionArgument {more : Bool}
    (follows : Follows (.formula stage) letter ⟨.arguments more chain, limits, frames⟩ count text) :
    ∃ argument first second, Argument.read? text = some argument ∧ first + second = count ∧
      Follows (.formula stage) letter ⟨.idle, limits.behind chain, []⟩ first argument.text ∧
        Follows (.formula stage) letter ⟨.behindArgument more chain, limits, frames⟩ second
          argument.rest := by
  refine follows.exists_argument rfl (fun role plain visible => ?_) rfl rfl fun _ => rfl
  cases role <;> first | rfl | exact absurd rfl visible

/-- Where a structure may be named, a group may stand in its place. -/
theorem opens_of_structure {role : Role} {behind : Mode} (isStructure : role = .fraction ∨ role = .root)
    (isNext : (Grammar.formula stage).next mode limits role = some behind) :
    stage.structured = true ∧ ∃ chain,
      behind = (if role = .fraction then .arguments true chain else .radicand chain) ∧
        (Grammar.formula stage).opens mode limits .round = some (.idle, limits.behind chain) := by
  have structured {kept : Mode} (isNext : Grammar.afterStructure stage kept = some behind) :
      stage.structured = true ∧ behind = kept := by
    simp only [Grammar.afterStructure] at isNext
    split at isNext <;> cases isNext
    exact ⟨‹_›, rfl⟩
  cases mode with
  | idle | exponent | euler | numeral | atom =>
      rcases isStructure with rfl | rfl
      all_goals
        obtain ⟨allowed, rfl⟩ := structured isNext
        exact ⟨allowed, .alone, rfl, by simp [Grammar.formula]⟩
  | function isLog chain | operand chain | signed chain =>
      rcases isStructure with rfl | rfl
      all_goals
        obtain ⟨allowed, rfl⟩ := structured isNext
        exact ⟨allowed, chain, rfl, rfl⟩
  | _ => rcases isStructure with rfl | rfl <;> cases isNext

/-! ### Texts in brackets -/

variable {first second : Nat} {rest : Text}

theorem ended : Follows (.formula stage) letter ⟨.idle, limits, []⟩ 0 [] :=
  .done 0 rfl

theorem wrapped (follows : Follows (.formula stage) letter ⟨.idle, limits, []⟩ first text)
    (later : Follows (.formula stage) letter ⟨.idle, limits, frames⟩ second rest) :
    Follows (.formula stage) letter ⟨.idle, limits, frames⟩ (first + second) (text.wrap ++ rest) :=
  wrap_append rfl rfl follows later

theorem mark_cons {c : Char} (isMark : Role.ofChar? c = some .mark) (noLetter : c.isAlpha = false)
    (later : Follows (.formula stage) letter ⟨.idle, limits, frames⟩ count text) :
    Follows (.formula stage) letter ⟨.idle, limits, frames⟩ count (c :: text) :=
  later.cons noLetter isMark rfl

theorem isApplied_parenthesized (text rest : Text) :
    isApplied (text.parenthesized ++ rest) = true := by
  rw [Text.parenthesized_append, isApplied, skipBlanks_cons (by decide)]
  rfl

/-- The name of a function in front of its argument in parentheses. -/
theorem call_append (callable : Callable) (isStandard : callable.isStandard = true)
    (isNext : (Grammar.formula stage).next mode limits (.call true) =
      some (.function false chain))
    (argument : Follows (.formula stage) letter ⟨.idle, limits.behind chain, []⟩ first text)
    (later : Follows (.formula stage) letter ⟨.idle, limits, frames⟩ second rest) :
    Follows (.formula stage) letter ⟨mode, limits, frames⟩ (first + second)
      (callable.text ++ (text.parenthesized ++ rest)) := by
  have isRole : (Glyph.call callable).role? (text.parenthesized ++ rest) = some (.call true) := by
    have boundary : endsRun Text.isNameChar (text.parenthesized ++ rest) = true := by
      rw [Text.parenthesized_append]
      rfl
    simp [Glyph.role?, isStandard, boundary, isApplied_parenthesized]
  have opens : (Grammar.formula stage).opens (.function false chain) limits .round =
      some (.idle, limits.behind chain) := rfl
  have whole := Follows.glyph isRole (Grammar.step_of_next rfl isNext frames)
    (parenthesized_append opens argument later)
  simpa [Glyph.weight, Glyph.source] using whole

/-! ### Reading a structure -/

/-- A fraction of two legible arguments. -/
theorem exists_fraction
    (follows : Follows (.formula stage) letter ⟨.arguments true chain, limits, frames⟩ count text) :
    ∃ found after inside first second, Structure.readFraction? text = some (found, after) ∧
      found.linear = Text.parenthesized inside ∧ first + second = count ∧
        Follows (.formula stage) letter ⟨.idle, limits.behind chain, []⟩ first inside ∧
          Follows (.formula stage) letter ⟨.idle, limits, frames⟩ second after := by
  obtain ⟨numerator, first, _, isNumerator, rfl, above, later⟩ := follows.exists_fractionArgument
  obtain ⟨denominator, second, third, isDenominator, rfl, below, behind⟩ :=
    exists_fractionArgument (show Follows _ _ ⟨.arguments false chain, _, _⟩ _ _ from later)
  have inside := above.wrapped (mark_cons (c := '/') rfl rfl (below.wrapped ended))
  refine ⟨.fraction numerator.text denominator.text, denominator.rest, _, _, third, ?_, rfl,
    Nat.add_assoc first second third, ?_, behind⟩
  · rw [Structure.readFraction?, isNumerator, Option.bind_some, isDenominator]
    rfl
  · simpa using inside

/-- A root, with or without an index. -/
theorem exists_root
    (follows : Follows (.formula stage) letter ⟨.radicand chain, limits, frames⟩ count text) :
    ∃ found after inside first second, Structure.readRoot? text = some (found, after) ∧
      found.linear = Text.parenthesized inside ∧ first + second = count ∧
        Follows (.formula stage) letter ⟨.idle, limits.behind chain, []⟩ first inside ∧
          Follows (.formula stage) letter ⟨.idle, limits, frames⟩ second after := by
  by_cases indexed : text.skipBlanks.head? = some '['
  · have skipped := follows.skipBlanks
    cases start : text.skipBlanks with
    | nil =>
        rw [start] at indexed
        cases indexed
    | cons c rest =>
        rw [start] at skipped indexed
        cases indexed
        obtain ⟨resume, inner, group, first, second, opens, found, rfl, isIndex, later⟩ :=
          exists_group (show Follows _ _ _ _ (Bracket.square.opener :: rest) from skipped)
        cases opens
        obtain ⟨radicand, second, third, isRadicand, rfl, isInside, behind⟩ :=
          exists_fractionArgument later
        have quotient : Follows (.formula stage) letter ⟨.idle, limits.behind chain, []⟩ (first + 0)
            ('1' :: '/' :: (group.inside.wrap ++ [])) :=
          ((isIndex.wrapped ended).mark_cons rfl rfl).cons rfl rfl rfl
        have power : Follows (.formula stage) letter ⟨.idle, limits.behind chain, []⟩
            (first + 0 + 0)
            ('^' :: (Text.parenthesized ('1' :: '/' :: (group.inside.wrap ++ [])) ++ [])) :=
          (parenthesized_append rfl quotient ended).cons rfl rfl rfl
        refine ⟨.indexedRoot group.inside radicand.text, radicand.rest, _, second + (first + 0 + 0),
          third, ?_, rfl, ?_, ?_, behind⟩
        · rw [Structure.readRoot?, start, List.head?_cons, if_pos rfl, Argument.readOptional?, start]
          simp only [show Bracket.square.group? rest = some group from found, Option.map_some,
            Option.bind_some, isRadicand]
        · omega
        · simpa using isInside.wrapped power
  · have isCurly : (Grammar.formula stage).opens (.radicand chain) limits .curly =
        some (.idle, limits.behind chain) := rfl
    obtain ⟨radicand, first, second, isRadicand, isSum, inside, behind⟩ :=
      follows.exists_argument rfl
        (fun role plain visible => by cases role <;> first | rfl | exact absurd rfl visible)
        isCurly rfl fun isSquare => absurd isSquare indexed
    have argument : Follows (.formula stage) letter
        ⟨.idle, (limits.behind chain).behind .alone, []⟩ first radicand.text.trim := by
      simpa using inside.trim
    have call : Follows (.formula stage) letter ⟨.idle, limits.behind chain, []⟩ _ _ :=
      argument.call_append (.function ⟨"sqrt".toList, rfl⟩) (by decide) rfl ended
    refine ⟨.root radicand.text, radicand.rest, _, first, second, ?_, rfl, isSum, ?_, behind⟩
    · rw [Structure.readRoot?, if_neg indexed, isRadicand]
      rfl
    · simpa [Callable.text] using call

/-- What a command for a structure is replaced by may stand in its place. -/
theorem exists_structure {role : Role} {behind : Mode} (isWord : Role.ofWord? name = some role)
    (isStructure : role = .fraction ∨ role = .root)
    (isNext : (Grammar.formula stage).next mode limits role = some behind)
    (later : Follows (.formula stage) letter ⟨behind, limits, frames⟩ count text) :
    ∃ found after, Structure.read? name text = some (found, after) ∧
      (∃ inside, found.linear = Text.parenthesized inside) ∧
        Follows (.formula stage) letter ⟨mode, limits, frames⟩ count (found.linear ++ after) := by
  obtain ⟨-, chain, rfl, opens⟩ := opens_of_structure isStructure isNext
  have isRead : ∃ found after inside first second, Structure.read? name text = some (found, after) ∧
      found.linear = Text.parenthesized inside ∧ first + second = count ∧
        Follows (.formula stage) letter ⟨.idle, limits.behind chain, []⟩ first inside ∧
          Follows (.formula stage) letter ⟨.idle, limits, frames⟩ second after := by
    obtain ⟨isFraction, rfl⟩ | ⟨noFraction, isRoot, rfl⟩ | ⟨command, -, isRole, -, -⟩ :=
      Glyph.cases_of_ofWord? isWord
    · obtain ⟨found, after, inside, first, second, isRead, rest⟩ := later.exists_fraction
      exact ⟨found, after, inside, first, second, by rw [Structure.read?, if_pos isFraction, isRead],
        rest⟩
    · obtain ⟨found, after, inside, first, second, isRead, rest⟩ := later.exists_root
      exact ⟨found, after, inside, first, second,
        by rw [Structure.read?, if_neg (by rw [noFraction]; simp), if_pos isRoot, isRead], rest⟩
    · obtain ⟨noFraction, noRoot, -⟩ := Glyph.of_ofCommand? isRole
      exact (isStructure.elim noFraction noRoot).elim
  obtain ⟨found, after, inside, first, second, isRead, isLinear, rfl, isInside, behind⟩ := isRead
  exact ⟨found, after, isRead, ⟨inside, isLinear⟩,
    isLinear ▸ parenthesized_append opens isInside behind⟩

/-! ### Rounds -/

theorem isStructure_iff {name : Text} {role : Role} (isWord : Role.ofWord? name = some role) :
    (role = .fraction ∨ role = .root) ↔ Structure.IsName name := by
  obtain ⟨isFraction, rfl⟩ | ⟨-, isRoot, rfl⟩ | ⟨command, -, isRole, noFraction, noRoot⟩ :=
    Glyph.cases_of_ofWord? isWord
  · simp [Structure.IsName, isFraction]
  · simp [Structure.IsName, isRoot]
  · obtain ⟨fraction, root, -⟩ := Glyph.of_ofCommand? isRole
    simp [Structure.IsName, fraction, root, noFraction, noRoot]

/-- One round of replacements leaves a formula legible. -/
theorem of_resolveLast? (follows : Follows (.formula stage) letter state count text) {resolved : Text}
    (found : Structure.resolveLast? text.pieces = some resolved) :
    Follows (.formula stage) letter state count resolved ∧ resolved.StandsFor text := by
  induction follows generalizing resolved with
  | done => simp [pieces, Structure.resolveLast?] at found
  | @glyph state next glyph rest role count isRole moves later ih =>
      have behind {inner : Text} (isInner : Structure.resolveLast? rest.pieces = some inner) :
          Follows (.formula stage) letter state (glyph.weight letter + count)
              (glyph.source ++ inner) ∧ (glyph.source ++ inner).StandsFor (glyph.source ++ rest) := by
        obtain ⟨follows, standsFor⟩ := ih isInner
        exact ⟨.glyph_of_standsFor isRole moves follows standsFor, standsFor.append glyph.source⟩
      by_cases isStructure : role = .fraction ∨ role = .root
      · -- A structure is replaced when nothing behind it is.
        obtain ⟨name, rfl⟩ := Glyph.exists_command isRole (by rcases isStructure with rfl | rfl <;> rfl)
        obtain ⟨ends, isWord⟩ := Glyph.exists_word isRole
        obtain ⟨letters, nonempty⟩ := Glyph.all_isAlpha_of_ofWord? isWord
        rw [Glyph.source, List.cons_append, pieces_word letters nonempty ends,
          Structure.resolveLast?] at found
        split at found
        · rename_i inner isInner
          cases found
          exact behind isInner
        · have plain : role.isBracket = false := by rcases isStructure with rfl | rfl <;> rfl
          obtain ⟨mode, isNext, rfl⟩ := Grammar.exists_of_step plain moves
          obtain ⟨structured, after, isRead, ⟨inside, isLinear⟩, follows⟩ :=
            exists_structure isWord isStructure isNext later
          rw [ofPieces_pieces, isRead] at found
          cases found
          refine ⟨follows.mono_count (Nat.le_add_left _ _), ?_⟩
          have standsFor : (structured.linear ++ after).StandsFor ('\\' :: name ++ rest) := by
            rw [isLinear]
            exact .of_ends (by rw [Text.parenthesized_append]; rfl)
              fun _ => isApplied_parenthesized inside after
          exact standsFor
      · obtain ⟨cut, isCut, isSource, onlyWord⟩ := Glyph.exists_pieces isRole
        rw [isCut, Structure.resolveLast?_append, isSource] at found
        · obtain ⟨inner, isInner, rfl⟩ := Option.map_eq_some_iff.1 found
          exact behind isInner
        · intro name isMember isName
          obtain rfl := onlyWord name isMember
          exact isStructure ((isStructure_iff (Glyph.exists_word isRole).2).2 isName)

/-- What is left of a formula when no structure in it can be read any more has none. -/
theorem resolved_of_none (follows : Follows (.formula .accepted) letter state count text)
    (none : ∀ front name back, text.pieces = front ++ .control name :: back →
      Structure.read? name (Text.ofPieces back) = none) :
    Follows (.formula .resolved) letter state count text := by
  induction follows with
  | done count closes => exact .done count closes
  | @glyph state next glyph rest role count isRole moves later ih =>
      obtain ⟨cut, isCut, -, -⟩ := Glyph.exists_pieces isRole
      have other : ¬ (role = .fraction ∨ role = .root) := by
        intro isStructure
        obtain ⟨name, rfl⟩ := Glyph.exists_command isRole (by rcases isStructure with rfl | rfl <;> rfl)
        obtain ⟨ends, isWord⟩ := Glyph.exists_word isRole
        obtain ⟨letters, nonempty⟩ := Glyph.all_isAlpha_of_ofWord? isWord
        have plain : role.isBracket = false := by rcases isStructure with rfl | rfl <;> rfl
        obtain ⟨mode, isNext, rfl⟩ := Grammar.exists_of_step plain moves
        obtain ⟨found, after, isRead, -⟩ := exists_structure isWord isStructure isNext later
        have unread := none [] name rest.pieces (pieces_word letters nonempty ends)
        rw [ofPieces_pieces, isRead] at unread
        cases unread
      have behind := ih fun front name back isRest =>
        none (cut ++ front) name back (by rw [isCut, isRest, List.append_assoc])
      refine .glyph isRole (Grammar.step_of_step ?_ (fun _ _ _ => ?_) ?_ moves) behind
      · exact fun mode closes => by cases mode <;> exact closes
      · rfl
      · intro mode isNext
        obtain ⟨mode', limits, frames⟩ := state
        cases mode' <;> cases role <;>
          first | exact isNext | exact absurd (by simp) other

/-- A legible formula without its structures is legible. -/
theorem resolveStructures (follows : Follows (.formula .accepted) letter state count text) :
    Follows (.formula .resolved) letter state count text.resolveStructures := by
  have kept : Follows (.formula .accepted) letter state count text.resolveStructures :=
    Structure.resolveUpTo_induct (fun _ _ found follows => (follows.of_resolveLast? found).1) _ follows
  exact kept.resolved_of_none text.resolveStructures_terminates.2.2.2

end Text.Follows

end TexCalc
