import TexCalc.Proofs.Check.Clean
import TexCalc.Proofs.Tex.Lexemes

/-!
# Texts without faults

A text is faultless when it is made, from left to right, of characters that the target language
can take over, brackets and sized delimiters that close what they open, powers with a base and an
exponent, and commands with their arguments.  What may stand at some place depends on the
delimiters that are open there and on the token in front; nothing else that comes before matters.
-/

namespace TexCalc

namespace Bracket

/-- The pair of delimiters that the bracket belongs to. -/
def delimiter : Bracket → Delimiter
  | round => .parenthesis
  | square => .bracket
  | curly => .brace

/-- The token of an opening bracket. -/
def openToken : Bracket → Token
  | curly => .openBrace
  | bracket => .char bracket.opener

/-- The token of a closing bracket. -/
def closeToken : Bracket → Token
  | curly => .closeBrace
  | bracket => .char bracket.closer

end Bracket

/-- Characters that stand for themselves and open or close nothing. -/
def Token.isOrdinary (c : Char) : Bool :=
  c.isAlphanum || c ∈ ['.', '+', '-', '*', '/', ',']

/-- Commands that need nothing behind them. -/
def Command.standsAlone : Command → Bool
  | constant _ | operator _ | plusMinus | minusPlus => true
  | _ => false

namespace Text

/-- Whether an exponent begins here: a group that is not empty, or a letter or digit. -/
def beginsExponent : Text → Bool
  | '\x7b' :: c :: _ => !isBlank c && c != '\x7d' && c != '%'
  | c :: _ => c.isAlphanum
  | [] => false

/-- The text has no fault when the given delimiters are open in front of it, nearest first, and
`previous?` is the last token there, blanks apart. -/
inductive IsFaultless : (opened : List Delimiter) → (previous? : Option Token) → Text → Prop where
  | nil {previous? : Option Token} : IsFaultless [] previous? []
  | char {opened : List Delimiter} {previous? : Option Token} {c : Char} {rest : Text}
      (ordinary : Token.isOrdinary c = true) (later : IsFaultless opened (some (.char c)) rest) :
      IsFaultless opened previous? (c :: rest)
  | blank {opened : List Delimiter} {previous? : Option Token} {rest : Text}
      (ends : rest.endsRun isBlank = true) (later : IsFaultless opened previous? rest) :
      IsFaultless opened previous? (' ' :: rest)
  | opening {opened : List Delimiter} {previous? : Option Token} (bracket : Bracket) {rest : Text}
      (later : IsFaultless (bracket.delimiter :: opened) (some bracket.openToken) rest) :
      IsFaultless opened previous? (bracket.opener :: rest)
  | closing {opened : List Delimiter} {previous? : Option Token} (bracket : Bracket) {rest : Text}
      (later : IsFaultless opened (some bracket.closeToken) rest) :
      IsFaultless (bracket.delimiter :: opened) previous? (bracket.closer :: rest)
  | script {opened : List Delimiter} {base : Token} {rest : Text} (isBase : base.isBase = true)
      (begins : rest.beginsExponent = true)
      (later : IsFaultless opened (some .superscript) rest) :
      IsFaultless opened (some base) ('^' :: rest)
  | word {opened : List Delimiter} {previous? : Option Token} {name rest : Text}
      {command : Command} (letters : name.all Char.isAlpha = true) (nonempty : name ≠ [])
      (ends : rest.endsRun Char.isAlpha = true) (found : Command.named? name = some command)
      (alone : command.standsAlone = true)
      (later : IsFaultless opened (some (.control name)) rest) :
      IsFaultless opened previous? ('\\' :: (name ++ rest))
  | function {opened : List Delimiter} {previous? : Option Token} {name rest : Text}
      {command : Command} (letters : name.all Char.isAlpha = true) (nonempty : name ≠ [])
      (found : Command.named? name = some command) (takes : command.takesArgument = true)
      (ends : rest.endsRun Char.isAlpha = true)
      (later : IsFaultless opened (some (.control name)) ('\\' :: (Side.left.word ++ rest))) :
      IsFaultless opened previous? ('\\' :: (name ++ '\\' :: (Side.left.word ++ rest)))
  | fraction {opened : List Delimiter} {previous? : Option Token} {rest : Text}
      (ends : rest.endsRun Char.isAlpha = true)
      (complete : Malformation.ofFraction? "frac".toList 2 rest = none)
      (later : IsFaultless opened (some (.control "frac".toList)) rest) :
      IsFaultless opened previous? ('\\' :: ("frac".toList ++ rest))
  | root {opened : List Delimiter} {previous? : Option Token} {rest : Text}
      (ends : rest.endsRun Char.isAlpha = true)
      (complete : Malformation.ofRoot? "sqrt".toList rest = none)
      (later : IsFaultless opened (some (.control "sqrt".toList)) rest) :
      IsFaultless opened previous? ('\\' :: ("sqrt".toList ++ rest))
  | left {opened : List Delimiter} {previous? : Option Token} {c : Char} {rest : Text}
      (sized : c ∈ ['(', '[', '|', '.'])
      (later : IsFaultless (.sized :: opened) (some (.char c)) rest) :
      IsFaultless opened previous? ('\\' :: (Side.left.word ++ c :: rest))
  | right {opened : List Delimiter} {previous? : Option Token} {c : Char} {rest : Text}
      (sized : c ∈ [')', ']', '|', '.'])
      (later : IsFaultless opened (some (.char c)) rest) :
      IsFaultless (.sized :: opened) previous? ('\\' :: (Side.right.word ++ c :: rest))

end Text

namespace Token

theorem delimiter?_char {c : Char} (other : c ∉ ['(', ')', '[', ']']) :
    (char c).delimiter? = none := by
  simp only [List.mem_cons, not_or] at other
  obtain ⟨opener, closer, left, right, _⟩ := other
  unfold delimiter?
  split
  · rename_i same; cases same
  · rename_i same; cases same
  · rename_i same; cases same
  · rename_i same; cases same
  · rename_i same; cases same; exact absurd rfl opener
  · rename_i same; cases same; exact absurd rfl closer
  · rename_i same; cases same; exact absurd rfl left
  · rename_i same; cases same; exact absurd rfl right
  · rfl

theorem delimiter?_word {name : Text} (letters : name.all Char.isAlpha = true) :
    (control name).delimiter? = none := by
  unfold delimiter?
  split <;> rename_i same <;> first | rfl | cases same <;> cases letters

/-- A token that opens or closes something by itself is no `\left` or `\right` and no bar. -/
theorem facts_of_delimiter? {token : Token} {delimiter : Delimiter} {opens : Bool}
    (delimits : token.delimiter? = some (delimiter, opens)) :
    token.side? = none ∧ token.isSignificant = true ∧ token ≠ .char '|' := by
  unfold delimiter? at delimits
  split at delimits <;> first | exact ⟨by decide, rfl, by decide⟩ | cases delimits

theorem facts_of_isOrdinary {c : Char} (ordinary : isOrdinary c = true) :
    isSingle c = true ∧ isCarried c = true ∧ c ≠ '|' ∧ (char c).delimiter? = none := by
  rw [isOrdinary, Bool.or_eq_true, decide_eq_true_eq] at ordinary
  rcases ordinary with word | isMember
  · have other : c ∉ ['(', ')', '[', ']', '|'] := by
      intro isMember
      simp only [List.mem_cons, List.not_mem_nil, or_false] at isMember
      rcases isMember with rfl | rfl | rfl | rfl | rfl <;> cases word
    exact ⟨isSingle_of_isAlphanum word, by simp [isCarried, word], by simp_all,
      delimiter?_char (by simp_all)⟩
  · simp only [List.mem_cons, List.not_mem_nil, or_false] at isMember
    rcases isMember with rfl | rfl | rfl | rfl | rfl | rfl <;> decide

end Token

namespace Bracket

variable (bracket : Bracket) (rest : Text)

theorem read_opener : Token.read bracket.opener rest = ⟨bracket.openToken, [], rest⟩ := by
  cases bracket <;> rfl

theorem read_closer : Token.read bracket.closer rest = ⟨bracket.closeToken, [], rest⟩ := by
  cases bracket <;> rfl

theorem delimiter?_openToken : bracket.openToken.delimiter? = some (bracket.delimiter, true) := by
  cases bracket <;> rfl

theorem delimiter?_closeToken :
    bracket.closeToken.delimiter? = some (bracket.delimiter, false) := by
  cases bracket <;> rfl

end Bracket

/-- A command that is no fraction, root or delimiter has none of their names. -/
theorem Command.side?_of_named? {name : Text} {command : Command}
    (found : Command.named? name = some command) (ordinary : command ≠ .structural) :
    (Token.control name).side? = none ∧ Command.isFraction name = false ∧
      Command.isRoot name = false := by
  have other (spelling : Text) (isStructure : Command.named? spelling = some .structural) :
      name ≠ spelling := by
    rintro rfl
    rw [isStructure] at found
    exact ordinary (Option.some.inj found).symm
  refine ⟨?_, ?_, ?_⟩
  · simp only [Token.side?, if_neg (other Side.left.word (by decide)),
      if_neg (other Side.right.word (by decide))]
  · simp only [Command.isFraction, Bool.or_eq_false_iff, decide_eq_false_iff_not]
    exact ⟨⟨other _ (by decide), other _ (by decide)⟩, other _ (by decide)⟩
  · simpa [Command.isRoot] using other "sqrt".toList (by decide)

/-! ## The lexeme in front of a place -/

namespace Lexeme

/-- The last token of the lexemes in front of a place, blanks and comments apart. -/
def previousToken? (before : List Lexeme) : Option Token :=
  (before.find? (·.token.isSignificant)).map Lexeme.token

theorem previousToken?_cons {here : Lexeme} (significant : here.token.isSignificant = true)
    (before : List Lexeme) : previousToken? (here :: before) = some here.token := by
  rw [previousToken?, List.find?_cons, significant]
  rfl

theorem previousToken?_gap {here : Lexeme} (noMeaning : here.token.isSignificant = false)
    (before : List Lexeme) : previousToken? (here :: before) = previousToken? before := by
  rw [previousToken?, List.find?_cons, noMeaning]
  rfl

theorem previousToken?_blank {here : Lexeme} (blank : here.token = .blank)
    (before : List Lexeme) : previousToken? (here :: before) = previousToken? before :=
  previousToken?_gap (by rw [blank]; rfl) before

/-- What stands between sized delimiters can be the argument of a function. -/
theorem lacksArgument_eq_false {first : Lexeme} (isLeft : first.token = .control Side.left.word)
    (rest : List Lexeme) : lacksArgument (first :: rest) = false := by
  have noGap : first.token.isPassedOver = false := by
    rw [isLeft]
    decide
  have noScript : first.token.isScript = false := by
    rw [isLeft]
    decide
  have noSign : first.token.isSign = false := by
    rw [isLeft]
    decide
  have operand : fromOperand (first :: rest) = first :: rest := by
    rw [fromOperand, List.dropWhile_cons_of_neg (by simp [noGap])]
  have base : fromBase? (first :: rest) = some (first :: rest) := by
    rw [fromBase?]
    split
    · rename_i none
      rw [operand] at none
      cases none
    · rename_i same
      rw [operand] at same
      cases same
      rw [if_neg (by simp [noScript])]
  have begins : beginsArgument (first :: rest) = true := by
    have structural : Command.named? Side.left.word = some .structural := by decide
    simp only [beginsArgument, isLeft, structural]
    decide
  simp only [lacksArgument, base, noSign, begins, Bool.false_eq_true, if_false, Bool.not_true]

end Lexeme

namespace Focus

variable {before after : List Lexeme} {here : Lexeme}

/-- Where no `\left` or `\right` stands in front, a delimiter has a meaning of its own. -/
theorem sizedBy?_eq_none (noSide : (Lexeme.previousToken? before).bind Token.side? = none) :
    sizedBy? ⟨before, here, after⟩ = none := by
  rw [Lexeme.previousToken?, Option.bind_map] at noSide
  rw [sizedBy?, previous?]
  split
  · exact noSide
  · rfl

/-- The delimiter behind a `\left` or `\right` belongs to it. -/
theorem sizedBy?_eq_some {side : Side}
    (isSide : (Lexeme.previousToken? before).bind Token.side? = some side)
    (sized : here.token.sizedDelimiter?.isSome = true) :
    sizedBy? ⟨before, here, after⟩ = some side := by
  rw [Lexeme.previousToken?, Option.bind_map] at isSide
  rw [sizedBy?, previous?, if_pos sized]
  exact isSide

theorem sizedDelimiter?_eq_some {next : Lexeme} {later : List Lexeme}
    (isNext : after = next :: later) (significant : next.token.isSignificant = true)
    (sized : next.token.sizedDelimiter?.isSome = true) :
    sizedDelimiter? ⟨before, here, after⟩ = some next := by
  simp only [sizedDelimiter?, next?, isNext, List.find?_cons, significant, Option.filter_some,
    sized, if_true]

theorem fault?_char {c : Char} (isChar : here.token = .char c)
    (carried : Token.isCarried c = true) :
    fault? ⟨before, here, after⟩ = none := by
  have other : c ≠ '\\' := by
    rintro rfl
    exact absurd carried (by decide)
  simp only [fault?, isChar, if_neg other, if_pos carried]

/-- A character that opens or closes nothing. -/
theorem event?_eq_none {token : Token} (isToken : here.token = token)
    (noSide : token.side? = none) (noDelimiter : token.delimiter? = none) :
    event? ⟨before, here, after⟩ = none := by
  simp only [event?, isToken, noSide, noDelimiter, Option.map_none, ite_self]

/-- A delimiter that stands by itself. -/
theorem event?_eq_some {token : Token} {delimiter : Delimiter} {opens : Bool}
    (isToken : here.token = token) (noSide : token.side? = none)
    (isDelimiter : token.delimiter? = some (delimiter, opens))
    (free : (Lexeme.previousToken? before).bind Token.side? = none) :
    event? ⟨before, here, after⟩ = some ⟨here.offset, delimiter, opens, token.print⟩ := by
  simp only [event?, isToken, noSide, sizedBy?_eq_none free, isDelimiter, Option.isSome_none,
    Bool.false_eq_true, if_false, Option.map_some]

theorem isBar_eq_false {token : Token} (isToken : here.token = token) (noBar : token ≠ .char '|') :
    isBar ⟨before, here, after⟩ = false := by
  simp only [isBar, isToken, beq_eq_false_iff_ne.2 noBar, Bool.false_and]

theorem fault?_delimiter {delimiter : Delimiter} {opens : Bool}
    (delimits : here.token.delimiter? = some (delimiter, opens)) :
    fault? ⟨before, here, after⟩ = none := by
  unfold Token.delimiter? at delimits
  split at delimits <;> rename_i same
  case h_1 | h_2 => simp only [fault?, same]
  case h_3 | h_4 =>
    simp only [fault?, same, controlFault?]
    rfl
  case h_5 | h_6 | h_7 | h_8 => exact fault?_char same (by decide)
  case h_9 => cases delimits

/-- A control sequence whose command needs nothing behind it, or has its argument. -/
theorem fault?_word {name : Text} {command : Command} (isControl : here.token = .control name)
    (found : Command.named? name = some command) (ordinary : command ≠ .structural)
    (complete : (command.takesArgument && Lexeme.lacksArgument after) = false) :
    fault? ⟨before, here, after⟩ = none := by
  obtain ⟨noSide, noFraction, noRoot⟩ := Command.side?_of_named? found ordinary
  simp only [fault?, isControl, controlFault?, noSide, noFraction, noRoot, found, complete,
    Bool.false_eq_true, if_false]

theorem fault?_fraction (isControl : here.token = .control "frac".toList)
    (complete : Malformation.ofFraction? "frac".toList 2 (Text.ofLexemes after) = none) :
    fault? ⟨before, here, after⟩ = none := by
  have noSide : Token.side? (.control "frac".toList) = none := by decide
  have isFraction : Command.isFraction "frac".toList = true := by decide
  rw [fault?, isControl]
  simp only [controlFault?, isControl, noSide, isFraction, if_true, following, complete,
    Option.map_none]

theorem fault?_root (isControl : here.token = .control "sqrt".toList)
    (complete : Malformation.ofRoot? "sqrt".toList (Text.ofLexemes after) = none) :
    fault? ⟨before, here, after⟩ = none := by
  have noSide : Token.side? (.control "sqrt".toList) = none := by decide
  have noFraction : Command.isFraction "sqrt".toList = false := by decide
  have isRoot : Command.isRoot "sqrt".toList = true := by decide
  rw [fault?, isControl]
  simp only [controlFault?, isControl, noSide, noFraction, isRoot, Bool.false_eq_true, if_false,
    if_true, following, complete, Option.map_none]

/-- A `^` behind a base and in front of an exponent. -/
theorem fault?_script {base : Token} {rest : Text} {later : Nat}
    (isScript : here.token = .superscript)
    (isPrevious : Lexeme.previousToken? before = some base) (isBase : base.isBase = true)
    (begins : rest.beginsExponent = true) :
    fault? ⟨before, here, rest.lexemesFrom later⟩ = none := by
  have hasBase : (before.find? (·.token.isSignificant)).any (·.token.isBase) = true := by
    obtain ⟨lexeme, isFound, rfl⟩ := Option.map_eq_some_iff.1 isPrevious
    rw [isFound]
    exact isBase
  have hasExponent : hasExponent ⟨before, here, rest.lexemesFrom later⟩ = true := by
    rw [Focus.hasExponent]
    fun_cases Text.beginsExponent rest with
    | case1 c more =>
        simp only [Text.beginsExponent, Bool.and_eq_true, Bool.not_eq_true', bne_iff_ne,
          ne_eq] at begins
        obtain ⟨⟨visible, noBrace⟩, noComment⟩ := begins
        have inner := Token.isSignificant_read visible noComment noBrace more
        obtain ⟨next, opens⟩ := Text.exists_lexemesFrom_eq
          (show Token.read '\x7b' (c :: more) = ⟨.openBrace, [], c :: more⟩ from rfl) later
        cases isRead : Token.read c more with
        | mk token taken rest =>
            rw [isRead] at inner
            obtain ⟨behind, isInner⟩ := Text.exists_lexemesFrom_eq isRead next
            rw [opens, isInner, List.dropWhile_cons_of_neg Bool.false_ne_true]
            simpa only [if_true, List.find?_cons, inner.1, Option.any_some, bne_iff_ne]
              using inner.2
    | case2 c more noGroup =>
        have word : c.isAlphanum = true := by
          unfold Text.beginsExponent at begins
          split at begins
          · rename_i same
            cases same
            exact absurd rfl (noGroup _ _ rfl)
          · rename_i same
            cases same
            exact begins
          · cases begins
        obtain ⟨behind, isChar⟩ := Text.exists_lexemesFrom_eq
          (Token.read_of_isSingle (Token.isSingle_of_isAlphanum word) more) later
        rw [isChar, List.dropWhile_cons_of_neg Bool.false_ne_true]
        exact Bool.or_eq_true_iff.2 (.inl (isWordChar_of_isAlphanum word))
    | case3 => cases begins
  simp only [fault?, isScript, exponentFault?, previous?, hasBase, hasExponent, Bool.and_self,
    if_true]

end Focus

namespace Lexeme.IsClean

variable {before after : List Lexeme} {here : Lexeme} {stack settled : List DelimiterEvent}

/-- A delimiter by itself. -/
theorem delimiter {delimiter : Delimiter} {opens : Bool}
    (delimits : here.token.delimiter? = some (delimiter, opens))
    (free : (previousToken? before).bind Token.side? = none)
    (settles :
      DelimiterEvent.Settles ⟨here.offset, delimiter, opens, here.token.print⟩ stack settled)
    (clean : IsClean (here :: before) settled after) : IsClean before stack (here :: after) := by
  obtain ⟨noSide, _, noBar⟩ := Token.facts_of_delimiter? delimits
  exact .settle (Focus.fault?_delimiter delimits) (Focus.isBar_eq_false rfl noBar)
    (Focus.event?_eq_some rfl noSide delimits free) settles clean

/-- A control sequence that is not at fault and no delimiter. -/
theorem word {name : Text} (isControl : here.token = .control name)
    (faultless : Focus.fault? ⟨before, here, after⟩ = none)
    (noSide : Token.side? (.control name) = none)
    (noDelimiter : Token.delimiter? (.control name) = none)
    (clean : IsClean (here :: before) stack after) : IsClean before stack (here :: after) :=
  .pass faultless (Focus.isBar_eq_false isControl (by simp))
    (Focus.event?_eq_none isControl noSide noDelimiter) clean

/-- A `\left` or `\right` is one delimiter together with the one behind it. -/
theorem sized {side : Side} {first second : Lexeme} {c : Char}
    (isSide : first.token = .control side.word) (isDelimiter : second.token = .char c)
    (isSized : c ∈ ['(', ')', '[', ']', '|', '.'])
    (settles : DelimiterEvent.Settles
      ⟨first.offset, .sized, side == .left, first.token.print ++ second.token.print⟩ stack settled)
    (clean : IsClean (second :: first :: before) settled after) :
    IsClean before stack (first :: second :: after) := by
  have named : first.token.side? = some side := by
    rw [isSide]
    cases side <;> rfl
  have delimiter : second.token.sizedDelimiter? = some c := by
    rw [isDelimiter]
    exact if_pos isSized
  have behind : Focus.sizedBy? ⟨first :: before, second, after⟩ = some side := by
    apply Focus.sizedBy?_eq_some
    · rw [previousToken?_cons (by rw [isSide]; rfl)]
      exact named
    · rw [delimiter]
      rfl
  have size : Focus.sizedDelimiter? ⟨before, first, second :: after⟩ = some second :=
    Focus.sizedDelimiter?_eq_some rfl (by rw [isDelimiter]; rfl) (by rw [delimiter]; rfl)
  have carried : Token.isCarried c = true := by
    simp only [List.mem_cons, List.not_mem_nil, or_false] at isSized
    rcases isSized with rfl | rfl | rfl | rfl | rfl | rfl <;> decide
  refine .settle ?_ (Focus.isBar_eq_false isSide (by simp)) ?_ settles
    (.pass (Focus.fault?_char isDelimiter carried) ?_ ?_ clean)
  · simp only [Focus.fault?, isSide, Focus.controlFault?]
    rw [← isSide, named, size]
    rfl
  · simp only [Focus.event?, named, size, Option.map_some]
  · simp only [Focus.isBar, behind, Option.isNone_some, Bool.and_false]
  · simp only [Focus.event?, isDelimiter, Token.side?, behind, Option.isSome_some, if_true]

end Lexeme.IsClean

namespace Text

/-- The lexemes of a `\left` or `\right` and its delimiter. -/
theorem exists_lexemesFrom_sized (side : Side) {c : Char} (single : Token.isSingle c = true)
    (noLetter : c.isAlpha = false) (rest : Text) (offset : Nat) :
    ∃ first second behind, lexemesFrom offset ('\\' :: (side.word ++ c :: rest)) =
        first :: second :: rest.lexemesFrom behind ∧
      first.token = .control side.word ∧ second.token = .char c := by
  have ends : endsRun Char.isAlpha (c :: rest) = true := by
    simpa [endsRun] using noLetter
  obtain ⟨later, isSide⟩ := exists_lexemesFrom_eq (Token.read_side side ends) offset
  obtain ⟨behind, isChar⟩ := exists_lexemesFrom_eq (Token.read_of_isSingle single rest) later
  rw [isChar] at isSide
  exact ⟨_, _, behind, isSide, rfl, rfl⟩

/-- The lexemes of a faultless text are clean. -/
theorem isClean_of_isFaultless {opened : List Delimiter} {previous? : Option Token} {text : Text}
    (isFaultless : IsFaultless opened previous? text) (noSide : previous?.bind Token.side? = none)
    {before : List Lexeme} (isPrevious : Lexeme.previousToken? before = previous?)
    {stack : List DelimiterEvent} (isOpen : stack.map DelimiterEvent.delimiter = opened)
    (offset : Nat) : Lexeme.IsClean before stack (text.lexemesFrom offset) := by
  induction isFaultless generalizing before stack offset with
  | nil =>
      rw [List.map_eq_nil_iff] at isOpen
      subst isOpen
      rw [lexemesFrom]
      exact .nil before
  | @char opened previous? c rest ordinary _ ih =>
      obtain ⟨single, carried, noBar, noDelimiter⟩ := Token.facts_of_isOrdinary ordinary
      obtain ⟨later, isChar⟩ := exists_lexemesFrom_eq (Token.read_of_isSingle single rest) offset
      rw [isChar]
      exact .pass (Focus.fault?_char rfl carried) (Focus.isBar_eq_false rfl (by simpa using noBar))
        (Focus.event?_eq_none rfl rfl noDelimiter)
        (ih rfl (Lexeme.previousToken?_cons rfl before) isOpen later)
  | @blank opened previous? rest ends _ ih =>
      obtain ⟨later, isBlank⟩ := exists_lexemesFrom_eq (Token.read_blank ends) offset
      rw [isBlank]
      exact .pass rfl (Focus.isBar_eq_false rfl (by simp)) (Focus.event?_eq_none rfl rfl rfl)
        (ih noSide ((Lexeme.previousToken?_blank rfl before).trans isPrevious) isOpen later)
  | @opening opened previous? bracket rest _ ih =>
      have delimits := bracket.delimiter?_openToken
      obtain ⟨noSide', significant, _⟩ := Token.facts_of_delimiter? delimits
      obtain ⟨later, isOpening⟩ := exists_lexemesFrom_eq (bracket.read_opener rest) offset
      rw [isOpening]
      exact .delimiter delimits (isPrevious.symm ▸ noSide) (.opening rfl)
        (ih noSide' (Lexeme.previousToken?_cons significant before)
          (by rw [List.map_cons, isOpen]) later)
  | @closing opened previous? bracket rest _ ih =>
      have delimits := bracket.delimiter?_closeToken
      obtain ⟨noSide', significant, _⟩ := Token.facts_of_delimiter? delimits
      obtain ⟨partner, stack, rfl, isPartner, isOpen⟩ := List.map_eq_cons_iff.1 isOpen
      obtain ⟨later, isClosing⟩ := exists_lexemesFrom_eq (bracket.read_closer rest) offset
      rw [isClosing]
      exact .delimiter delimits (isPrevious.symm ▸ noSide) (.closing rfl isPartner)
        (ih noSide' (Lexeme.previousToken?_cons significant before) isOpen later)
  | @script opened base rest isBase begins _ ih =>
      obtain ⟨later, isScript⟩ := exists_lexemesFrom_eq
        (show Token.read '^' rest = ⟨.superscript, [], rest⟩ from rfl) offset
      rw [isScript]
      exact .pass (Focus.fault?_script rfl isPrevious isBase begins)
        (Focus.isBar_eq_false rfl (by simp)) (Focus.event?_eq_none rfl rfl rfl)
        (ih rfl (Lexeme.previousToken?_cons rfl before) isOpen later)
  | @word opened previous? name rest command letters nonempty ends found alone _ ih =>
      have ordinary : command ≠ .structural := by
        rintro rfl
        cases alone
      have noArgument : command.takesArgument = false := by
        cases command <;> first | rfl | cases alone
      have noSide' := (Command.side?_of_named? found ordinary).1
      obtain ⟨later, isWord⟩ :=
        exists_lexemesFrom_eq (Token.read_word letters nonempty ends) offset
      rw [isWord]
      exact .word rfl (Focus.fault?_word rfl found ordinary (by rw [noArgument]; rfl)) noSide'
        (Token.delimiter?_word letters)
        (ih noSide' (Lexeme.previousToken?_cons rfl before) isOpen later)
  | @function opened previous? name rest command letters nonempty found takes ends _ ih =>
      have ordinary : command ≠ .structural := by
        rintro rfl
        cases takes
      have noSide' := (Command.side?_of_named? found ordinary).1
      have isName : Token.read '\\' (name ++ '\\' :: (Side.left.word ++ rest)) =
          ⟨.control name, name, '\\' :: (Side.left.word ++ rest)⟩ :=
        Token.read_word letters nonempty rfl
      obtain ⟨later, isWord⟩ := exists_lexemesFrom_eq isName offset
      obtain ⟨behind, isLeft⟩ := exists_lexemesFrom_eq (Token.read_side .left ends) later
      rw [isWord]
      refine .word rfl (Focus.fault?_word rfl found ordinary ?_) noSide'
        (Token.delimiter?_word letters)
        (ih noSide' (Lexeme.previousToken?_cons rfl before) isOpen later)
      rw [isLeft, Lexeme.lacksArgument_eq_false rfl, Bool.and_false]
  | @fraction opened previous? rest ends complete _ ih =>
      have isName : Token.read '\\' ("frac".toList ++ rest) =
          ⟨.control "frac".toList, "frac".toList, rest⟩ :=
        Token.read_word (by decide) (by decide) ends
      have noSide' : Token.side? (.control "frac".toList) = none := by decide
      have noDelimiter : Token.delimiter? (.control "frac".toList) = none := by decide
      obtain ⟨later, isWord⟩ := exists_lexemesFrom_eq isName offset
      rw [isWord]
      exact .word rfl (Focus.fault?_fraction rfl (by rw [ofLexemes_lexemesFrom, complete])) noSide'
        noDelimiter (ih noSide' (Lexeme.previousToken?_cons rfl before) isOpen later)
  | @root opened previous? rest ends complete _ ih =>
      have isName : Token.read '\\' ("sqrt".toList ++ rest) =
          ⟨.control "sqrt".toList, "sqrt".toList, rest⟩ :=
        Token.read_word (by decide) (by decide) ends
      have noSide' : Token.side? (.control "sqrt".toList) = none := by decide
      have noDelimiter : Token.delimiter? (.control "sqrt".toList) = none := by decide
      obtain ⟨later, isWord⟩ := exists_lexemesFrom_eq isName offset
      rw [isWord]
      exact .word rfl (Focus.fault?_root rfl (by rw [ofLexemes_lexemesFrom, complete])) noSide'
        noDelimiter (ih noSide' (Lexeme.previousToken?_cons rfl before) isOpen later)
  | @left opened previous? c rest isSized _ ih =>
      obtain ⟨sized, single, noLetter⟩ : c ∈ ['(', ')', '[', ']', '|', '.'] ∧
          Token.isSingle c = true ∧ c.isAlpha = false := by
        simp only [List.mem_cons, List.not_mem_nil, or_false] at isSized
        rcases isSized with rfl | rfl | rfl | rfl <;> decide
      obtain ⟨first, second, behind, lexemes, isSide, isChar⟩ :=
        exists_lexemesFrom_sized .left single noLetter rest offset
      rw [lexemes]
      refine .sized isSide isChar sized (.opening rfl) (ih rfl ?_ (by rw [List.map_cons, isOpen]) _)
      rw [Lexeme.previousToken?_cons (by rw [isChar]; rfl), isChar]
  | @right opened previous? c rest isSized _ ih =>
      obtain ⟨sized, single, noLetter⟩ : c ∈ ['(', ')', '[', ']', '|', '.'] ∧
          Token.isSingle c = true ∧ c.isAlpha = false := by
        simp only [List.mem_cons, List.not_mem_nil, or_false] at isSized
        rcases isSized with rfl | rfl | rfl | rfl <;> decide
      obtain ⟨partner, stack, rfl, isPartner, isOpen⟩ := List.map_eq_cons_iff.1 isOpen
      obtain ⟨first, second, behind, lexemes, isSide, isChar⟩ :=
        exists_lexemesFrom_sized .right single noLetter rest offset
      rw [lexemes]
      refine .sized isSide isChar sized (.closing rfl isPartner) (ih rfl ?_ isOpen _)
      rw [Lexeme.previousToken?_cons (by rw [isChar]; rfl), isChar]

/-- There are no issues in a faultless text. -/
theorem issues_eq_nil_of_isFaultless {text : Text} (isFaultless : IsFaultless [] none text) :
    text.issues = [] :=
  (isClean_of_isFaultless isFaultless rfl rfl rfl 0).issues_eq_nil

end Text

end TexCalc
