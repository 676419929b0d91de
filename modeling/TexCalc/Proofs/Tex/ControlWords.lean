import TexCalc.Proofs.Tex.Lexemes
import TexCalc.Tex.Normal

/-!
# Control words of normal text

Normal text is read again by later steps, so that its control words should be those of the formula,
but for the ones that size a delimiter or stand for a blank.  None of them is lost, none is new and
all stay in order.  A control word may become longer, however: dollar signs, comments and sizes
without a delimiter leave nothing behind, and a sized bar leaves a name, so that letters come to
stand behind a word that did not stand there before.
-/

namespace TexCalc

namespace Token

/-- The name of a control word. -/
def word? : Token → Option Text
  | control name => if name.head?.any Char.isAlpha then some name else none
  | _ => none

end Token

namespace Text

/-- The control words of a text, in order. -/
def controlWords (text : Text) : List Text :=
  (text.lexemes.map Lexeme.token).filterMap Token.word?

/-- Whether a control word has a place in normal text. -/
def isKeptWord (name : Text) : Bool :=
  !(["left".toList, "right".toList, "quad".toList, "qquad".toList].contains name)

/-- The letters with which the normal text of a list of tokens begins. -/
def leadingLetters : List Token → Text
  | [] => []
  | token :: rest =>
      match token.side? with
      | some side =>
          match rest.dropWhile Token.isBlank with
          | next :: _ =>
              match next.sizedDelimiter? with
              | some delimiter =>
                  if side = .left ∧ delimiter = '|' then "abs".toList else []
              | none => leadingLetters rest
          | [] => leadingLetters rest
      | none =>
          match token with
          | .mathShift => leadingLetters rest
          | .comment _ => leadingLetters rest
          | .char c =>
              if c = Parked.mark then leadingLetters rest
              else if c.isAlpha then c :: leadingLetters rest
              else []
          | _ => []

/-- The control words among tokens that have a place in normal text, each with the letters that
come to stand behind it. -/
def followedWords : List Token → List (Text × Text)
  | [] => []
  | token :: rest =>
      match token.word?.filter isKeptWord with
      | some name => (name, leadingLetters rest) :: followedWords rest
      | none => followedWords rest

/-- Characters that neither begin a control sequence nor hide one. -/
def isWordless (c : Char) : Bool :=
  c != '\\' && c != '%'

/-! ## Reading control words -/

variable {text left right name : Text} {c : Char}

theorem controlWords_nil : controlWords [] = [] := by
  rw [controlWords, lexemes, lexemesFrom, List.map_nil, List.filterMap_nil]

theorem controlWords_cons (c : Char) (rest : Text) :
    controlWords (c :: rest) =
      (Token.read c rest).token.word?.toList ++ (Token.read c rest).rest.controlWords := by
  rw [controlWords, lexemes, lexemesFrom, List.map_cons, List.filterMap_cons,
    map_token_lexemesFrom, controlWords]
  cases (Token.read c rest).token.word? <;> rfl

theorem controlWords_cons_of_isWordless (wordless : isWordless c = true) (text : Text) :
    controlWords (c :: text) = text.controlWords := by
  have ofBlanks {c : Char} (blank : isBlank c = true) (text : Text) :
      controlWords (c :: text) = controlWords (text.dropWhile isBlank) := by
    have isRead : Token.read c text =
        ⟨.blank, text.takeWhile isBlank, text.dropWhile isBlank⟩ := by
      fun_cases Token.read c text with
      | case10 => rfl
      | case11 =>
          rename_i visible
          exact absurd blank visible
      | _ => cases blank
    rw [controlWords_cons, isRead]
    rfl
  cases blank : isBlank c with
  | true =>
      rw [ofBlanks blank]
      cases text with
      | nil => rfl
      | cons d rest =>
          cases again : isBlank d with
          | true => rw [List.dropWhile_cons_of_pos again, ofBlanks again]
          | false => rw [List.dropWhile_cons_of_neg (Bool.eq_false_iff.1 again)]
  | false =>
      rw [controlWords_cons]
      fun_cases Token.read c text with
      | case1 => cases wordless
      | case2 => cases wordless
      | case3 => cases wordless
      | case10 =>
          rename_i isBlank
          rw [blank] at isBlank
          cases isBlank
      | _ => rfl

theorem controlWords_append_of_isWordless (wordless : left.all isWordless = true)
    (right : Text) : controlWords (left ++ right) = right.controlWords := by
  induction left with
  | nil => rfl
  | cons d left ih =>
      rw [List.all_cons, Bool.and_eq_true] at wordless
      rw [List.cons_append, controlWords_cons_of_isWordless wordless.1, ih wordless.2]

/-- Behind a backslash a name of letters runs on through the letters after it. -/
theorem controlWords_word (letters : name.all Char.isAlpha = true) (nonempty : name ≠ [])
    (text : Text) :
    controlWords ('\\' :: (name ++ text)) =
      (name ++ text.takeWhile Char.isAlpha) :: text.controlWords := by
  have whole : (name ++ text.takeWhile Char.isAlpha).all Char.isAlpha = true := by
    rw [List.all_append, letters, List.all_takeWhile]
    rfl
  have some : name ++ text.takeWhile Char.isAlpha ≠ [] := by simp [nonempty]
  have ends := endsRun_dropWhile Char.isAlpha text
  have rejoined : name ++ text =
      (name ++ text.takeWhile Char.isAlpha) ++ text.dropWhile Char.isAlpha := by
    rw [List.append_assoc, List.takeWhile_append_dropWhile]
  have behind : text.controlWords = controlWords (text.dropWhile Char.isAlpha) := by
    conv => lhs; rw [← List.takeWhile_append_dropWhile (p := Char.isAlpha) (l := text)]
    refine controlWords_append_of_isWordless (List.all_eq_true.2 fun d isMember => ?_) _
    have letter := List.all_eq_true.1 List.all_takeWhile d isMember
    simp only [isWordless, Bool.and_eq_true, bne_iff_ne]
    constructor <;> rintro rfl <;> cases letter
  have first : (name ++ text.takeWhile Char.isAlpha).head?.any Char.isAlpha = true := by
    obtain ⟨d, run, rfl⟩ := List.exists_cons_of_ne_nil nonempty
    rw [List.all_cons, Bool.and_eq_true] at letters
    exact letters.1
  rw [rejoined, controlWords_cons, Token.read_word whole some ends, behind]
  simp only [Token.word?, first, if_true, Option.toList_some, List.singleton_append]

/-- A control symbol takes the character behind its backslash. -/
theorem controlWords_symbol (noLetter : c.isAlpha = false) (text : Text) :
    controlWords ('\\' :: c :: text) = text.controlWords := by
  have found : Control.read? (c :: text) = some ⟨[c], text⟩ := by
    simp [Control.read?, noLetter]
  rw [controlWords_cons, Token.read_control found]
  simp [Token.word?, noLetter]

/-! ## Letters behind control words -/

theorem takeWhile_control_append (name right : Text) :
    ((Token.control name).normal ++ right).takeWhile Char.isAlpha = [] := by
  rw [Token.normal_control]
  split
  · rfl
  · split
    · rfl
    · split <;> rfl

/-- The letters at the beginning of normal text can be told from the tokens alone. -/
theorem takeWhile_ofTokens (isOpen : Bool) (tokens : List Token) :
    (ofTokens isOpen tokens).takeWhile Char.isAlpha = leadingLetters tokens := by
  fun_induction ofTokens isOpen tokens with
  | case1 => rfl
  | case2 isOpen token rest side isSide next later after delimiter isDelimiter ih =>
      simp only [leadingLetters, isSide, after, isDelimiter]
      fun_cases Side.normal side delimiter with
      | case1 => rfl
      | case2 => rw [if_neg (by simp_all)]; rfl
      | case3 => rfl
  | case3 isOpen token rest side isSide next later after noDelimiter ih =>
      simp only [leadingLetters, isSide, after, noDelimiter, ih]
  | case4 isOpen token rest side isSide after ih =>
      simp only [leadingLetters, isSide, after, ih]
  | case5 isOpen rest noSide ih =>
      cases isOpen <;> rfl
  | case6 isOpen token rest noSide noBar ih =>
      cases token with
      | mathShift | comment _ => exact ih
      | char c =>
          have shape : (Token.char c).normal = if c = Parked.mark then [] else [c] := rfl
          simp only [leadingLetters, noSide, shape]
          split
          · exact ih
          · rw [List.singleton_append, List.takeWhile_cons, ih]
      | control name =>
          simp only [leadingLetters, noSide]
          exact takeWhile_control_append name _
      | _ => rfl

/-! ## Control words of normal text -/

theorem followedWords_cons_of_eq_none {token : Token} (none : token.word?.filter isKeptWord = none)
    (rest : List Token) : followedWords (token :: rest) = followedWords rest := by
  rw [followedWords, none]

theorem followedWords_dropWhile_isBlank (tokens : List Token) :
    followedWords (tokens.dropWhile Token.isBlank) = followedWords tokens := by
  induction tokens with
  | nil => rfl
  | cons token rest ih =>
      cases token with
      | blank => exact ih
      | _ => rfl

/-- What sizes a delimiter has no place in normal text. -/
theorem word?_of_side? {token : Token} {side : Side} (isSide : token.side? = some side) :
    token.word?.filter isKeptWord = none := by
  cases token with
  | control name =>
      simp only [Token.side?] at isSide
      split at isSide
      · rename_i left
        rw [left]
        rfl
      · split at isSide
        · rename_i right
          rw [right]
          rfl
        · cases isSide
  | _ => cases isSide

theorem word?_of_sizedDelimiter? {token : Token} {delimiter : Char}
    (sized : token.sizedDelimiter? = some delimiter) : token.word?.filter isKeptWord = none := by
  cases token with
  | char c => rfl
  | control name =>
      simp only [Token.sizedDelimiter?] at sized
      split at sized
      · rename_i opening
        rw [opening]
        rfl
      · split at sized
        · rename_i closing
          rw [closing]
          rfl
        · cases sized
  | _ => cases sized

/-- A word stands for a blank only if it has no place in normal text. -/
theorem named?_ne_spacing {name : Text} (isWord : name.head?.any Char.isAlpha = true)
    (kept : isKeptWord name = true) : Command.named? name ≠ some .spacing := by
  intro found
  have inTable : ∀ entry ∈ Command.table, entry.2 = .spacing →
      entry.1.head?.any Char.isAlpha = true → isKeptWord entry.1 = false := by
    decide
  rw [inTable _ (Command.mem_table_of_named? found) rfl isWord] at kept
  cases kept

/-- A control sequence that sizes no delimiter, in front of any text. -/
theorem controlWords_control_append {later : List Token} {name : Text}
    (lexed : Token.IsLexed later (.control name))
    (noSide : (Token.control name).side? = none) (right : Text) :
    ((Token.control name).normal ++ right).controlWords =
      (((Token.control name).word?.filter isKeptWord).map
        (· ++ right.takeWhile Char.isAlpha)).toList ++ right.controlWords := by
  rcases lexed with ⟨nonempty, letters⟩ | ⟨c, rfl, noLetter⟩
  · have isWord : name.head?.any Char.isAlpha = true := by
      obtain ⟨d, run, rfl⟩ := List.exists_cons_of_ne_nil nonempty
      rw [List.all_cons, Bool.and_eq_true] at letters
      exact letters.1
    cases kept : isKeptWord name with
    | true =>
        have noBrace {c : Char} (noLetter : c.isAlpha = false) : name ≠ [c] := by
          rintro rfl
          simp [noLetter] at letters
        rw [Token.normal_control, if_neg (noBrace rfl), if_neg (noBrace rfl),
          if_neg (named?_ne_spacing isWord kept), List.cons_append,
          controlWords_word letters nonempty, Token.word?, if_pos isWord, Option.filter_some,
          if_pos kept]
        rfl
    | false =>
        simp only [isKeptWord, Bool.not_eq_false', List.contains_iff_mem, List.mem_cons,
          List.not_mem_nil, or_false] at kept
        have blank : controlWords ([' '] ++ right) = right.controlWords :=
          controlWords_append_of_isWordless rfl right
        rcases kept with rfl | rfl | rfl | rfl
        · cases noSide
        · cases noSide
        · exact blank
        · exact blank
  · have noWord : (Token.control [c]).word? = none := by simp [Token.word?, noLetter]
    rw [noWord, Token.normal_control]
    split
    · exact controlWords_append_of_isWordless rfl right
    · split
      · exact controlWords_append_of_isWordless rfl right
      · split
        · exact controlWords_append_of_isWordless rfl right
        · exact controlWords_symbol noLetter right

/-- A token that is no bar and sizes no delimiter, in front of the normal text of those behind. -/
theorem controlWords_normal_append {token : Token} {later : List Token}
    (lexed : Token.IsLexed later token) (noSide : token.side? = none) (isOpen : Bool) :
    (token.normal ++ ofTokens isOpen later).controlWords =
      ((token.word?.filter isKeptWord).map (· ++ leadingLetters later)).toList ++
        (ofTokens isOpen later).controlWords := by
  cases token with
  | control name =>
      rw [controlWords_control_append lexed noSide, takeWhile_ofTokens]
  | char c =>
      rcases lexed with single | ⟨rfl, rfl⟩
      · have wordless : (Token.char c).normal.all isWordless = true := by
          have shape : (Token.char c).normal = if c = Parked.mark then [] else [c] := rfl
          rw [shape]
          split
          · rfl
          · simp only [Token.isSingle, Bool.and_eq_true, decide_eq_true_eq, List.mem_cons,
              not_or] at single
            simp [isWordless, single.2.1, single.2.2.1]
        exact controlWords_append_of_isWordless wordless _
      · rw [ofTokens, controlWords_nil]
        decide +kernel
  | _ => exact controlWords_append_of_isWordless rfl _

/-- The control words of normal text are those of the tokens that have a place there, each with the
letters that have come to stand behind it. -/
theorem controlWords_ofTokens {tokens : List Token} (lexed : AreLexed tokens) (isOpen : Bool) :
    (ofTokens isOpen tokens).controlWords =
      (followedWords tokens).map fun word => word.1 ++ word.2 := by
  fun_induction ofTokens isOpen tokens with
  | case1 => exact controlWords_nil
  | case2 isOpen token rest side isSide next later after delimiter isDelimiter ih =>
      have behind : later <:+ rest := (List.suffix_cons next later).trans
        (after ▸ List.dropWhile_suffix Token.isBlank)
      have wordless : (side.normal delimiter).all isWordless = true := by
        fun_cases Side.normal side delimiter <;> rfl
      rw [controlWords_append_of_isWordless wordless, ih (lexed.tail.of_suffix behind),
        followedWords_cons_of_eq_none (word?_of_side? isSide),
        ← followedWords_dropWhile_isBlank rest, after,
        followedWords_cons_of_eq_none (word?_of_sizedDelimiter? isDelimiter)]
  | case3 isOpen token rest side isSide next later after noDelimiter ih =>
      rw [ih lexed.tail, followedWords_cons_of_eq_none (word?_of_side? isSide)]
  | case4 isOpen token rest side isSide after ih =>
      rw [ih lexed.tail, followedWords_cons_of_eq_none (word?_of_side? isSide)]
  | case5 isOpen rest noSide ih =>
      have wordless : List.all (if isOpen then "))".toList else "(abs(".toList) isWordless = true :=
        by cases isOpen <;> rfl
      rw [controlWords_append_of_isWordless wordless, ih lexed.tail]
      rfl
  | case6 isOpen token rest noSide noBar ih =>
      rw [controlWords_normal_append lexed.head noSide, ih lexed.tail, followedWords]
      cases token.word?.filter isKeptWord <;> rfl

theorem map_fst_followedWords (tokens : List Token) :
    (followedWords tokens).map Prod.fst = (tokens.filterMap Token.word?).filter isKeptWord := by
  induction tokens with
  | nil => rfl
  | cons token rest ih =>
      rw [followedWords, List.filterMap_cons]
      cases token.word? with
      | none => exact ih
      | some name =>
          rw [List.filter_cons, Option.filter_some, ← ih]
          cases isKeptWord name <;> rfl

/-- The control words of a formula that have a place in normal text. -/
def keptWords (formula : Text) : List Text :=
  formula.trim.controlWords.filter isKeptWord

/-- The control words of normal text are the kept ones of the formula in their order, each with the
letters that have come to stand behind it, and they are the same where no letters have. -/
theorem controlWords_normal (formula : Text) :
    let words := followedWords (formula.trim.lexemes.map Lexeme.token)
    words.map Prod.fst = formula.keptWords ∧
      formula.normal.controlWords = words.map (fun word => word.1 ++ word.2) ∧
        (formula.normal.controlWords = formula.keptWords ↔ ∀ word ∈ words, word.2 = []) := by
  intro words
  have names : words.map Prod.fst = formula.keptWords := map_fst_followedWords _
  have grown : formula.normal.controlWords = words.map (fun word => word.1 ++ word.2) :=
    controlWords_ofTokens (areLexed_lexemes formula.trim) false
  refine ⟨names, grown, ?_⟩
  rw [grown, ← names, List.map_inj_left]
  constructor
  · intro same word isWord
    simpa using same word isWord
  · intro nothing word isWord
    rw [nothing word isWord, List.append_nil]

/-- A sized bar leaves a name right behind the control word in front of it, here `\sinabs` where the
formula has `\sin`. -/
theorem controlWords_normal_ne_of_bar :
    controlWords (normal "\\sin\\left|x\\right|".toList) ≠
      keptWords "\\sin\\left|x\\right|".toList := by
  decide +kernel

end Text

end TexCalc
