import TexCalc.Proofs.Dollars.Transparent
import TexCalc.Proofs.Nesting.Nested
import TexCalc.Proofs.Tex.Normal

/-!
# Brackets and trimming

A formula is trimmed before it is brought into normal text, and it is checked as it stands.  Blanks
at its ends can be part of a comment, or of a control sequence whose backslash would be the last
character otherwise, but the brackets of the normal text do not depend on them.
-/

namespace TexCalc

/-- Inert tokens that become no bracket. -/
def Token.isSilent (token : Token) : Bool :=
  token.isInert && token.normal.all (!isBracket ·)

theorem Token.eq_of_read_char {c d : Char} {rest : Text}
    (isChar : (Token.read c rest).token = .char d) : c = d := by
  revert isChar
  fun_cases Token.read c rest with
  | case2 | case11 =>
      intro isChar
      cases isChar
      rfl
  | _ =>
      intro isChar
      cases isChar

namespace Text

theorem all_isInert_of_isSilent {tokens : List Token} (silent : tokens.all Token.isSilent = true) :
    tokens.all Token.isInert = true := by
  rw [List.all_eq_true] at *
  intro token isMember
  exact (Bool.and_eq_true_iff.1 (silent token isMember)).1

theorem filter_isBracket_of_isSilent {tokens : List Token}
    (silent : tokens.all Token.isSilent = true) :
    (tokens.flatMap Token.normal).filter isBracket = [] := by
  rw [List.all_eq_true] at silent
  rw [List.filter_eq_nil_iff]
  intro c isMember
  obtain ⟨token, isToken, inToken⟩ := List.mem_flatMap.1 isMember
  have plain := List.all_eq_true.1 (Bool.and_eq_true_iff.1 (silent token isToken)).2 c inToken
  simpa using plain

theorem isSilent_of_isIdle {lexemes : List Lexeme}
    (idle : lexemes.all (·.token.isIdle) = true) :
    (lexemes.map Lexeme.token).all Token.isSilent = true := by
  rw [List.all_map, List.all_eq_true]
  intro lexeme isMember
  rw [Function.comp_apply]
  rcases Token.eq_of_isIdle (List.all_eq_true.1 idle lexeme isMember) with
    isToken | ⟨text, isToken⟩ | isToken <;> rw [isToken] <;> rfl

/-- A backslash in front of a blank makes it a control sequence without a delimiter in it. -/
theorem isSilent_control {c : Char} (blank : isBlank c = true) :
    Token.isSilent (.control [c]) = true := by
  have noBrace : c ≠ '\x7b' ∧ c ≠ '\x7d' := by
    constructor <;> rintro rfl <;> cases blank
  have plain : isBracket c = false := by
    rcases isBracket_cases c with plain | ⟨bracket, rfl | rfl⟩
    · exact plain
    · cases bracket <;> cases blank
    · cases bracket <;> cases blank
  have noSide (side : Side) : [c] ≠ side.word := by
    cases side <;> exact fun same => by cases congrArg List.length same
  have normal : (Token.control [c]).normal.all (!isBracket ·) = true := by
    rw [Token.normal_control, if_neg (by simpa using noBrace.1), if_neg (by simpa using noBrace.2)]
    split
    · rfl
    · simp [plain]
      decide
  rw [Token.isSilent, normal, Bool.and_true, Token.isInert]
  simp only [Token.side?, if_neg (noSide .left), if_neg (noSide .right), Token.sizedDelimiter?,
    List.cons.injEq, and_true, if_neg noBrace.1, if_neg noBrace.2]
  rfl

theorem all_isIdle_of_isAllBlank {blanks : Text} (blank : blanks.all isBlank = true) :
    blanks.isIdle = true := by
  rw [isIdle, List.all_eq_true]
  intro c isMember
  rw [List.all_eq_true.1 blank c isMember, Bool.true_or]

theorem eq_of_read_backslash {c : Char} {rest : Text}
    (lone : (Token.read c rest).token = .char '\\') : c = '\\' ∧ rest = [] := by
  obtain rfl := Token.eq_of_read_char lone
  refine ⟨rfl, Control.read?_eq_none_iff.1 ?_⟩
  cases found : Control.read? rest with
  | none => rfl
  | some control =>
      rw [Token.read_control found] at lone
      cases lone

/-- A backslash that ends a text takes the blank behind it. -/
theorem isSilent_of_backslash {trail : Text} (blank : trail.all isBlank = true) :
    ((lexemes ('\\' :: trail)).map Lexeme.token).all Token.isSilent = true := by
  cases trail with
  | nil => decide +kernel
  | cons d trail =>
      rw [List.all_cons, Bool.and_eq_true] at blank
      have found : Control.read? (d :: trail) = some ⟨[d], trail⟩ := by
        simp [Control.read?, isAlpha_eq_false_of_isBlank blank.1]
      rw [map_token_lexemes_cons, Token.read_control found, List.all_cons,
        isSilent_control blank.1, Bool.true_and]
      exact isSilent_of_isIdle (all_isIdle_lexemesFrom (all_isIdle_of_isAllBlank blank.2) 0)

/-- Blanks behind a text change its tokens at the end only, and these are silent. -/
theorem exists_tokens_append {text trail : Text} (blank : trail.all isBlank = true)
    (visible : text.endsVisibly = true) :
    ∃ common left right : List Token, left.all Token.isSilent = true ∧
      right.all Token.isSilent = true ∧ text.lexemes.map Lexeme.token = common ++ left ∧
        (lexemes (text ++ trail)).map Lexeme.token = common ++ right := by
  have idle := all_isIdle_of_isAllBlank blank
  induction length : text.length using Nat.strongRecOn generalizing text with
  | _ size ih =>
      cases text with
      | nil =>
          refine ⟨[], [], trail.lexemes.map Lexeme.token, rfl, ?_, ?_, rfl⟩
          · exact isSilent_of_isIdle (all_isIdle_lexemesFrom idle 0)
          · rw [lexemes, lexemesFrom]
            rfl
      | cons c rest =>
          by_cases lone : (Token.read c rest).token = .char '\\'
          · obtain ⟨rfl, rfl⟩ := eq_of_read_backslash lone
            refine ⟨[], _, _, ?_, isSilent_of_backslash blank, rfl, rfl⟩
            exact isSilent_of_backslash List.all_nil
          · rw [List.cons_append, map_token_lexemes_cons, map_token_lexemes_cons]
            rcases Token.read_append_idle idle visible lone with same | ⟨whole, longer⟩
            · have ending : (Token.read c rest).rest <:+ c :: rest :=
                ⟨c :: (Token.read c rest).taken, congrArg (c :: ·) (Token.read_append c rest)⟩
              have shorter : (Token.read c rest).rest.length < size := by
                rw [← length, List.length_cons]
                exact Nat.lt_succ_of_le (Token.length_rest_read_le c rest)
              obtain ⟨common, left, right, isLeft, isRight, first, second⟩ :=
                ih _ shorter (endsVisibly_of_suffix visible ending) rfl
              refine ⟨(Token.read c rest).token :: common, left, right, isLeft, isRight, ?_, ?_⟩
              · rw [first, List.cons_append]
              · rw [same, List.cons_append]
                exact congrArg _ second
            · obtain ⟨text, taken, isComment⟩ := whole
              obtain ⟨text', taken', left, isLonger, behindTrail⟩ := longer
              have idleLeft := all_isIdle_lexemesFrom (isIdle_of_suffix idle behindTrail) 0
              rw [isLonger, isComment]
              refine ⟨[], [.comment text], .comment text' :: left.lexemes.map Lexeme.token, rfl, ?_,
                ?_, rfl⟩
              · rw [List.all_cons]
                exact Bool.and_eq_true_iff.2 ⟨rfl, isSilent_of_isIdle idleLeft⟩
              · rw [lexemes, lexemesFrom]
                rfl

/-- The brackets of the normal text are those that the tokens of the untrimmed formula give. -/
theorem filter_isBracket_normal (formula : Text) :
    formula.normal.filter isBracket =
      (ofTokens false (formula.lexemes.map Lexeme.token)).filter isBracket := by
  obtain ⟨trail, blank, whole, ends⟩ := formula.exists_trim_append
  obtain ⟨front, isFront, isRead⟩ := exists_lexemesFrom_blanks List.all_takeWhile ends 0
  obtain ⟨common, left, right, isLeft, isRight, trimmed, untrimmed⟩ :=
    exists_tokens_append blank formula.endsVisibly_trim
  have silentFront : (front.map Lexeme.token).all Token.isSilent = true := by
    rw [List.all_map, List.all_eq_true]
    intro lexeme isMember
    rw [Function.comp_apply, isFront lexeme isMember]
    rfl
  have tokens : formula.lexemes.map Lexeme.token =
      front.map Lexeme.token ++ (common ++ right) := by
    conv => lhs; rw [whole]
    rw [lexemes, isRead, List.map_append, map_token_lexemesFrom, untrimmed]
  rw [normal, trimmed, tokens, ofTokens_inert_append (all_isInert_of_isSilent silentFront),
    ofTokens_append_inert (all_isInert_of_isSilent isLeft),
    ofTokens_append_inert (all_isInert_of_isSilent isRight), List.filter_append, List.filter_append,
    List.filter_append, filter_isBracket_of_isSilent silentFront,
    filter_isBracket_of_isSilent isLeft, filter_isBracket_of_isSilent isRight, List.nil_append]

end Text

end TexCalc
