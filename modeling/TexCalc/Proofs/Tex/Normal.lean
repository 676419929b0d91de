import TexCalc.Proofs.Tex.Lexemes
import TexCalc.Proofs.Text.Trimming
import TexCalc.Tex.Normal

/-!
# Normal text piece by piece

A token is inert when it is no `\left` or `\right` and could not be the delimiter of one.  Inert
tokens are no bars.  In front of other tokens, and behind them, they are brought into normal text
one by one.  Where no bare bar is open, the normal text of a formula is that of its first token
followed by that of the text after it.
-/

namespace TexCalc

/-! ## Inert tokens -/

/-- Tokens that take no delimiter and can be taken by nothing. -/
def Token.isInert (token : Token) : Bool :=
  token.side?.isNone && token.sizedDelimiter?.isNone

theorem Token.facts_of_isInert {token : Token} (inert : token.isInert = true) :
    token.side? = none ∧ token.sizedDelimiter? = none ∧ token ≠ .char '|' := by
  rw [isInert, Bool.and_eq_true, Option.isNone_iff_eq_none, Option.isNone_iff_eq_none] at inert
  obtain ⟨noSide, noDelimiter⟩ := inert
  refine ⟨noSide, noDelimiter, ?_⟩
  rintro rfl
  cases noDelimiter

namespace Text

variable {token : Token} {front trail : List Token}

theorem ofTokens_cons_inert (inert : token.isInert = true) (isOpen : Bool) (tokens : List Token) :
    ofTokens isOpen (token :: tokens) = token.normal ++ ofTokens isOpen tokens := by
  obtain ⟨noSide, -, noBar⟩ := Token.facts_of_isInert inert
  rw [ofTokens, noSide]
  exact if_neg noBar

theorem ofTokens_inert_append (inert : front.all Token.isInert = true) (isOpen : Bool)
    (tokens : List Token) :
    ofTokens isOpen (front ++ tokens) = front.flatMap Token.normal ++ ofTokens isOpen tokens := by
  induction front with
  | nil => rfl
  | cons token front ih =>
      rw [List.all_cons, Bool.and_eq_true] at inert
      rw [List.cons_append, ofTokens_cons_inert inert.1, ih inert.2, List.flatMap_cons,
        List.append_assoc]

/-- A `\left` or `\right` takes the delimiter behind it, if there is one. -/
theorem ofTokens_side {token : Token} {side : Side} (isSide : token.side? = some side)
    (isOpen : Bool) (rest : List Token) :
    ofTokens isOpen (token :: rest) =
      match rest.dropWhile Token.isBlank with
      | next :: later =>
          match next.sizedDelimiter? with
          | some delimiter => side.normal delimiter ++ ofTokens isOpen later
          | none => ofTokens isOpen rest
      | [] => ofTokens isOpen rest := by
  rw [ofTokens, isSide]
  simp only
  cases rest.dropWhile Token.isBlank <;> rfl

/-- Inert tokens at the end are no delimiters, and are brought into normal text by themselves. -/
theorem ofTokens_append_inert (inert : trail.all Token.isInert = true) (isOpen : Bool)
    (tokens : List Token) :
    ofTokens isOpen (tokens ++ trail) = ofTokens isOpen tokens ++ trail.flatMap Token.normal := by
  fun_induction ofTokens isOpen tokens with
  | case1 isOpen =>
      have alone := ofTokens_inert_append inert isOpen []
      rwa [List.append_nil, ofTokens, List.append_nil] at alone
  | case2 isOpen token rest side isSide next later after delimiter isDelimiter ih =>
      have longer : (rest ++ trail).dropWhile Token.isBlank = next :: (later ++ trail) := by
        rw [List.dropWhile_append, after, if_neg (by simp), List.cons_append]
      rw [List.cons_append, ofTokens_side isSide, longer]
      simp only [isDelimiter]
      rw [ih, List.append_assoc]
  | case3 isOpen token rest side isSide next later after noDelimiter ih =>
      have longer : (rest ++ trail).dropWhile Token.isBlank = next :: (later ++ trail) := by
        rw [List.dropWhile_append, after, if_neg (by simp), List.cons_append]
      rw [List.cons_append, ofTokens_side isSide, longer]
      simp only [noDelimiter]
      exact ih
  | case4 isOpen token rest side isSide nothing ih =>
      rw [List.cons_append, ofTokens_side isSide, List.dropWhile_append, nothing,
        if_pos List.isEmpty_nil]
      cases found : trail.dropWhile Token.isBlank with
      | nil => exact ih
      | cons next later =>
          have isMember : next ∈ trail :=
            (List.dropWhile_suffix _).subset (found ▸ List.mem_cons_self)
          obtain ⟨-, noDelimiter, -⟩ := Token.facts_of_isInert (List.all_eq_true.1 inert next isMember)
          simp only [noDelimiter]
          exact ih
  | case5 isOpen rest isSide ih =>
      rw [List.cons_append, ofTokens, isSide]
      simp only [if_true]
      rw [ih, List.append_assoc]
  | case6 isOpen token rest isSide noBar ih =>
      rw [List.cons_append, ofTokens, isSide]
      simp only [if_neg noBar]
      rw [ih, List.append_assoc]

end Text

/-! ## The first token -/

namespace Text

/-- The normal text of a text whose ends are not trimmed and in front of which no bar is open. -/
def normalized (text : Text) : Text :=
  ofTokens false (text.lexemes.map Lexeme.token)

theorem normal_eq_normalized {text : Text} (trimmed : text.trim = text) :
    text.normal = text.normalized := by
  rw [normal, trimmed, normalized]

theorem normalized_nil : normalized [] = [] := by
  rw [normalized, lexemes, lexemesFrom, List.map_nil, ofTokens]

theorem map_token_lexemes {c : Char} {rest taken after : Text} {token : Token}
    (isRead : Token.read c rest = ⟨token, taken, after⟩) :
    (lexemes (c :: rest)).map Lexeme.token = token :: after.lexemes.map Lexeme.token := by
  rw [map_token_lexemes_cons, isRead]

/-- A token that is neither a bar nor a `\left` or `\right`. -/
theorem normalized_of_read {c : Char} {rest taken after : Text} {token : Token}
    (isRead : Token.read c rest = ⟨token, taken, after⟩) (noSide : token.side? = none)
    (noBar : token ≠ .char '|') :
    normalized (c :: rest) = token.normal ++ after.normalized := by
  rw [normalized, map_token_lexemes isRead, ofTokens]
  simp only [noSide, if_neg noBar]
  rfl

theorem normalized_cons {c : Char} (single : Token.isSingle c = true) (noBar : c ≠ '|')
    (noMark : c ≠ Parked.mark) (rest : Text) : normalized (c :: rest) = c :: rest.normalized := by
  have isChar := normalized_of_read (Token.read_of_isSingle single rest) rfl (by simpa using noBar)
  rwa [Token.normal, if_neg noMark] at isChar

/-- A control word that is no blank and sizes no delimiter stays as it is. -/
theorem normalized_word {name rest : Text} (letters : name.all Char.isAlpha = true)
    (nonempty : name ≠ []) (ends : rest.endsRun Char.isAlpha = true)
    (noSide : (Token.control name).side? = none)
    (visible : Command.named? name ≠ some .spacing) :
    normalized ('\\' :: (name ++ rest)) = '\\' :: (name ++ rest.normalized) := by
  have isWord := normalized_of_read (Token.read_word letters nonempty ends) noSide (by simp)
  have noBrace {c : Char} (noLetter : c.isAlpha = false) : name ≠ [c] := by
    rintro rfl
    simp [noLetter] at letters
  have shape : (Token.control name).normal = '\\' :: name := by
    rw [Token.normal_control, if_neg (noBrace rfl), if_neg (noBrace rfl), if_neg visible]
  rw [isWord, shape]
  rfl

/-- A sized delimiter that is a single character. -/
theorem normalized_side (side : Side) {c : Char} (sized : c ∈ ['(', ')', '[', ']', '|', '.'])
    (rest : Text) :
    normalized ('\\' :: (side.word ++ c :: rest)) = side.normal c ++ rest.normalized := by
  obtain ⟨single, noLetter⟩ : Token.isSingle c = true ∧ c.isAlpha = false := by
    simp only [List.mem_cons, List.not_mem_nil, or_false] at sized
    rcases sized with rfl | rfl | rfl | rfl | rfl | rfl <;> decide
  have ends : endsRun Char.isAlpha (c :: rest) = true := by simp [endsRun, noLetter]
  have named : (Token.control side.word).side? = some side := by cases side <;> rfl
  have delimiter : (Token.char c).sizedDelimiter? = some c := if_pos sized
  rw [normalized, map_token_lexemes (Token.read_side side ends),
    map_token_lexemes (Token.read_of_isSingle single rest), ofTokens]
  simp only [named]
  split
  · rename_i next later dropped
    rw [List.dropWhile_cons_of_neg Bool.false_ne_true] at dropped
    cases dropped
    rw [delimiter]
    rfl
  · rename_i dropped
    rw [List.dropWhile_cons_of_neg Bool.false_ne_true] at dropped
    cases dropped

end Text

end TexCalc
