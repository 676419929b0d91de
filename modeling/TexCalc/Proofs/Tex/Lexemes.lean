import TexCalc.Proofs.Text.Characters
import TexCalc.Proofs.Text.Runs
import TexCalc.Tex.Delimiter

/-!
# Reading one lexeme

Where the first token of a text is known, so is its first lexeme, and the other lexemes are
those of the text after it.

Not every list of tokens is that of a text: the name of a control sequence is a word or a single
other character, and a character that begins a token of its own is never a plain one, but for a
backslash that ends the text.
-/

namespace TexCalc

namespace Control

/-- The name of a control sequence is a word, or a single other character. -/
def IsName (name : Text) : Prop :=
  name ≠ [] ∧ name.all Char.isAlpha = true ∨ ∃ c : Char, name = [c] ∧ c.isAlpha = false

theorem isName_of_read? {text : Text} {control : Control} (found : read? text = some control) :
    IsName control.name := by
  cases text with
  | nil => cases found
  | cons c rest =>
      rw [read?] at found
      split at found
      · rename_i letter
        cases found
        left
        refine ⟨List.cons_ne_nil c _, ?_⟩
        rw [List.all_cons, letter, List.all_takeWhile]
        rfl
      · rename_i noLetter
        cases found
        exact .inr ⟨c, rfl, by simpa using noLetter⟩

end Control

/-- A control word, when the text after its name ends it. -/
theorem Control.read?_word {name rest : Text} (letters : name.all Char.isAlpha = true)
    (nonempty : name ≠ []) (ends : rest.endsRun Char.isAlpha = true) :
    read? (name ++ rest) = some ⟨name, rest⟩ := by
  obtain ⟨c, run, rfl⟩ := List.exists_cons_of_ne_nil nonempty
  rw [List.all_cons, Bool.and_eq_true] at letters
  rw [List.cons_append, read?, if_pos letters.1, Text.takeWhile_append_of_endsRun letters.2 ends,
    Text.dropWhile_append_of_endsRun letters.2 ends]

/-- A control sequence is read again in front of a text that does not go on with its name. -/
theorem Control.read?_of_isName {name rest : Text} (isName : IsName name)
    (ends : name.all Char.isAlpha = true → rest.endsRun Char.isAlpha = true) :
    read? (name ++ rest) = some ⟨name, rest⟩ := by
  rcases isName with ⟨nonempty, letters⟩ | ⟨c, rfl, noLetter⟩
  · exact read?_word letters nonempty (ends letters)
  · simp [read?, noLetter]

/-- Behind a word nothing stands that goes on with it. -/
theorem Control.endsRun_of_read? {text : Text} {control : Control}
    (found : read? text = some control) (letters : control.name.all Char.isAlpha = true) :
    control.rest.endsRun Char.isAlpha = true := by
  cases text with
  | nil => cases found
  | cons c rest =>
      rw [read?] at found
      split at found <;> cases found
      · exact Text.endsRun_dropWhile _ rest
      · rename_i noLetter
        rw [List.all_cons, Bool.and_eq_true] at letters
        exact absurd letters.1 noLetter

/-- A control sequence is read as before when a text that continues no word is put behind it. -/
theorem Control.read?_append_rest {text rest : Text} (nonempty : text ≠ [])
    (ends : rest.endsRun Char.isAlpha = true) :
    read? (text ++ rest) =
      (read? text).map fun control => { control with rest := control.rest ++ rest } := by
  obtain ⟨c, text, rfl⟩ := List.exists_cons_of_ne_nil nonempty
  simp only [List.cons_append, read?, Text.takeWhile_append_rest text ends,
    Text.dropWhile_append_rest text ends]
  split <;> rfl

namespace Token

/-- Characters that begin no other token than themselves. -/
def isSingle (c : Char) : Bool :=
  !TexCalc.isBlank c && c ∉ ['\\', '%', '\x7b', '\x7d', '$', '^', '_', '~']

theorem read_of_isSingle {c : Char} (single : isSingle c = true) (rest : Text) :
    read c rest = ⟨.char c, [], rest⟩ := by
  rw [isSingle, Bool.and_eq_true, Bool.not_eq_true', decide_eq_true_eq] at single
  obtain ⟨visible, special⟩ := single
  simp only [List.mem_cons, not_or] at special
  obtain ⟨back, percent, opener, closer, dollar, caret, line, tie, _⟩ := special
  unfold read
  split
  · exact absurd rfl back
  · exact absurd rfl percent
  · exact absurd rfl opener
  · exact absurd rfl closer
  · exact absurd rfl dollar
  · exact absurd rfl caret
  · exact absurd rfl line
  · exact absurd rfl tie
  · rw [visible]
    rfl

theorem read_blank {rest : Text} (ends : rest.endsRun TexCalc.isBlank = true) :
    read ' ' rest = ⟨.blank, [], rest⟩ := by
  rw [show read ' ' rest =
    ⟨.blank, rest.takeWhile TexCalc.isBlank, rest.dropWhile TexCalc.isBlank⟩ from rfl,
    Text.takeWhile_eq_nil_of_endsRun ends, Text.dropWhile_eq_self_of_endsRun ends]

theorem read_control {text : Text} {control : TexCalc.Control}
    (found : Control.read? text = some control) :
    read '\\' text = ⟨.control control.name, control.name, control.rest⟩ := by
  unfold read
  rw [found]
  rfl

theorem read_word {name rest : Text} (letters : name.all Char.isAlpha = true)
    (nonempty : name ≠ []) (ends : rest.endsRun Char.isAlpha = true) :
    read '\\' (name ++ rest) = ⟨.control name, name, rest⟩ :=
  read_control (Control.read?_word letters nonempty ends)

theorem read_side (side : Side) {rest : Text} (ends : rest.endsRun Char.isAlpha = true) :
    read '\\' (side.word ++ rest) = ⟨.control side.word, side.word, rest⟩ := by
  cases side <;> exact read_word (by decide) (by decide) ends

theorem isSingle_of_isAlphanum {c : Char} (word : c.isAlphanum = true) : isSingle c = true := by
  rw [isSingle, isBlank_eq_false_of_isAlphanum word, Bool.not_false, Bool.true_and,
    decide_eq_true_eq]
  intro isMember
  simp only [List.mem_cons, List.not_mem_nil, or_false] at isMember
  rcases isMember with rfl | rfl | rfl | rfl | rfl | rfl | rfl | rfl <;> cases word

/-- Only blanks and percent signs begin something without meaning, and only the brace begins the
token of the brace. -/
theorem isSignificant_read {c : Char} (visible : TexCalc.isBlank c = false) (noComment : c ≠ '%')
    (noBrace : c ≠ '\x7d') (rest : Text) :
    (read c rest).token.isSignificant = true ∧ (read c rest).token ≠ .closeBrace := by
  unfold read
  split
  · split <;> exact ⟨rfl, by simp⟩
  · exact absurd rfl noComment
  · exact ⟨rfl, by simp⟩
  · exact absurd rfl noBrace
  · exact ⟨rfl, by simp⟩
  · exact ⟨rfl, by simp⟩
  · exact ⟨rfl, by simp⟩
  · exact ⟨rfl, by simp⟩
  · rw [visible]
    exact ⟨rfl, by simp⟩

end Token

namespace Text

/-- The lexemes of a text whose first token is known. -/
theorem exists_lexemesFrom_eq {c : Char} {rest taken after : Text} {token : Token}
    (isRead : Token.read c rest = ⟨token, taken, after⟩) (offset : Nat) :
    ∃ later, lexemesFrom offset (c :: rest) =
      ⟨offset, token, c :: taken⟩ :: lexemesFrom later after := by
  rw [lexemesFrom, isRead]
  exact ⟨_, rfl⟩

/-- The tokens of a text do not depend on where the text starts. -/
theorem map_token_lexemesFrom (offset : Nat) (text : Text) :
    (text.lexemesFrom offset).map Lexeme.token = text.lexemes.map Lexeme.token := by
  suffices same : ∀ offset other : Nat, (text.lexemesFrom offset).map Lexeme.token =
      (text.lexemesFrom other).map Lexeme.token from same offset 0
  intro offset other
  fun_induction lexemesFrom offset text generalizing other with
  | case1 => rw [lexemesFrom]
  | case2 offset c rest reading source ih =>
      rw [lexemesFrom, List.map_cons, List.map_cons]
      exact congrArg _ (ih _)

theorem map_token_lexemes_nil : (lexemes []).map Lexeme.token = [] := by
  rw [lexemes, lexemesFrom]
  rfl

theorem map_token_lexemes_cons (c : Char) (rest : Text) :
    (lexemes (c :: rest)).map Lexeme.token =
      (Token.read c rest).token :: (Token.read c rest).rest.lexemes.map Lexeme.token := by
  rw [lexemes, lexemesFrom, List.map_cons, map_token_lexemesFrom]

/-- Every text can be taken apart from token to token. -/
theorem token_induction {motive : Text → Prop} (nil : motive [])
    (token : ∀ c rest, motive (Token.read c rest).rest → motive (c :: rest)) (text : Text) :
    motive text := by
  fun_induction lexemesFrom 0 text with
  | case1 => exact nil
  | case2 _ c rest _ _ ih => exact token c rest ih

end Text

/-! ## The tokens of a text -/

namespace Token

/-- What a token can be that is read in front of the given ones. -/
def IsLexed (later : List Token) : Token → Prop
  | control name => Control.IsName name
  | char c => isSingle c = true ∨ c = '\\' ∧ later = []
  | _ => True

theorem isLexed_read (c : Char) (rest : Text) :
    IsLexed ((read c rest).rest.lexemes.map Lexeme.token) (read c rest).token := by
  fun_cases read c rest with
  | case1 found isFound => exact Control.isName_of_read? isFound
  | case2 isNone =>
      refine .inr ⟨rfl, ?_⟩
      rw [Control.read?_eq_none_iff.1 isNone, Text.lexemes, Text.lexemesFrom, List.map_nil]
  | case11 =>
      rename_i back percent opener closer dollar caret line tie visible
      left
      simp only [isSingle, Bool.and_eq_true, decide_eq_true_eq, List.mem_cons, List.not_mem_nil,
        or_false, not_or]
      exact ⟨by simpa using visible, back, percent, opener, closer, dollar, caret, line, tie⟩
  | _ => trivial

end Token

namespace Text

/-- What holds of every token that is read, and of the tokens behind it, holds all along the tokens
of a text. -/
theorem forall_suffix_lexemesFrom {motive : Token → List Token → Prop}
    (ofRead : ∀ c rest, motive (Token.read c rest).token
      ((Token.read c rest).rest.lexemes.map Lexeme.token)) (offset : Nat) (text : Text)
    {token : Token} {later : List Token}
    (ending : token :: later <:+ (text.lexemesFrom offset).map Lexeme.token) :
    motive token later := by
  fun_induction lexemesFrom offset text with
  | case1 => exact absurd (List.eq_nil_of_suffix_nil ending) (List.cons_ne_nil token later)
  | case2 offset c rest reading source ih =>
      rw [List.map_cons] at ending
      rcases List.suffix_cons_iff.1 ending with here | behind
      · rw [map_token_lexemesFrom] at here
        cases here
        exact ofRead c rest
      · exact ih behind

/-- Every token of the list is as it is read in front of those behind it. -/
def AreLexed (tokens : List Token) : Prop :=
  ∀ ⦃token later⦄, token :: later <:+ tokens → Token.IsLexed later token

namespace AreLexed

variable {token : Token} {tokens later : List Token}

theorem of_suffix (lexed : AreLexed tokens) (ending : later <:+ tokens) : AreLexed later :=
  fun _ _ isEnding => lexed (isEnding.trans ending)

theorem head (lexed : AreLexed (token :: tokens)) : Token.IsLexed tokens token :=
  lexed (List.suffix_refl _)

theorem tail (lexed : AreLexed (token :: tokens)) : AreLexed tokens :=
  lexed.of_suffix (List.suffix_cons token tokens)

end AreLexed

theorem areLexed_lexemes (text : Text) : AreLexed (text.lexemes.map Lexeme.token) :=
  fun _ _ ending => forall_suffix_lexemesFrom
    (motive := fun token later => Token.IsLexed later token) Token.isLexed_read 0 text ending

end Text

end TexCalc
