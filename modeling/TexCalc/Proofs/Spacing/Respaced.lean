import Mathlib.Data.List.Forall2
import TexCalc.Check.Focus
import TexCalc.Proofs.Dollars.Idle

/-!
# Blanks in other forms

A blank inside a formula can be written as an unbreakable blank, as a spacing command or as another
run of blanks.  All other lexemes stay what they are: each one ends in front of the new blank as it
has ended in front of the old one.  Only a carriage return that ends a comment would take a line
feed behind it.
-/

namespace TexCalc

/-- What a blank may be replaced by. -/
inductive Spacer where
  | tie
  | command (sign : Char) (isSpacing : sign ∈ [',', ';', ':', '!'])
  | blanks (run : Text) (nonempty : run ≠ []) (isAllBlank : run.isAllBlank = true)
  deriving DecidableEq, Repr

namespace Spacer

def text : Spacer → Text
  | tie => ['~']
  | command sign _ => ['\\', sign]
  | blanks run _ _ => run

def token : Spacer → Token
  | tie => .tie
  | command sign _ => .control [sign]
  | blanks _ _ _ => .blank

end Spacer

/-- The text around the blank in focus, with something else in the place of the blank. -/
def Focus.respaced (focus : Focus) (spacer : Spacer) : Text :=
  Text.ofLexemes focus.before.reverse ++ (spacer.text ++ Text.ofLexemes focus.after)

/-! ## Reading in front of the blank -/

namespace Text

/-- A line end is taken as a whole when no line feed follows a carriage return. -/
theorem splitLineEnd_append_cons {lineEnd : Text} {e : Char}
    (isEnd : lineEnd = ['\r', '\n'] ∨ lineEnd = ['\n'] ∨ lineEnd = ['\r'] ∧ e ≠ '\n')
    (rest : Text) : splitLineEnd (lineEnd ++ e :: rest) = (lineEnd, e :: rest) := by
  rcases isEnd with rfl | rfl | ⟨rfl, other⟩
  · rfl
  · rfl
  · rw [List.singleton_append, splitLineEnd]
    rintro _ same
    exact other (List.cons.inj same).1

/-- The line end that a text begins with. -/
theorem isEnd_of_splitLineEnd {text rest : Text} {d : Char}
    (begins : text.endsRun (!Token.isLineEnd ·) = true) (isRest : text.splitLineEnd.2 = d :: rest) :
    text.splitLineEnd.1 = ['\r', '\n'] ∨ text.splitLineEnd.1 = ['\n'] ∨
      text.splitLineEnd.1 = ['\r'] ∧ d ≠ '\n' := by
  fun_cases splitLineEnd text with
  | case1 rest => exact .inl rfl
  | case2 rest other =>
      refine .inr (.inr ⟨rfl, ?_⟩)
      rintro rfl
      rw [splitLineEnd] at isRest
      · exact other _ isRest
      · exact other
  | case3 rest => exact .inr (.inl rfl)
  | case4 =>
      rename_i noPair noReturn noNewline
      rw [splitLineEnd] at isRest
      · subst isRest
        simp only [endsRun, List.head?_cons, Option.all_some, Bool.not_not, Token.isLineEnd,
          Bool.or_eq_true, beq_iff_eq] at begins
        rcases begins with rfl | rfl
        · exact absurd rfl (noNewline _)
        · exact absurd rfl (noReturn _)
      · exact noPair
      · exact noReturn
      · exact noNewline

end Text

/-- A control sequence ends in front of one character where it has ended in front of another one. -/
theorem Control.read?_replace {name old : Text} {d e : Char}
    (found : read? (name ++ d :: old) = some ⟨name, d :: old⟩)
    (letter : e.isAlpha = true → d.isAlpha = true) (new : Text) :
    read? (name ++ e :: new) = some ⟨name, e :: new⟩ := by
  obtain ⟨c, run, rfl⟩ := List.exists_cons_of_ne_nil (name_ne_nil_of_read? found)
  simp only [List.cons_append, read?] at found ⊢
  split at found
  · rename_i isLetter
    simp only [Option.some.injEq, mk.injEq, List.cons.injEq, true_and] at found
    obtain ⟨isRun, isRest⟩ := found
    have all : run.all Char.isAlpha = true := isRun ▸ List.all_takeWhile
    have stops : Text.endsRun Char.isAlpha (d :: old) = true :=
      isRest ▸ Text.endsRun_dropWhile _ _
    have ends : Text.endsRun Char.isAlpha (e :: new) = true := by
      simp only [Text.endsRun, List.head?_cons, Option.all_some, Bool.not_eq_true'] at stops ⊢
      exact Bool.eq_false_iff.2 fun isLetter => by simp [letter isLetter] at stops
    rw [if_pos isLetter, Text.takeWhile_append_of_endsRun all ends,
      Text.dropWhile_append_of_endsRun all ends]
  · rename_i noLetter
    simp only [Option.some.injEq, mk.injEq, List.cons.injEq, true_and] at found
    obtain ⟨rfl, _⟩ := found
    rw [if_neg noLetter]
    rfl

namespace Token

theorem read_comment (rest : Text) :
    read '%' rest = ⟨.comment (rest.takeWhile (!isLineEnd ·)),
      rest.takeWhile (!isLineEnd ·) ++ (Text.splitLineEnd (rest.dropWhile (!isLineEnd ·))).1,
      (Text.splitLineEnd (rest.dropWhile (!isLineEnd ·))).2⟩ :=
  rfl

/-- A comment that ends with a line end. -/
theorem read_comment_lineEnd {run lineEnd : Text} {e : Char} (all : run.all (!isLineEnd ·) = true)
    (isEnd : lineEnd = ['\r', '\n'] ∨ lineEnd = ['\n'] ∨ lineEnd = ['\r'] ∧ e ≠ '\n')
    (rest : Text) :
    read '%' (run ++ lineEnd ++ e :: rest) = ⟨.comment run, run ++ lineEnd, e :: rest⟩ := by
  have ends : Text.endsRun (!isLineEnd ·) (lineEnd ++ e :: rest) = true := by
    rcases isEnd with rfl | rfl | ⟨rfl, _⟩ <;> rfl
  rw [read_comment, List.append_assoc, Text.takeWhile_append_of_endsRun all ends,
    Text.dropWhile_append_of_endsRun all ends, Text.splitLineEnd_append_cons isEnd]

/-- Every other character is a token by itself. -/
theorem exists_read_eq {c : Char} (noComment : c ≠ '%') (noControl : c ≠ '\\')
    (visible : TexCalc.isBlank c = false) :
    ∃ token : Token, (∀ rest, read c rest = ⟨token, [], rest⟩) ∧ token ≠ .blank := by
  by_cases special : c ∈ ['\x7b', '\x7d', '$', '^', '_', '~']
  · simp only [List.mem_cons, List.not_mem_nil, or_false] at special
    rcases special with rfl | rfl | rfl | rfl | rfl | rfl <;> exact ⟨_, fun _ => rfl, nofun⟩
  · refine ⟨.char c, read_of_isSingle ?_, nofun⟩
    simp only [List.mem_cons, List.not_mem_nil, or_false, not_or] at special
    simp [isSingle, visible, noComment, noControl, special]

/-- A token ends in front of one character where it has ended in front of another one, unless the
new one continues a word, a run of blanks or a line end. -/
theorem read_replace {c d e : Char} {taken old : Text} {token : Token}
    (isRead : read c (taken ++ d :: old) = ⟨token, taken, d :: old⟩)
    (letter : e.isAlpha = true → d.isAlpha = true)
    (blank : TexCalc.isBlank e = true → TexCalc.isBlank d = true)
    (lineEnd : e = '\n' → d = '\n' ∨ taken.getLast? ≠ some '\r') (new : Text) :
    read c (taken ++ e :: new) = ⟨token, taken, e :: new⟩ := by
  by_cases percent : c = '%'
  · subst percent
    have all : (List.takeWhile (!isLineEnd ·) (taken ++ d :: old)).all (!isLineEnd ·) = true :=
      List.all_takeWhile
    have stops := Text.endsRun_dropWhile (!isLineEnd ·) (taken ++ d :: old)
    rw [read_comment, Reading.mk.injEq] at isRead
    obtain ⟨rfl, isTaken, isRest⟩ := isRead
    have isEnd := Text.isEnd_of_splitLineEnd stops isRest
    generalize List.takeWhile (!isLineEnd ·) (taken ++ d :: old) = run at isTaken all ⊢
    generalize (Text.splitLineEnd _).1 = ending at isTaken isEnd
    subst isTaken
    refine read_comment_lineEnd all (isEnd.imp_right (Or.imp_right ?_)) new
    rintro ⟨rfl, other⟩
    refine ⟨rfl, fun newline => ?_⟩
    rcases lineEnd newline with same | noReturn
    · exact other same
    · simp at noReturn
  · by_cases back : c = '\\'
    · subst back
      cases found : Control.read? (taken ++ d :: old) with
      | none =>
          rw [Control.read?_eq_none_iff] at found
          simp at found
      | some control =>
          obtain ⟨name, rest⟩ := control
          rw [read_control found, Reading.mk.injEq] at isRead
          obtain ⟨rfl, rfl, rfl⟩ := isRead
          exact read_control (Control.read?_replace found letter new)
    · cases isBlank : TexCalc.isBlank c with
      | true =>
          rw [read_of_isBlank isBlank, Reading.mk.injEq] at isRead
          obtain ⟨rfl, isTaken, isRest⟩ := isRead
          have all : taken.all TexCalc.isBlank = true := isTaken ▸ List.all_takeWhile
          have stops : Text.endsRun TexCalc.isBlank (d :: old) = true :=
            isRest ▸ Text.endsRun_dropWhile _ _
          have ends : Text.endsRun TexCalc.isBlank (e :: new) = true := by
            simp only [Text.endsRun, List.head?_cons, Option.all_some, Bool.not_eq_true'] at stops ⊢
            exact Bool.eq_false_iff.2 fun isBlank => by simp [blank isBlank] at stops
          rw [read_of_isBlank isBlank, Text.takeWhile_append_of_endsRun all ends,
            Text.dropWhile_append_of_endsRun all ends]
      | false =>
          obtain ⟨single, same, _⟩ := exists_read_eq percent back isBlank
          rw [same, Reading.mk.injEq] at isRead
          obtain ⟨rfl, rfl, _⟩ := isRead
          exact same _

/-- Only blanks begin a run of blanks, which ends in front of something to see. -/
theorem of_token_read_eq_blank {c : Char} {rest : Text} (isToken : (read c rest).token = .blank) :
    TexCalc.isBlank c = true ∧ (read c rest).rest.endsRun TexCalc.isBlank = true := by
  cases blank : TexCalc.isBlank c with
  | true =>
      rw [read_of_isBlank blank]
      exact ⟨rfl, Text.endsRun_dropWhile _ _⟩
  | false =>
      by_cases percent : c = '%'
      · subst percent
        cases isToken
      · by_cases back : c = '\\'
        · subst back
          unfold read at isToken
          split at isToken
          · split at isToken <;> cases isToken
          all_goals contradiction
        · obtain ⟨token, same, noBlank⟩ := exists_read_eq percent back blank
          rw [same] at isToken
          exact absurd isToken noBlank

end Token

namespace Text

/-- The first lexeme of a text, and the lexemes behind it. -/
theorem exists_of_lexemesFrom {text : Text} {offset : Nat} {here : Lexeme} {after : List Lexeme}
    (isLexed : text.lexemesFrom offset = here :: after) :
    ∃ c rest, text = c :: rest ∧ here = ⟨offset, (Token.read c rest).token,
      c :: (Token.read c rest).taken⟩ ∧
        (Token.read c rest).rest.lexemesFrom (offset + here.source.byteLength) = after := by
  cases text with
  | nil =>
      rw [lexemesFrom] at isLexed
      cases isLexed
  | cons c rest =>
      rw [lexemesFrom] at isLexed
      obtain ⟨rfl, rfl⟩ := List.cons.inj isLexed
      exact ⟨c, rest, rfl, rfl, rfl⟩

/-- In front of a blank the lexemes stay the same when something else is put in its place. -/
theorem lexemesFrom_replace {text : Text} {offset : Nat} {front after : List Lexeme} {here : Lexeme}
    (isLexed : text.lexemesFrom offset = front ++ here :: after) (blank : here.token = .blank)
    {e : Char} (noLetter : e.isAlpha = false)
    (lineEnd : e = '\n' → (ofLexemes front).getLast? ≠ some '\r') (new : Text) :
    (ofLexemes front ++ e :: new).lexemesFrom offset =
      front ++ lexemesFrom here.offset (e :: new) := by
  induction front generalizing text offset with
  | nil =>
      obtain ⟨c, rest, rfl, same, _⟩ := exists_of_lexemesFrom isLexed
      rw [same]
      rfl
  | cons first front ih =>
      obtain ⟨c, rest, rfl, rfl, later⟩ := exists_of_lexemesFrom isLexed
      change lexemesFrom _ (Token.read c rest).rest = front ++ here :: after at later
      have lineEndLater : e = '\n' → (ofLexemes front).getLast? ≠ some '\r' := by
        intro newline isReturn
        refine lineEnd newline ?_
        rw [ofLexemes, List.flatMap_cons, ← ofLexemes, List.getLast?_append, isReturn, Option.some_or]
      have behind := ih later lineEndLater
      have isRead : Token.read c ((Token.read c rest).taken ++ (ofLexemes front ++ e :: new)) =
          ⟨(Token.read c rest).token, (Token.read c rest).taken, ofLexemes front ++ e :: new⟩ := by
        have before := Token.read_append c rest
        cases front with
        | nil =>
            -- The token ends in front of the blank itself.
            obtain ⟨d, more, isRest, same, _⟩ := exists_of_lexemesFrom later
            rw [same] at blank
            have isBlank := (Token.of_token_read_eq_blank blank).1
            rw [isRest] at before
            have wasRead : Token.read c ((Token.read c rest).taken ++ d :: more) =
                ⟨(Token.read c rest).token, (Token.read c rest).taken, d :: more⟩ := by
              rw [before, ← isRest]
            refine Token.read_replace wasRead (by simp [noLetter]) (fun _ => isBlank)
              (fun newline => .inr fun isReturn => lineEnd newline ?_) new
            simp [ofLexemes, List.getLast?_cons, isReturn]
        | cons next front =>
            obtain ⟨d, more, isRest, same, _⟩ := exists_of_lexemesFrom later
            rw [isRest] at before
            have begins : ofLexemes (next :: front) ++ e :: new =
                d :: ((Token.read d more).taken ++ (ofLexemes front ++ e :: new)) := by
              rw [same]
              simp [ofLexemes]
            rw [begins]
            have wasRead : Token.read c ((Token.read c rest).taken ++ d :: more) =
                ⟨(Token.read c rest).token, (Token.read c rest).taken, d :: more⟩ := by
              rw [before, ← isRest]
            exact Token.read_replace wasRead id id (fun newline => .inl newline) _
      have source : ofLexemes (⟨offset, (Token.read c rest).token, c :: (Token.read c rest).taken⟩ ::
          front) ++ e :: new = c :: ((Token.read c rest).taken ++ (ofLexemes front ++ e :: new)) := by
        simp [ofLexemes]
      rw [source, lexemesFrom, isRead, List.cons_append]
      exact congrArg _ behind

/-! ## Reading behind the blank -/

/-- The lexemes behind a lexeme are those of the text behind it. -/
theorem exists_lexemesFrom_of_append {text : Text} {offset : Nat} {front after : List Lexeme}
    (isLexed : text.lexemesFrom offset = front ++ after) :
    ∃ later, (ofLexemes after).lexemesFrom later = after := by
  induction front generalizing text offset with
  | nil =>
      obtain rfl : text.lexemesFrom offset = after := isLexed
      exact ⟨offset, by rw [ofLexemes_lexemesFrom]⟩
  | cons first front ih =>
      obtain ⟨c, rest, _, _, later⟩ := exists_of_lexemesFrom isLexed
      exact ih later

/-- A text behind the last character of a blank does not go on with blanks. -/
theorem endsRun_ofLexemes {text : Text} {offset : Nat} {front after : List Lexeme} {here : Lexeme}
    (isLexed : text.lexemesFrom offset = front ++ here :: after) (blank : here.token = .blank) :
    (ofLexemes after).endsRun isBlank = true := by
  obtain ⟨place, lexed⟩ := exists_lexemesFrom_of_append isLexed
  obtain ⟨c, rest, _, same, later⟩ := exists_of_lexemesFrom lexed
  rw [same] at blank
  rw [← later, ofLexemes_lexemesFrom]
  exact (Token.of_token_read_eq_blank blank).2

/-- A blank is read from a run of blanks. -/
theorem source_of_isBlank {text : Text} {offset : Nat} {front after : List Lexeme} {here : Lexeme}
    (isLexed : text.lexemesFrom offset = front ++ here :: after) (blank : here.token = .blank) :
    here.source ≠ [] ∧ here.source.isAllBlank = true := by
  obtain ⟨place, lexed⟩ := exists_lexemesFrom_of_append isLexed
  obtain ⟨c, rest, _, same, _⟩ := exists_of_lexemesFrom lexed
  rw [same] at blank
  have isBlank := (Token.of_token_read_eq_blank blank).1
  rw [same, Token.read_of_isBlank isBlank]
  refine ⟨List.cons_ne_nil _ _, ?_⟩
  rw [isAllBlank, List.all_cons, isBlank, List.all_takeWhile]
  rfl

end Text

namespace Lexeme

/-- The same lexeme, be it at another place. -/
def IsCopy (first second : Lexeme) : Prop :=
  second.token = first.token ∧ second.source = first.source

end Lexeme

/-- The lexemes of a text are the same wherever it stands. -/
theorem Text.forall₂_isCopy (text : Text) (offset other : Nat) :
    List.Forall₂ Lexeme.IsCopy (text.lexemesFrom offset) (text.lexemesFrom other) := by
  fun_induction lexemesFrom offset text generalizing other with
  | case1 =>
      rw [lexemesFrom]
      exact .nil
  | case2 offset c rest reading source ih =>
      rw [lexemesFrom]
      exact .cons ⟨rfl, rfl⟩ (ih _)

namespace Spacer

variable (spacer : Spacer)

/-- A spacer is one lexeme in front of something to see. -/
theorem lexemesFrom_append {text : Text} (ends : text.endsRun isBlank = true) (offset : Nat) :
    (spacer.text ++ text).lexemesFrom offset = ⟨offset, spacer.token, spacer.text⟩ ::
      text.lexemesFrom (offset + spacer.text.byteLength) := by
  cases spacer with
  | tie => exact Text.lexemesFrom.eq_2 offset '~' text
  | command sign isSpacing =>
      have isControl : Control.read? (sign :: text) = some ⟨[sign], text⟩ := by
        simp only [List.mem_cons, List.not_mem_nil, or_false] at isSpacing
        rcases isSpacing with rfl | rfl | rfl | rfl <;> rfl
      have isRead := Token.read_control isControl
      change Text.lexemesFrom offset ('\\' :: sign :: text) = _
      rw [Text.lexemesFrom, isRead]
      rfl
  | blanks run nonempty isAllBlank =>
      obtain ⟨c, run, rfl⟩ := List.exists_cons_of_ne_nil nonempty
      rw [Text.isAllBlank, List.all_cons, Bool.and_eq_true] at isAllBlank
      have isRead : Token.read c (run ++ text) = ⟨.blank, run, text⟩ := by
        rw [Token.read_of_isBlank isAllBlank.1,
          Text.takeWhile_append_of_endsRun isAllBlank.2 ends,
          Text.dropWhile_append_of_endsRun isAllBlank.2 ends]
      change Text.lexemesFrom offset (c :: (run ++ text)) = _
      rw [Text.lexemesFrom, isRead]
      rfl

/-- A spacer is not empty and continues no control word. -/
theorem exists_text_eq_cons : ∃ c rest, spacer.text = c :: rest ∧ c.isAlpha = false := by
  cases spacer with
  | tie => exact ⟨_, _, rfl, rfl⟩
  | command sign _ => exact ⟨_, _, rfl, rfl⟩
  | blanks run nonempty isAllBlank =>
      obtain ⟨c, run, rfl⟩ := List.exists_cons_of_ne_nil nonempty
      rw [Text.isAllBlank, List.all_cons, Bool.and_eq_true] at isAllBlank
      refine ⟨c, run, rfl, Bool.eq_false_iff.2 fun letter => ?_⟩
      have word : c.isAlphanum = true := by simp [Char.isAlphanum, letter]
      rw [isBlank_eq_false_of_isAlphanum word] at isAllBlank
      cases isAllBlank.1

end Spacer

/-! ## Reading the whole text -/

namespace Focus

variable {focus : Focus}

theorem eq_of_mem_allFrom {before lexemes : List Lexeme} (isFocus : focus ∈ allFrom before lexemes) :
    ∃ front, lexemes = front ++ focus.here :: focus.after ∧
      focus.before = front.reverse ++ before := by
  induction lexemes generalizing before with
  | nil => cases isFocus
  | cons here after ih =>
      rcases List.mem_cons.1 isFocus with rfl | later
      · exact ⟨[], rfl, rfl⟩
      · obtain ⟨front, rfl, isBefore⟩ := ih later
        refine ⟨here :: front, rfl, ?_⟩
        rw [isBefore, List.reverse_cons, List.append_assoc, List.singleton_append]

/-- The lexemes of a list with one of them in focus. -/
theorem eq_of_mem_all {lexemes : List Lexeme} (isFocus : focus ∈ all lexemes) :
    lexemes = focus.before.reverse ++ focus.here :: focus.after := by
  obtain ⟨front, rfl, isBefore⟩ := eq_of_mem_allFrom isFocus
  rw [isBefore, List.append_nil, List.reverse_reverse]

/-- The carriage return that ends the comment in front takes a line feed that begins the spacer. -/
def isTornBy (focus : Focus) (spacer : Spacer) : Bool :=
  (Text.ofLexemes focus.before.reverse).getLast? == some '\r' && spacer.text.head? == some '\n'

/-- The spacer is read as one lexeme, and all other lexemes are read as before. -/
theorem exists_lexemes_respaced {text : Text} (isFocus : focus ∈ all text.lexemes)
    (blank : focus.here.token = .blank) {spacer : Spacer} (untorn : focus.isTornBy spacer = false) :
    ∃ later, List.Forall₂ Lexeme.IsCopy focus.after later ∧
      (focus.respaced spacer).lexemes = focus.before.reverse ++
        ⟨focus.here.offset, spacer.token, spacer.text⟩ :: later := by
  have isLexed := eq_of_mem_all isFocus
  have ends := Text.endsRun_ofLexemes isLexed blank
  obtain ⟨c, rest, begins, noLetter⟩ := spacer.exists_text_eq_cons
  have lineEnd : c = '\n' → (Text.ofLexemes focus.before.reverse).getLast? ≠ some '\r' := by
    rintro rfl isReturn
    rw [isTornBy, isReturn, begins] at untorn
    cases untorn
  have replaced := Text.lexemesFrom_replace isLexed blank noLetter lineEnd
    (rest ++ Text.ofLexemes focus.after)
  rw [← List.cons_append, ← begins, spacer.lexemesFrom_append ends] at replaced
  refine ⟨_, ?_, replaced⟩
  rw [← List.singleton_append, ← List.append_assoc] at isLexed
  obtain ⟨offset, same⟩ := Text.exists_lexemesFrom_of_append isLexed
  have copies := (Text.ofLexemes focus.after).forall₂_isCopy offset
  rw [same] at copies
  exact copies _

end Focus

end TexCalc
