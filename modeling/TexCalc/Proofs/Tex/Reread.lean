import TexCalc.Proofs.Tex.Lexemes

/-!
# Printed tokens, read again

A formula is printed token by token.  The printed text need not be the formula, since a run of
blanks is printed as one space and a comment without the end of its line, but it is read as the same
tokens: the first character of a printed token ends the token in front of it just as the character
did from which it was read.  Only a comment takes what is printed behind it.
-/

namespace TexCalc

/-- The text that a list of tokens is printed as. -/
def Text.printed (tokens : List Token) : Text :=
  tokens.flatMap Token.print

namespace Token

/-- The first character of the print of a token that was read from the given character on. -/
def initial (c : Char) : Char :=
  if TexCalc.isBlank c then ' ' else c

theorem isAlpha_initial (c : Char) : (initial c).isAlpha = c.isAlpha := by
  unfold initial
  split
  · rename_i blank
    rw [isAlpha_eq_false_of_isBlank blank]
    rfl
  · rfl

theorem isBlank_initial (c : Char) : TexCalc.isBlank (initial c) = TexCalc.isBlank c := by
  unfold initial
  split
  · rename_i blank
    rw [blank]
    rfl
  · rfl

/-- No printed token begins with the end of a line. -/
theorem isLineEnd_initial (c : Char) : isLineEnd (initial c) = false := by
  unfold initial
  split
  · rfl
  · rename_i visible
    cases lineEnd : isLineEnd c with
    | false => rfl
    | true =>
        rw [isLineEnd, Bool.or_eq_true, beq_iff_eq, beq_iff_eq] at lineEnd
        rcases lineEnd with rfl | rfl <;> exact absurd rfl visible

theorem head?_print_read (c : Char) (rest : Text) :
    (read c rest).token.print.head? = some (initial c) := by
  fun_cases read c rest with
  | case10 =>
      rename_i blank
      rw [initial, if_pos blank]
      rfl
  | case11 =>
      rename_i visible
      rw [initial, if_neg visible]
      rfl
  | _ => rfl

end Token

namespace Text

theorem head?_printed (text : Text) :
    (printed (text.lexemes.map Lexeme.token)).head? = text.head?.map Token.initial := by
  cases text with
  | nil =>
      rw [map_token_lexemes_nil]
      rfl
  | cons c rest =>
      rw [map_token_lexemes_cons, printed, List.flatMap_cons, List.head?_append,
        Token.head?_print_read]
      rfl

/-- What begins with a character of the same class ends the same runs. -/
theorem endsRun_of_head? {accept : Char → Bool} {text print : Text}
    (same : ∀ c, accept (Token.initial c) = accept c)
    (begins : print.head? = text.head?.map Token.initial) :
    print.endsRun accept = text.endsRun accept := by
  rw [endsRun, endsRun, begins]
  cases text with
  | nil => rfl
  | cons c text => exact congrArg (!·) (same c)

end Text

/-! ## One token -/

/-- The name of a control sequence is read again in front of what begins like the text behind it. -/
theorem Control.read?_name_append {text print : Text} {control : Control}
    (found : read? text = some control)
    (begins : print.head? = control.rest.head?.map Token.initial) :
    read? (control.name ++ print) = some ⟨control.name, print⟩ := by
  apply read?_of_isName (isName_of_read? found)
  intro letters
  rw [Text.endsRun_of_head? Token.isAlpha_initial begins]
  exact endsRun_of_read? found letters

namespace Token

variable {c : Char} {rest print : Text}

/-- A token is read again from its print, in front of what begins like the text behind it. -/
theorem read_print (noComment : (read c rest).token.isComment = false)
    (begins : print.head? = (read c rest).rest.head?.map initial) :
    ∃ d taken, (read c rest).token.print = d :: taken ∧
      read d (taken ++ print) = ⟨(read c rest).token, taken, print⟩ := by
  have lexed := isLexed_read c rest
  revert noComment begins lexed
  fun_cases read c rest with
  | case1 control found =>
      intro _ begins _
      refine ⟨'\\', control.name, rfl, ?_⟩
      exact read_control (Control.read?_name_append found begins)
  | case2 missing =>
      intro _ begins _
      obtain rfl := Control.read?_eq_none_iff.1 missing
      obtain rfl : print = [] := List.head?_eq_none_iff.1 begins
      exact ⟨'\\', [], rfl, rfl⟩
  | case3 =>
      intro noComment
      cases noComment
  | case10 =>
      intro _ begins _
      refine ⟨' ', [], rfl, ?_⟩
      apply read_blank
      rw [List.nil_append, Text.endsRun_of_head? isBlank_initial begins]
      exact Text.endsRun_dropWhile _ _
  | case11 =>
      rename_i back _ _ _ _ _ _ _ _
      intro _ _ lexed
      have single : isSingle c = true := lexed.resolve_right fun lone => back lone.1
      exact ⟨c, [], rfl, read_of_isSingle single print⟩
  | _ =>
      intro _ _ _
      exact ⟨_, [], rfl, rfl⟩

/-- A comment takes what is printed behind it, up to the end of the line. -/
theorem read_print_comment (isComment : (read c rest).token.isComment = true) (print : Text) :
    ∃ text, (read c rest).token = comment text ∧
      (read '%' (text ++ print)).token = comment (text ++ print.takeWhile (!isLineEnd ·)) ∧
        (read '%' (text ++ print)).rest =
          (Text.splitLineEnd (print.dropWhile (!isLineEnd ·))).2 := by
  revert isComment
  fun_cases read c rest with
  | case3 text =>
      intro _
      have inLine : ∀ c ∈ text, (!isLineEnd c) = true := List.all_eq_true.1 List.all_takeWhile
      refine ⟨text, rfl, ?_, ?_⟩
      · change comment _ = comment _
        rw [List.takeWhile_append_of_pos inLine]
      · change (Text.splitLineEnd _).2 = _
        rw [List.dropWhile_append_of_pos inLine]
  | _ =>
      intro isComment
      cases isComment

end Token

/-! ## All tokens of a formula -/

namespace Text

/-- The tokens of a formula are read again from their print exactly when none of them is a comment
that has a token behind it. -/
theorem map_token_lexemes_printed_iff (text : Text) :
    (printed (text.lexemes.map Lexeme.token)).lexemes.map Lexeme.token =
        text.lexemes.map Lexeme.token ↔
      ∀ token ∈ (text.lexemes.map Lexeme.token).dropLast, token.isComment = false := by
  induction text using token_induction with
  | nil =>
      rw [map_token_lexemes_nil]
      exact ⟨fun _ => List.forall_mem_nil _, fun _ => map_token_lexemes_nil⟩
  | token c rest ih =>
      have begins := head?_printed (Token.read c rest).rest
      rw [map_token_lexemes_cons, printed, List.flatMap_cons, ← printed]
      cases isComment : (Token.read c rest).token.isComment with
      | false =>
          obtain ⟨d, taken, isPrint, isRead⟩ := Token.read_print isComment begins
          rw [isPrint, List.cons_append, map_token_lexemes_cons, isRead, List.cons.injEq,
            and_iff_right rfl, ih]
          cases (Token.read c rest).rest.lexemes.map Lexeme.token with
          | nil => rfl
          | cons next tokens =>
              rw [List.dropLast_cons_cons, List.forall_mem_cons, and_iff_right isComment]
      | true =>
          obtain ⟨line, isLine, token, after⟩ := Token.read_print_comment isComment
            (printed ((Token.read c rest).rest.lexemes.map Lexeme.token))
          rw [isLine, Token.print, List.cons_append, map_token_lexemes_cons, token, after]
          cases isRest : (Token.read c rest).rest with
          | nil =>
              have silent : printed [] = [] := rfl
              rw [map_token_lexemes_nil, silent, List.takeWhile_nil, List.append_nil,
                List.dropWhile_nil]
              exact ⟨fun _ => List.forall_mem_nil _, fun _ => congrArg _ map_token_lexemes_nil⟩
          | cons e later =>
              rw [isRest] at begins
              constructor
              · intro same
                have longer := Token.comment.inj (List.cons.inj same).1
                obtain ⟨print, isPrint⟩ := List.head?_eq_some_iff.1 begins
                rw [List.append_right_eq_self, isPrint, List.takeWhile_cons,
                  Token.isLineEnd_initial] at longer
                cases longer
              · intro none
                rw [map_token_lexemes_cons, List.dropLast_cons_cons, List.forall_mem_cons] at none
                cases none.1

end Text

end TexCalc
