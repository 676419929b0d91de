import TexCalc.Proofs.Check.Accounts
import TexCalc.Proofs.Spacing.Respaced
import TexCalc.Tex.Extent

/-!
# The spans of tokens

The tokens of a formula share out its bytes: the span of a token goes from its offset to that of the
next token, or to the end of the formula.  A token is printed as its span, but for a run of blanks,
which is printed as one space, and for a comment, which is printed without the end of its line.
-/

namespace TexCalc

/-- What can end the line of a comment.  The end of the formula ends it as well. -/
def lineEnds : List Text :=
  [[], ['\n'], ['\r'], ['\r', '\n']]

/-- Whether a span is that of a token, `rest` being the text behind the span. -/
def Token.IsSpan (span rest : Text) : Token → Prop
  | blank => span ≠ [] ∧ span.isAllBlank = true ∧ rest.endsRun TexCalc.isBlank = true
  | comment text =>
      text.all (!isLineEnd ·) = true ∧
        ∃ lineEnd ∈ lineEnds, span = '%' :: (text ++ lineEnd) ∧ (lineEnd = [] → rest = [])
  | token => span = token.print

/-- Where the span of a lexeme ends that has the given lexemes behind it. -/
def Text.spanEnd (text : Text) (after : List Lexeme) : Nat :=
  (after.head?.map Lexeme.offset).getD text.byteLength

/-- A comment stops in front of the end of its line, which is empty at the end of the text only. -/
theorem Text.splitLineEnd_mem_lineEnds {text : Text}
    (begins : text.endsRun (!Token.isLineEnd ·) = true) :
    text.splitLineEnd.1 ∈ lineEnds ∧ (text.splitLineEnd.1 = [] → text.splitLineEnd.2 = []) := by
  fun_cases splitLineEnd text with
  | case4 _ _ noReturn noNewline =>
      cases text with
      | nil => exact ⟨by decide, fun _ => rfl⟩
      | cons c rest =>
          simp only [endsRun, List.head?_cons, Option.all_some, Bool.not_not, Token.isLineEnd,
            Bool.or_eq_true, beq_iff_eq] at begins
          rcases begins with rfl | rfl
          · exact absurd rfl (noNewline rest)
          · exact absurd rfl (noReturn rest)
  | _ => exact ⟨by simp [lineEnds], fun empty => absurd empty (List.cons_ne_nil _ _)⟩

/-- A token is read from its span. -/
theorem Token.isSpan_read (c : Char) (rest : Text) :
    IsSpan (c :: (read c rest).taken) (read c rest).rest (read c rest).token := by
  fun_cases read c rest with
  | case3 text lineEnd after split =>
      obtain ⟨isEnd, atEnd⟩ :=
        Text.splitLineEnd_mem_lineEnds (Text.endsRun_dropWhile (!isLineEnd ·) rest)
      rw [split] at isEnd atEnd
      exact ⟨List.all_takeWhile, lineEnd, isEnd, rfl, atEnd⟩
  | case10 =>
      rename_i blank
      refine ⟨List.cons_ne_nil _ _, ?_, Text.endsRun_dropWhile _ _⟩
      rw [Text.isAllBlank, List.all_cons, blank, List.all_takeWhile]
      rfl
  | _ => rfl

namespace Text

/-- Every lexeme stands in front of those of the text behind its span. -/
theorem exists_span_of_lexemesFrom {text : Text} {offset : Nat} {before after : List Lexeme}
    {lexeme : Lexeme} (isLexed : text.lexemesFrom offset = before ++ lexeme :: after) :
    ∃ lead span rest : Text, text = lead ++ (span ++ rest) ∧ lexeme.token.IsSpan span rest ∧
      lexeme.offset = offset + lead.byteLength ∧
        after = rest.lexemesFrom (offset + (lead ++ span).byteLength) := by
  induction before generalizing text offset with
  | nil =>
      obtain ⟨c, rest, rfl, rfl, later⟩ := exists_of_lexemesFrom isLexed
      refine ⟨[], c :: (Token.read c rest).taken, (Token.read c rest).rest, ?_,
        Token.isSpan_read c rest, rfl, later.symm⟩
      rw [List.nil_append, List.cons_append, Token.read_append]
  | cons first before ih =>
      obtain ⟨c, rest, rfl, rfl, later⟩ := exists_of_lexemesFrom isLexed
      obtain ⟨lead, span, behind, split, isSpan, place, isAfter⟩ := ih later
      refine ⟨c :: (Token.read c rest).taken ++ lead, span, behind, ?_, isSpan, ?_, ?_⟩
      · rw [List.append_assoc, ← split, List.cons_append, Token.read_append]
      · rw [place, byteLength_append, Nat.add_assoc]
      · rw [isAfter, List.append_assoc, byteLength_append (c :: _), Nat.add_assoc]

/-- The tokens of a text begin at its start, one behind the other, and each of them is read from the
text between its place and that of the next one, both of which are between two characters. -/
theorem lexemes_partition (text : Text) :
    text.lexemes.head?.map Lexeme.offset = (if text.isEmpty then none else some 0) ∧
      text.lexemes.Pairwise (·.offset < ·.offset) ∧
      ∀ before lexeme after, text.lexemes = before ++ lexeme :: after →
        ∃ lead span rest : Text,
          text.splitAtByte? lexeme.offset = some (lead, span ++ rest) ∧
            text.splitAtByte? (text.spanEnd after) = some (lead ++ span, rest) ∧
            lexeme.token.IsSpan span rest := by
  refine ⟨?_, (pairwise_offset_lexemesFrom 0 text).2, ?_⟩
  · cases text with
    | nil => rw [lexemes, lexemesFrom]; rfl
    | cons c rest => rw [lexemes, lexemesFrom]; rfl
  · intro before lexeme after isLexed
    obtain ⟨lead, span, rest, split, isSpan, place, isAfter⟩ := exists_span_of_lexemesFrom isLexed
    have ending : text.spanEnd after = (lead ++ span).byteLength := by
      cases rest with
      | nil =>
          rw [lexemesFrom] at isAfter
          rw [spanEnd, isAfter, split, List.append_nil]
          rfl
      | cons c rest =>
          rw [lexemesFrom] at isAfter
          rw [spanEnd, isAfter, Nat.zero_add]
          rfl
    refine ⟨lead, span, rest, splitAtByte?_eq_some_iff.2 ⟨split, ?_⟩,
      splitAtByte?_eq_some_iff.2 ⟨?_, ending.symm⟩, isSpan⟩
    · rw [place, Nat.zero_add]
    · rw [split, List.append_assoc]

end Text

end TexCalc
