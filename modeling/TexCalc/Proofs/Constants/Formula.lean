import TexCalc.Proofs.Linear.Calls
import TexCalc.Proofs.Tex.Normal

/-!
# Arithmetic with constants

A formula may consist of decimal digits, signs, parentheses and spaces, and of the commands of the
two constants.  It has no letter of its own: the only letters on one line are those of the names
that the commands become.
-/

namespace TexCalc

namespace Piece

/-- The names of the commands for constants. -/
def constantCommands : List Text :=
  ["pi".toList, "infty".toList]

/-- The pieces of arithmetic with constants. -/
def isArithmetic : Piece → Bool
  | control name => constantCommands.contains name
  | plain c => c.isDigit || c ∈ ['+', '-', '*', '/', '(', ')', ' ']

variable {c : Char}

theorem isDigit_or_mem (arithmetic : (plain c).isArithmetic = true) :
    c.isDigit = true ∨ c ∈ ['+', '-', '*', '/', '(', ')', ' '] := by
  simpa only [isArithmetic, Bool.or_eq_true, decide_eq_true_eq] using arithmetic

/-- Every plain piece is a digit, a space, or a sign that stands for itself. -/
theorem isDigit_or_eq_or_mem (arithmetic : (plain c).isArithmetic = true) :
    c.isDigit = true ∨ c = ' ' ∨ c ∈ ['+', '-', '*', '/', '(', ')'] := by
  refine (isDigit_or_mem arithmetic).imp_right fun isMark => ?_
  simp only [List.mem_cons, List.not_mem_nil, or_false] at isMark ⊢
  rcases isMark with plus | minus | times | slash | opens | closes | space
  all_goals simp [*]

/-- A space, or a character that is its own token and its own normal text. -/
theorem eq_or_isSingle (arithmetic : (plain c).isArithmetic = true) :
    c = ' ' ∨ Token.isSingle c = true ∧ isBlank c = false := by
  rcases isDigit_or_mem arithmetic with digit | isMark
  · have word : c.isAlphanum = true := by simp [Char.isAlphanum, digit]
    exact .inr ⟨Token.isSingle_of_isAlphanum word, isBlank_eq_false_of_isAlphanum word⟩
  · simp only [List.mem_cons, List.not_mem_nil, or_false] at isMark
    rcases isMark with rfl | rfl | rfl | rfl | rfl | rfl | rfl <;> decide

theorem isAlpha_eq_false (arithmetic : (plain c).isArithmetic = true) : c.isAlpha = false := by
  rcases isDigit_or_mem arithmetic with digit | isMark
  · exact isAlpha_eq_false_of_isDigit digit
  · simp only [List.mem_cons, List.not_mem_nil, or_false] at isMark
    rcases isMark with rfl | rfl | rfl | rfl | rfl | rfl | rfl <;> rfl

theorem ne_of_isArithmetic {other : Char} (arithmetic : (plain c).isArithmetic = true)
    (excluded : (plain other).isArithmetic = false) : c ≠ other := by
  rintro rfl
  rw [arithmetic] at excluded
  cases excluded

theorem eq_of_mem {name : Text} (isName : name ∈ constantCommands) :
    name = "pi".toList ∨ name = "infty".toList := by
  simpa only [constantCommands, List.mem_cons, List.not_mem_nil, or_false] using isName

theorem word_of_mem {name : Text} (isName : name ∈ constantCommands) :
    name.all Char.isAlpha = true ∧ name ≠ [] := by
  rcases eq_of_mem isName with rfl | rfl <;> decide

end Piece

namespace Text

/-- Arithmetic with constants, character by character and command by command. -/
inductive IsArithmetic : Text → Prop where
  | nil : IsArithmetic []
  | mark {c : Char} {rest : Text} (isMark : (Piece.plain c).isArithmetic = true)
      (arithmetic : IsArithmetic rest) : IsArithmetic (c :: rest)
  | word {name rest : Text} (isName : name ∈ Piece.constantCommands)
      (arithmetic : IsArithmetic rest) : IsArithmetic ('\\' :: (name ++ rest))

theorem isArithmetic_of_pieces {text : Text} (all : text.pieces.all Piece.isArithmetic = true) :
    text.IsArithmetic := by
  fun_induction pieces text with
  | case1 => exact .nil
  | case2 rest control isControl ih =>
      rw [List.all_cons, Bool.and_eq_true] at all
      rw [Control.eq_of_read? isControl]
      exact .word (List.contains_iff_mem.1 all.1) (ih all.2)
  | case3 => cases all
  | case4 c rest plain ih =>
      rw [List.all_cons, Bool.and_eq_true] at all
      exact .mark all.1 (ih all.2)

namespace IsArithmetic

variable {text trail : Text}

/-- The letters of a command end where the command ends. -/
theorem endsRun (arithmetic : text.IsArithmetic) : text.endsRun Char.isAlpha = true := by
  cases arithmetic with
  | nil => rfl
  | mark isMark _ => simp [Text.endsRun, Piece.isAlpha_eq_false isMark]
  | word => rfl

/-- The end of a text is trimmed behind its last command. -/
theorem of_append (blank : trail.isAllBlank = true) (arithmetic : (text ++ trail).IsArithmetic) :
    text.IsArithmetic := by
  generalize whole : text ++ trail = both at arithmetic
  induction arithmetic generalizing text with
  | nil =>
      rw [(List.append_eq_nil_iff.1 whole).1]
      exact .nil
  | mark isMark _ ih =>
      cases text with
      | nil => exact .nil
      | cons d text =>
          cases whole
          exact .mark isMark (ih rfl)
  | @word name rest isName _ ih =>
      cases text with
      | nil =>
          rw [List.nil_append] at whole
          rw [whole, isAllBlank, List.all_cons] at blank
          cases blank
      | cons d text =>
          rw [List.cons_append, List.cons.injEq] at whole
          obtain ⟨rfl, split⟩ := whole
          rcases List.append_eq_append_iff.1 split with ⟨gap, isName', isTrail⟩ | ⟨after, rfl, same⟩
          · have noGap : gap = [] := by
              cases gap with
              | nil => rfl
              | cons c gap =>
                  rw [isTrail, isAllBlank, List.cons_append, List.all_cons, Bool.and_eq_true]
                    at blank
                  have letter : c.isAlpha = true :=
                    List.all_eq_true.1 (Piece.word_of_mem isName).1 c (by rw [isName']; simp)
                  rw [(not_isAlpha_of_isBlank blank.1).1] at letter
                  cases letter
            rw [noGap, List.append_nil] at isName'
            rw [← isName', ← List.append_nil name]
            exact .word isName .nil
          · exact .word isName (ih same.symm)

theorem trim (arithmetic : text.IsArithmetic) : text.trim.IsArithmetic := by
  obtain ⟨lead, trail, whole, leadBlank, trailBlank⟩ := exists_trim_eq text
  rw [whole] at arithmetic
  refine of_append trailBlank ?_
  clear whole
  generalize text.trim ++ trail = rest at arithmetic ⊢
  induction lead with
  | nil => exact arithmetic
  | cons c lead ih =>
      rw [isAllBlank, List.all_cons, Bool.and_eq_true] at leadBlank
      generalize whole : c :: lead ++ rest = all at arithmetic
      cases arithmetic with
      | nil => cases whole
      | mark _ arithmetic =>
          cases whole
          exact ih leadBlank.2 arithmetic
      | word =>
          cases (List.cons.inj whole).1
          cases leadBlank.1

/-- The normal text of arithmetic is arithmetic, in which one space stands for a run of them. -/
theorem normalized (arithmetic : text.IsArithmetic) : text.normalized.IsArithmetic := by
  suffices both : text.normalized.IsArithmetic ∧
      (Text.normalized (text.dropWhile isBlank)).IsArithmetic from both.1
  induction arithmetic with
  | nil =>
      have nothing : (Text.normalized []).IsArithmetic := by
        rw [normalized_nil]
        exact .nil
      exact ⟨nothing, nothing⟩
  | @mark c rest isMark _ ih =>
      rcases Piece.eq_or_isSingle isMark with rfl | ⟨single, visible⟩
      · have isSpace : Token.read ' ' rest =
            ⟨.blank, rest.takeWhile isBlank, rest.dropWhile isBlank⟩ := rfl
        have begins : Text.normalized (' ' :: rest) =
            ' ' :: Text.normalized (rest.dropWhile isBlank) :=
          normalized_of_read isSpace rfl (by simp)
        exact ⟨begins ▸ .mark isMark ih.2, ih.2⟩
      · have begins : Text.normalized (c :: rest) = c :: rest.normalized :=
          normalized_cons single (Piece.ne_of_isArithmetic isMark rfl)
            (Piece.ne_of_isArithmetic isMark (by decide)) rest
        have stays : (c :: rest).dropWhile isBlank = c :: rest :=
          List.dropWhile_cons_of_neg (by simp [visible])
        rw [stays, begins]
        exact ⟨.mark isMark ih.1, .mark isMark ih.1⟩
  | @word name rest isName arithmetic ih =>
      obtain ⟨letters, nonempty⟩ := Piece.word_of_mem isName
      obtain ⟨noSide, visible⟩ : (Token.control name).side? = none ∧
          Command.named? name ≠ some .spacing := by
        rcases Piece.eq_of_mem isName with rfl | rfl <;> decide
      have kept : (Text.normalized ('\\' :: (name ++ rest))).IsArithmetic := by
        rw [normalized_word letters nonempty arithmetic.endsRun noSide visible]
        exact .word isName ih.1
      exact ⟨kept, kept⟩

theorem normal (arithmetic : text.IsArithmetic) : text.normal.IsArithmetic := by
  have shape : text.normal = text.trim.normalized := by rw [Text.normal, Text.normalized]
  rw [shape]
  exact arithmetic.trim.normalized

/-! ## Up to the calls -/

variable {vocabulary : Vocabulary}

/-- There is no fraction and no root. -/
theorem resolveStructures (arithmetic : text.IsArithmetic) : text.resolveStructures = text := by
  have resolves : Structure.Resolves text text := by
    induction arithmetic with
    | nil => exact .nil
    | mark isMark _ ih => exact ih.cons (Piece.ne_of_isArithmetic isMark rfl)
    | @word name rest isName arithmetic ih =>
        obtain ⟨letters, nonempty⟩ := Piece.word_of_mem isName
        have other : ¬ Structure.IsName name := by
          rcases Piece.eq_of_mem isName with rfl | rfl <;> decide
        exact ih.word letters nonempty other arithmetic.endsRun
  exact Structure.resolveUpTo_of_settles resolves.settles

theorem resolveInverses (arithmetic : text.IsArithmetic) :
    text.resolveInverses vocabulary = text := by
  induction arithmetic with
  | nil => rw [Text.resolveInverses]
  | mark isMark _ ih =>
      rw [resolveInverses_plain (Piece.ne_of_isArithmetic isMark rfl), ih]
  | @word name rest isName _ ih =>
      have noMark : inverseMark? ('\\' :: (name ++ rest)) = none := by
        rcases Piece.eq_of_mem isName with rfl | rfl <;> rfl
      rw [resolveInverses_cons noMark,
        resolveInverses_append (not_mem_of_all_isAlpha (Piece.word_of_mem isName).1), ih]

theorem resolveLogBases (arithmetic : text.IsArithmetic) :
    text.resolveLogBases vocabulary = text := by
  induction arithmetic with
  | nil => rw [Text.resolveLogBases]
  | mark isMark _ ih =>
      rw [resolveLogBases_plain (Piece.ne_of_isArithmetic isMark rfl), ih]
  | @word name rest isName _ ih =>
      have noMark : (afterLogMark? ('\\' :: (name ++ rest))).bind Argument.read? = none := by
        rcases Piece.eq_of_mem isName with rfl | rfl <;> rfl
      rw [resolveLogBases_cons noMark,
        resolveLogBases_append (not_mem_of_all_isAlpha (Piece.word_of_mem isName).1), ih]

end IsArithmetic

end Text

end TexCalc
