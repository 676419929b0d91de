import TexCalc.Proofs.Alphabet.Finished
import TexCalc.Proofs.Marks.Called
import TexCalc.Proofs.Tex.Lexemes

/-!
# Marks that a formula spells

A mark that stands in a formula as a plain character or in a comment is dropped, but as the name of
a control symbol it stays in normal text.  No such formula is accepted.  Without strict mode the
marks with which parked functions are written out are therefore those that have been put in for
inverse functions and commands, and those that the formula spells in this way.
-/

namespace TexCalc

open Parked (mark)

/-! ## Normal text -/

namespace Token

/-- A token keeps a mark only as the name of a control symbol. -/
theorem count_mark_normal {later : List Token} {token : Token} (lexed : token.IsLexed later) :
    token.normal.count mark = [token].count (control [mark]) := by
  cases token with
  | char c =>
      have shape : (char c).normal = if c = mark then [] else [c] := rfl
      rw [shape]
      split
      · rfl
      · rename_i other
        rw [List.count_singleton, List.count_singleton, beq_false_of_ne other]
        rfl
  | control name =>
      by_cases same : name = [mark]
      · rw [same]
        decide
      · have plain : mark ∉ name := by
          rcases lexed with ⟨_, letters⟩ | ⟨d, rfl, _⟩
          · exact Text.mark_not_mem_of_all_isAlpha letters
          · simpa [eq_comm] using same
        have other : control name ≠ control [mark] := by simpa using same
        rw [List.count_cons_of_ne other, List.count_nil, List.count_eq_zero, normal_control]
        split
        · decide
        · split
          · decide
          · split
            · decide
            · rw [List.mem_cons, not_or]
              exact ⟨by decide, plain⟩
  | _ => rfl

end Token

namespace Text

theorem count_mark_side (side : Side) (delimiter : Char) :
    (side.normal delimiter).count mark = 0 := by
  fun_cases Side.normal side delimiter <;> decide

theorem count_control_of_side? {token : Token} {side : Side} (isSide : token.side? = some side)
    (rest : List Token) :
    (token :: rest).count (.control [mark]) = rest.count (.control [mark]) := by
  apply List.count_cons_of_ne
  rintro rfl
  cases isSide

theorem count_control_of_sizedDelimiter? {token : Token} {delimiter : Char}
    (sized : token.sizedDelimiter? = some delimiter) (rest : List Token) :
    (token :: rest).count (.control [mark]) = rest.count (.control [mark]) := by
  apply List.count_cons_of_ne
  rintro rfl
  cases sized

theorem count_control_dropWhile_isBlank (tokens : List Token) :
    (tokens.dropWhile Token.isBlank).count (.control [mark]) = tokens.count (.control [mark]) := by
  induction tokens with
  | nil => rfl
  | cons token rest ih =>
      cases token with
      | blank => exact ih
      | _ => rfl

theorem count_mark_ofTokens {tokens : List Token} (lexed : AreLexed tokens) (isOpen : Bool) :
    (ofTokens isOpen tokens).count mark = tokens.count (.control [mark]) := by
  fun_induction ofTokens isOpen tokens with
  | case1 => rfl
  | case2 isOpen token rest side isSide next later after delimiter isDelimiter ih =>
      have behind : later <:+ rest := (List.suffix_cons next later).trans
        (after ▸ List.dropWhile_suffix Token.isBlank)
      rw [List.count_append, count_mark_side, Nat.zero_add, ih (lexed.tail.of_suffix behind),
        count_control_of_side? isSide, ← count_control_dropWhile_isBlank rest, after,
        count_control_of_sizedDelimiter? isDelimiter]
  | case3 isOpen token rest side isSide next later after noDelimiter ih =>
      rw [ih lexed.tail, count_control_of_side? isSide]
  | case4 isOpen token rest side isSide after ih =>
      rw [ih lexed.tail, count_control_of_side? isSide]
  | case5 isOpen rest noSide ih =>
      have plain : List.count mark (if isOpen then "))".toList else "(abs(".toList) = 0 := by
        cases isOpen <;> decide
      rw [List.count_append, plain, ih lexed.tail, Nat.zero_add]
      exact (List.count_cons_of_ne (by decide)).symm
  | case6 isOpen token rest noSide noBar ih =>
      rw [List.count_append, ih lexed.tail, Token.count_mark_normal lexed.head,
        ← List.count_append, List.singleton_append]

/-- As many marks are in normal text as the formula, its ends trimmed, spells as control symbols. -/
theorem count_mark_normal (formula : Text) :
    formula.normal.count mark =
      (formula.trim.lexemes.map Lexeme.token).count (.control [mark]) :=
  count_mark_ofTokens (areLexed_lexemes formula.trim) false

/-- No accepted formula spells a mark. -/
theorem count_control_mark_of_isAccepted {formula : Text}
    (accepted : Translator.IsAccepted formula) :
    (formula.trim.lexemes.map Lexeme.token).count (.control [mark]) = 0 := by
  rw [List.count_eq_zero]
  intro isMember
  obtain ⟨lexeme, isLexeme, isControl⟩ := List.mem_map.1 isMember
  have known := Token.isKnown_of_issues_eq_nil (List.map_eq_nil_iff.1 accepted) isLexeme
  rw [isControl] at known
  cases known

/-! ## Marks that are put in -/

/-- The parked functions among the inverse functions that are called by name, in order. -/
def parkedInverses (vocabulary : Vocabulary) (text : Text) : List Parked :=
  match text with
  | [] => []
  | c :: rest =>
      match _mark : inverseMark? (c :: rest) with
      | none => parkedInverses vocabulary rest
      | some inverse =>
          let parked := ((Parked.read? inverse.text).map Prod.fst).toList
          match _argument : inverse.rest.bareArgument? vocabulary with
          | some argument => parked ++ parkedInverses vocabulary argument.rest
          | none => parked ++ parkedInverses vocabulary inverse.rest
termination_by text.length
decreasing_by
  · simp
  · have marked := length_lt_of_inverseMark? _mark
    have := length_le_of_bareArgument? _argument
    omega
  · exact length_lt_of_inverseMark? _mark

section

variable {vocabulary : Vocabulary} {c : Char} {rest : Text} {inverse : Cut}

theorem parkedInverses_cons_of_none (isNone : inverseMark? (c :: rest) = none) :
    parkedInverses vocabulary (c :: rest) = parkedInverses vocabulary rest := by
  rw [parkedInverses]
  split
  · rfl
  · rename_i isMark
    rw [isNone] at isMark
    cases isMark

variable (isMark : inverseMark? (c :: rest) = some inverse)

include isMark

theorem parkedInverses_cons_of_argument {argument : Cut}
    (isArgument : inverse.rest.bareArgument? vocabulary = some argument) :
    parkedInverses vocabulary (c :: rest) =
      ((Parked.read? inverse.text).map Prod.fst).toList ++
        parkedInverses vocabulary argument.rest := by
  rw [parkedInverses]
  split
  · rename_i isNone
    rw [isMark] at isNone
    cases isNone
  · rename_i other isOther
    cases isMark.symm.trans isOther
    split
    · rename_i found isFound
      cases isArgument.symm.trans isFound
      rfl
    · rename_i isNone
      rw [isArgument] at isNone
      cases isNone

theorem parkedInverses_cons_of_bare (noArgument : inverse.rest.bareArgument? vocabulary = none) :
    parkedInverses vocabulary (c :: rest) =
      ((Parked.read? inverse.text).map Prod.fst).toList ++
        parkedInverses vocabulary inverse.rest := by
  rw [parkedInverses]
  split
  · rename_i isNone
    rw [isMark] at isNone
    cases isNone
  · rename_i other isOther
    cases isMark.symm.trans isOther
    split
    · rename_i found isFound
      rw [noArgument] at isFound
      cases isFound
    · rfl

end

theorem count_mark_of_inverseMark? {text : Text} {inverse : Cut}
    (found : text.inverseMark? = some inverse) :
    inverse.text.count mark = ((Parked.read? inverse.text).map Prod.fst).toList.length := by
  obtain ⟨name, isName, _, _, _, isInverse⟩ := exists_of_inverseMark? found
  have known : ∀ name ∈ trigonometric, ∀ inverse ∈ Command.inverse? name,
      inverse.count mark = ((Parked.read? inverse).map Prod.fst).toList.length := by
    decide
  exact known name isName inverse.text isInverse

/-- Each parked inverse function brings one mark. -/
theorem count_mark_resolveInverses (vocabulary : Vocabulary) (text : Text) :
    (text.resolveInverses vocabulary).count mark =
      text.count mark + (text.parkedInverses vocabulary).length := by
  have blank := count_cons_of_known isForeign_mark (show isForeign ' ' = false by decide)
  fun_induction resolveInverses vocabulary text with
  | case1 => simp [parkedInverses]
  | case2 d rest isNone ih =>
      rw [parkedInverses_cons_of_none isNone, List.count_cons, List.count_cons, ih]
      omega
  | case3 d rest inverse isMark argument isArgument ih =>
      rw [parkedInverses_cons_of_argument isMark isArgument,
        ← count_rest_of_inverseMark? isForeign_mark isMark,
        count_of_bareArgument? isForeign_mark isArgument, List.cons_append, List.cons_append,
        blank, List.count_append, List.count_append, ih, count_mark_of_inverseMark? isMark,
        count_parenthesized_of_isForeign isForeign_mark, List.length_append]
      omega
  | case4 d rest inverse isMark noArgument ih =>
      rw [parkedInverses_cons_of_bare isMark noArgument,
        ← count_rest_of_inverseMark? isForeign_mark isMark, List.cons_append, blank,
        List.count_append, blank, ih, count_mark_of_inverseMark? isMark, List.length_append]
      omega

/-- The parked functions that are put in for inverse functions and for commands. -/
def parkedIn (vocabulary : Vocabulary) (options : Options) (text : Text) : List Parked :=
  text.resolveStructures.parkedInverses vocabulary ++
    (text.beforeRenaming vocabulary).parkedCommands options

/-- A parked name begins with a mark. -/
theorem parked_count_le_count_mark (text : Text) : Parked.count text ≤ text.count mark := by
  induction text with
  | nil => exact Nat.le_refl 0
  | cons c rest ih =>
      rw [Parked.count]
      split
      · rename_i named
        obtain ⟨⟨parked, after⟩, found⟩ := Option.isSome_iff_exists.1 named
        have split := Parked.read?_eq_some_iff.1 found
        rw [Parked.name, List.cons_append, List.cons.injEq] at split
        rw [split.1, List.count_cons_self]
        omega
      · rw [Nat.zero_add]
        exact Nat.le_trans ih List.count_le_count_cons

/-- The marks with which parked functions are written out are those that the formula spells as
control symbols, which no accepted formula does, and one for each parked function that is put in. -/
theorem count_mark_beforeWritingOut (vocabulary : Vocabulary) (options : Options)
    (formula : Text) :
    let spelled := (formula.trim.lexemes.map Lexeme.token).count (.control [mark])
    let called := formula.normal.beforeWritingOut vocabulary options
    formula.normal.count mark = spelled ∧
      called.count mark = spelled + (formula.normal.parkedIn vocabulary options).length ∧
        Parked.count called ≤ called.count mark ∧
          (Translator.IsAccepted formula → spelled = 0) := by
  intro spelled called
  have inNormal : formula.normal.count mark = spelled := count_mark_normal formula
  refine ⟨inNormal, ?_, parked_count_le_count_mark called, count_control_mark_of_isAccepted⟩
  have based := count_resolveLogBases isForeign_mark vocabulary
    (formula.normal.resolveStructures.resolveInverses vocabulary)
  rw [if_neg (by decide), Nat.add_zero, count_mark_resolveInverses,
    count_resolveStructures isForeign_mark, inNormal] at based
  have inTable : ∀ entry ∈ Command.table, entry.1.count mark = 0 := by decide
  calc called.count mark
    _ = ((formula.normal.beforeRenaming vocabulary).renameCommands options).count mark :=
        count_attachArguments_of_isForeign isForeign_mark vocabulary _
    _ = (formula.normal.beforeRenaming vocabulary).count mark +
          ((formula.normal.beforeRenaming vocabulary).parkedCommands options).length :=
        count_renameCommands_eq_add isForeign_mark options (.inr inTable)
    _ = spelled + (formula.normal.parkedIn vocabulary options).length := by
        rw [beforeRenaming, ← based, parkedIn, List.length_append, Nat.add_assoc]
        rfl

/-- A control symbol takes a mark into normal text, and with letters behind it a parked function is
written out that nothing has put in. -/
theorem mark_mem_normal_of_control_symbol :
    mark ∈ normal ['\\', mark] ∧
      parkedIn .standard .lenient (normal ('\\' :: mark :: "sec x".toList)) = [] ∧
        Parked.count (beforeWritingOut .standard .lenient
          (normal ('\\' :: mark :: "sec x".toList))) = 1 := by
  refine ⟨by decide +kernel, by decide +kernel, by decide +kernel⟩

end Text

end TexCalc
