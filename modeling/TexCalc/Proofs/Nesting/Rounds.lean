import TexCalc.Proofs.Nesting.Nested
import TexCalc.Proofs.Nesting.Whole
import TexCalc.Proofs.Words.Accepted
import TexCalc.Proofs.Words.Leftover
import TexCalc.Proofs.Words.Modes

/-!
# Operands of fractions and roots

In every round one structure is replaced, and its operands are put in parentheses.  In a text whose
brackets are nested an operand is balanced, since a group ends at the partner of its brace and a
single character is no bracket.  There is one exception.  What stands outside of braces and begins
with a parenthesis, as a structure does that was replaced in an earlier round, is not read as a
group: the opening parenthesis alone is the operand.  A formula in which all arguments are whole has
no such operand in any round.
-/

namespace TexCalc

namespace Structure

/-- The texts that are put in parentheses when the structure is written on one line. -/
def operands : Structure → List Text
  | fraction numerator denominator => [numerator, denominator]
  | root radicand => [radicand]
  | indexedRoot index radicand => [index, radicand]

/-- The last structure whose arguments can be read: the one that a round replaces. -/
def last? : List Piece → Option Structure
  | [] => none
  | piece :: rest =>
      (last? rest).or <|
        match piece with
        | .plain _ => none
        | .control name => (read? name (Text.ofPieces rest)).map Prod.fst

/-- A round replaces the last structure, if there is one. -/
theorem resolveLast?_eq_none_iff (pieces : List Piece) :
    resolveLast? pieces = none ↔ last? pieces = none := by
  induction pieces with
  | nil => exact iff_of_true rfl rfl
  | cons piece rest ih =>
      cases piece <;> simp only [resolveLast?, last?, Option.or_eq_none_iff, ← ih]
      all_goals cases resolveLast? rest <;> simp

/-- Where the last structure stands, and what a round puts in its place. -/
theorem exists_of_last? {text : Text} {found : Structure}
    (isLast : last? text.pieces = some found) :
    ∃ front rest control after, text = front ++ '\\' :: rest ∧ Control.read? rest = some control ∧
      read? control.name control.rest = some (found, after) ∧ last? control.rest.pieces = none ∧
        resolveLast? text.pieces = some (front ++ (found.linear ++ after)) := by
  fun_induction Text.pieces text with
  | case1 => cases isLast
  | case2 rest control isControl ih =>
      rw [last?] at isLast
      cases later : last? control.rest.pieces with
      | none =>
          rw [later, Option.none_or] at isLast
          obtain ⟨⟨structured, after⟩, isRead, rfl⟩ := Option.map_eq_some_iff.1 isLast
          rw [Text.ofPieces_pieces] at isRead
          refine ⟨[], rest, control, after, rfl, isControl, isRead, later, ?_⟩
          simp only [resolveLast?, (resolveLast?_eq_none_iff _).2 later, Text.ofPieces_pieces,
            isRead, Option.map_some, List.nil_append]
      | some structured =>
          rw [later, Option.some_or] at isLast
          cases isLast
          obtain ⟨front, rest', control', after, split, isControl', isRead, isLast, isResolved⟩ :=
            ih later
          refine ⟨'\\' :: (control.name ++ front), rest', control', after, ?_, isControl', isRead,
            isLast, ?_⟩
          · rw [Control.eq_of_read? isControl, split]
            simp
          · simp [resolveLast?, isResolved, Piece.source]
  | case3 => cases isLast
  | case4 c rest other ih =>
      rw [last?, Option.or_none] at isLast
      obtain ⟨front, rest', control, after, split, isControl, isRead, none, isResolved⟩ := ih isLast
      refine ⟨c :: front, rest', control, after, by rw [split]; rfl, isControl, isRead, none, ?_⟩
      simp [resolveLast?, isResolved, Piece.source]

/-- Where all arguments are whole, no command stands behind the last one that can be read. -/
theorem not_isName_of_last? {text : Text} (only : text.HasWordsOnly) (whole : areWhole text = true)
    (isNone : last? text.pieces = none) : ∀ word ∈ text.words, ¬ IsName word := by
  fun_induction Text.pieces text with
  | case1 => exact List.forall_mem_nil _
  | case2 rest control isControl ih =>
      rw [last?, Option.or_eq_none_iff, Option.map_eq_none_iff, Text.ofPieces_pieces] at isNone
      rw [Text.words_of_control only isControl, List.forall_mem_cons]
      have wholeRest := areWhole_of_control whole isControl
      refine ⟨fun isName => ?_, ih (only.of_control isControl) wholeRest isNone.1⟩
      have found := isSome_read?_of_isWhole isName (isWhole_of_areWhole whole isControl)
      rw [isNone.2] at found
      cases found
  | case3 rest nothing =>
      rw [Control.read?_eq_none_iff.1 nothing] at only
      exact absurd List.mem_cons_self only
  | case4 c rest other ih =>
      rw [Text.words_cons_of_ne other]
      rw [areWhole, Bool.and_eq_true] at whole
      rw [last?, Option.or_none] at isNone
      exact ih only.tail whole.2 isNone

/-- One replacement keeps all arguments whole. -/
theorem areWhole_resolveLast? {text resolved : Text} {before : List Pending} {may : Bool}
    (only : text.HasWordsOnly) (walk : Walk true may before text [])
    (whole : areWhole text = true)
    (found : resolveLast? text.pieces = some resolved) : areWhole resolved = true := by
  obtain ⟨structured, isLast⟩ : ∃ structured, last? text.pieces = some structured := by
    refine Option.ne_none_iff_exists'.1 fun isNone => ?_
    rw [(resolveLast?_eq_none_iff _).2 isNone] at found
    cases found
  obtain ⟨front, rest, control, after, rfl, isControl, isRead, isNone, isResolved⟩ :=
    exists_of_last? isLast
  cases found.symm.trans isResolved
  have onlyHere : Text.HasWordsOnly ('\\' :: rest) := only.of_append_right
  have onlyRest := onlyHere.of_control isControl
  obtain ⟨between, _, here⟩ := walk.split
  have wholeRest := areWhole_of_control (areWhole_of_append whole) isControl
  have names := not_isName_of_last? onlyRest wholeRest isNone
  have wholeNew : areWhole (structured.linear ++ after) = true := by
    refine areWhole_of_none (fun isMember => ?_) fun word isMember => ?_
    · exact onlyRest ((mem_words_read? onlyRest isRead).1 isMember)
    · exact names word ((mem_words_read? onlyRest isRead).1 isMember)
  exact areWhole_append (replaces_of_read? onlyHere here isControl isRead) only whole wholeNew

theorem areWhole_resolveUpTo (rounds : Nat) {text : Text} {before : List Pending} {may : Bool}
    (only : text.HasWordsOnly) (walk : Walk true may before text [])
    (whole : areWhole text = true) : areWhole (resolveUpTo rounds text) = true := by
  have step (text resolved : Text) (found : resolveLast? text.pieces = some resolved)
      (kept : text.HasWordsOnly ∧ Walk true may before text [] ∧ areWhole text = true) :
      resolved.HasWordsOnly ∧ Walk true may before resolved [] ∧ areWhole resolved = true :=
    ⟨(keepsWords_resolveLast? kept.1 found).1.hasWordsOnly kept.1,
      walk_resolveLast? found kept.1 kept.2.1, areWhole_resolveLast? kept.1 kept.2.1 kept.2.2 found⟩
  exact (resolveUpTo_induct step rounds ⟨only, walk, whole⟩).2.2

end Structure

namespace Walk

variable {guarded may : Bool} {before after : List Pending} {text : Text}

/-- A text that leaves no parenthesis open closes the parentheses that are open in front of it. -/
theorem closesFrom (walk : Walk guarded may before text after)
    (noneLeft : after.count (.bracket .round) = 0) :
    text.closesFrom (before.count (.bracket .round)) = true := by
  induction walk with
  | done => rw [noneLeft, Text.closesFrom, beq_self_eq_true]
  | step first _ ih =>
      have later := ih noneLeft
      cases first with
      | plain other => rwa [Text.closesFrom_plain (isRound_of_plain other)]
      | @opens _ bracket _ =>
          cases bracket with
          | round => rwa [List.count_cons_self] at later
          | square | curly => rwa [List.count_cons_of_ne (by decide)] at later
      | @closes _ bracket =>
          cases bracket with
          | round => rwa [List.count_cons_self]
          | square | curly => rwa [List.count_cons_of_ne (by decide)]
      | loose _ => rwa [List.count_cons_of_ne (by decide)] at later
      | ends => rwa [List.count_cons_of_ne (by decide)]
  | sinks above other _ ih =>
      have later := ih noneLeft
      simp only [List.count_append, List.count_cons] at later ⊢
      rwa [Nat.add_right_comm] at later

end Walk

namespace Text

theorem Leaves.isBalanced {guarded : Bool} {count : Nat} {text : Text}
    (leaves : text.Leaves guarded count) : text.IsBalanced := by
  have noneLeft : List.count (.bracket .round) (loose count ++ []) = 0 := by
    simp [loose, List.count_replicate]
  exact isBalanced_iff_closesFrom.2 ((leaves []).closesFrom noneLeft)

theorem not_isBalanced_paren : ¬ IsBalanced ['('] := by
  decide

/-- What an argument opens is nothing, or it is a parenthesis by itself. -/
theorem Opens.isBalanced_or_eq {guarded : Bool} {opened : List Pending} {text : Text}
    (opens : Opens guarded opened text) : text.IsBalanced ∨ text = ['('] := by
  cases opens with
  | round => exact .inr rfl
  | square => exact .inl (by decide)
  | leaves leaves => exact .inl leaves.isBalanced

end Text

namespace Structure

variable {before : List Pending} {text : Text}

/-- The operands of a structure that is read. -/
theorem opens_of_read? {name after : Text} {found : Structure} (only : text.HasWordsOnly)
    (walk : Walk true false before text []) (isRead : read? name text = some (found, after)) :
    ∀ operand ∈ found.operands, ∃ opened, operand.Opens true opened := by
  simp only [read?] at isRead
  split at isRead
  · obtain ⟨numerator, isNumerator, isRead⟩ := Option.bind_eq_some_iff.1 isRead
    obtain ⟨denominator, isDenominator, same⟩ := Option.map_eq_some_iff.1 isRead
    cases same
    obtain ⟨first, above, walk⟩ := walk.of_argument only isNumerator
    obtain ⟨second, below, _⟩ := walk.of_argument (only.of_argument isNumerator) isDenominator
    simp only [operands, List.forall_mem_cons]
    exact ⟨⟨first, above⟩, ⟨second, below⟩, List.forall_mem_nil _⟩
  · split at isRead
    · simp only [readRoot?] at isRead
      split at isRead
      · obtain ⟨index, isIndex, isRead⟩ := Option.bind_eq_some_iff.1 isRead
        obtain ⟨radicand, isRadicand, same⟩ := Option.map_eq_some_iff.1 isRead
        cases same
        obtain ⟨leaves, walk⟩ := walk.of_index only isIndex
        obtain ⟨opened, opens, _⟩ :=
          walk.of_argument (only.of_optionalArgument isIndex) isRadicand
        simp only [operands, List.forall_mem_cons]
        exact ⟨⟨_, .leaves leaves⟩, ⟨opened, opens⟩, List.forall_mem_nil _⟩
      · obtain ⟨radicand, isRadicand, same⟩ := Option.map_eq_some_iff.1 isRead
        cases same
        obtain ⟨opened, opens, _⟩ := walk.of_argument only isRadicand
        simp only [operands, List.forall_mem_cons]
        exact ⟨⟨opened, opens⟩, List.forall_mem_nil _⟩
    · cases isRead

/-- A whole argument is no opening parenthesis alone. -/
theorem ne_of_readWhole? {may : Bool} {argument : Argument} (only : text.HasWordsOnly)
    (walk : Walk true may before text []) (found : Argument.readWhole? text = some argument) :
    argument.text ≠ ['('] := by
  have within := only.skipBlanks
  have start := walk.skipBlanks
  cases shape : text.skipBlanks with
  | nil =>
      have isRead := (Argument.eq_of_readWhole? found).2
      rw [Argument.read?, shape] at isRead
      cases isRead
  | cons c rest =>
      rw [shape] at within start
      rw [Argument.readWhole?_of_skipBlanks shape] at found
      split at found
      · cases found
      split at found
      · rename_i brace
        subst brace
        obtain ⟨group, isGroup, rfl⟩ := Option.map_eq_some_iff.1 found
        obtain ⟨count, inside, _⟩ :=
          @Walk.of_group? true may before [] rest .curly group (by decide) (fun _ => by decide)
            within.tail start isGroup
        exact fun same => Text.not_isBalanced_paren (same ▸ inside.isBalanced)
      split at found
      · obtain ⟨control, _, found⟩ := Option.bind_eq_some_iff.1 found
        split at found
        · cases found
        · cases found
          exact fun same => absurd (List.cons.inj same).1 (by decide)
      split at found
      · cases found
      · rename_i paren _ _ _
        cases found
        exact fun same => paren (List.cons.inj same).1

/-- The operands of a structure whose arguments are whole. -/
theorem ne_of_isWhole {name after : Text} {found : Structure} (only : text.HasWordsOnly)
    (walk : Walk true false before text []) (isRead : read? name text = some (found, after))
    (whole : isWhole name text = true) : ∀ operand ∈ found.operands, operand ≠ ['('] := by
  simp only [read?] at isRead
  rw [isWhole] at whole
  split at isRead
  · rename_i fraction
    rw [if_pos fraction] at whole
    obtain ⟨numerator, isNumerator, next⟩ := (Option.any_eq_true _ _).1 whole
    obtain ⟨denominator, isDenominator⟩ := Option.isSome_iff_exists.1 next
    have isFirst := (Argument.eq_of_readWhole? isNumerator).2
    have isSecond := (Argument.eq_of_readWhole? isDenominator).2
    rw [readFraction?, isFirst, Option.bind_some, isSecond] at isRead
    cases isRead
    obtain ⟨_, _, later⟩ := walk.of_argument only isFirst
    simp only [operands, List.forall_mem_cons]
    exact ⟨ne_of_readWhole? only walk isNumerator,
      ne_of_readWhole? (only.of_argument isFirst) later isDenominator, List.forall_mem_nil _⟩
  · rename_i noFraction
    rw [if_neg noFraction] at whole
    split at isRead
    · rename_i root
      rw [if_pos root] at whole
      rw [readRoot?] at isRead
      split at isRead
      · rename_i bracket
        rw [if_pos bracket] at whole
        obtain ⟨index, isIndex, next⟩ := (Option.any_eq_true _ _).1 whole
        obtain ⟨radicand, isRadicand⟩ := Option.isSome_iff_exists.1 next
        rw [isIndex, Option.bind_some, (Argument.eq_of_readWhole? isRadicand).2] at isRead
        cases isRead
        obtain ⟨leaves, later⟩ := walk.of_index only isIndex
        simp only [operands, List.forall_mem_cons]
        exact ⟨fun same => Text.not_isBalanced_paren (same ▸ leaves.isBalanced),
          ne_of_readWhole? (only.of_optionalArgument isIndex) later isRadicand,
            List.forall_mem_nil _⟩
      · rename_i noBracket
        rw [if_neg noBracket] at whole
        obtain ⟨radicand, isRadicand⟩ := Option.isSome_iff_exists.1 whole
        rw [(Argument.eq_of_readWhole? isRadicand).2] at isRead
        cases isRead
        simp only [operands, List.forall_mem_cons]
        exact ⟨ne_of_readWhole? only walk isRadicand, List.forall_mem_nil _⟩
    · cases isRead

/-- Where the structure is read that a round replaces. -/
theorem exists_read_of_last? {may : Bool} {found : Structure} (only : text.HasWordsOnly)
    (walk : Walk true may before text []) (isLast : last? text.pieces = some found) :
    ∃ name later after between, Text.HasWordsOnly later ∧ Walk true false between later [] ∧
      read? name later = some (found, after) ∧
        (areWhole text = true → isWhole name later = true) := by
  obtain ⟨front, rest, control, after, rfl, isControl, isRead, _, _⟩ := exists_of_last? isLast
  have onlyHere : Text.HasWordsOnly ('\\' :: rest) := only.of_append_right
  obtain ⟨between, _, here⟩ := walk.split
  obtain ⟨split, letters, _, _⟩ := Text.control_of_hasWordsOnly onlyHere isControl
  have behind := here.of_plain (by decide)
  rw [split] at behind
  exact ⟨control.name, control.rest, after, between, onlyHere.of_control isControl,
    behind.of_plain_append (all_plain_of (by decide) letters), isRead,
    fun whole => isWhole_of_areWhole (areWhole_of_append whole) isControl⟩

end Structure

namespace Translator

/-- In every round each operand of the structure that is replaced is balanced in parentheses, unless
it is an opening parenthesis alone.  Where all arguments are whole in the normal text, it is not. -/
theorem isBalanced_operand_iff {formula : Text} (accepted : IsAccepted formula)
    (nested : formula.normal.isNested = true) {rounds : Nat} {found : Structure}
    (isRound : Structure.last? (Structure.resolveUpTo rounds formula.normal).pieces = some found)
    {operand : Text} (isOperand : operand ∈ found.operands) :
    (operand.IsBalanced ↔ operand ≠ ['(']) ∧
      (Structure.areWhole formula.normal = true → operand.IsBalanced) := by
  have only := Text.hasWordsOnly_normal_of_isAccepted accepted
  have onlyThere := (Structure.keepsWords_resolveUpTo rounds only).hasWordsOnly only
  have normal := Text.walk_of_isNestedIn true nested
  have walk := Structure.walk_resolveUpTo rounds only normal
  obtain ⟨name, later, after, between, onlyLater, walkLater, isRead, isWhole⟩ :=
    Structure.exists_read_of_last? onlyThere walk isRound
  obtain ⟨opened, opens⟩ := Structure.opens_of_read? onlyLater walkLater isRead operand isOperand
  have isBalanced := opens.isBalanced_or_eq.resolve_right
  refine ⟨⟨?_, isBalanced⟩, fun whole => isBalanced ?_⟩
  · rintro balanced rfl
    exact Text.not_isBalanced_paren balanced
  · have wholeThere := Structure.areWhole_resolveUpTo rounds only normal whole
    exact Structure.ne_of_isWhole onlyLater walkLater isRead (isWhole wholeThere) operand isOperand

/-- In the second round the radicand is the fraction of the first, in the parentheses it has got. -/
theorem isBalanced_operand_iff_of_root :
    IsAccepted "\\sqrt\x7b\\frac12\x7d".toList ∧
      (Text.normal "\\sqrt\x7b\\frac12\x7d".toList).isNested = true ∧
        Structure.last? (Structure.resolveUpTo 1
            (Text.normal "\\sqrt\x7b\\frac12\x7d".toList)).pieces =
          some (.root "((1)/(2))".toList) ∧
        Structure.areWhole (Text.normal "\\sqrt\x7b\\frac12\x7d".toList) = true ∧
          Text.IsBalanced "((1)/(2))".toList := by
  have accepted : IsAccepted "\\sqrt\x7b\\frac12\x7d".toList := by decide +kernel
  have nested : (Text.normal "\\sqrt\x7b\\frac12\x7d".toList).isNested = true :=
    Text.isNested_normal accepted (by decide +kernel) (by decide +kernel)
  have isRound : Structure.last? (Structure.resolveUpTo 1
      (Text.normal "\\sqrt\x7b\\frac12\x7d".toList)).pieces =
        some (.root "((1)/(2))".toList) := by decide +kernel
  have whole : Structure.areWhole (Text.normal "\\sqrt\x7b\\frac12\x7d".toList) = true := by
    decide +kernel
  exact ⟨accepted, nested, isRound, whole,
    (isBalanced_operand_iff accepted nested isRound (List.mem_singleton_self _)).2 whole⟩

/-- Without braces only the parenthesis is taken that the fraction has got in the first round. -/
theorem not_isBalanced_operand_of_fraction :
    IsAccepted "\\sqrt\\frac\x7ba\x7d\x7bb\x7d".toList ∧
      Structure.last? (Structure.resolveUpTo 1
          (Text.normal "\\sqrt\\frac\x7ba\x7d\x7bb\x7d".toList)).pieces = some (.root ['(']) ∧
        ¬ Text.IsBalanced ['('] ∧
          Translator.report {} "\\sqrt\\frac\x7ba\x7d\x7bb\x7d".toList =
            .ok ⟨"(sqrt(())*(a)/(b))".toList, []⟩ :=
  ⟨by decide +kernel, by decide +kernel, by decide, eq_ok_of_toOption (by decide +kernel)⟩

end Translator

end TexCalc
