import TexCalc.Proofs.Alphabet.Expression
import TexCalc.Proofs.Nesting.Calls
import TexCalc.Proofs.Nesting.Nested
import TexCalc.Proofs.Nesting.Renamed
import TexCalc.Proofs.Text.Balance
import TexCalc.Proofs.Words.Backslashes
import TexCalc.Proofs.Words.Modes

/-!
# Balanced expressions

In a flat text every bracket is a parenthesis.  Which kind a bracket was of, and whether it was
loose, does not matter any more: only the number of brackets does that are open.

When the brackets of the normal text are nested and no control sequence is removed, the parentheses
of the expression are balanced, whatever is moved or written twice on the way.  Normal text need
not be nested: a delimiter on the other side of a comment is none when a formula is checked, and is
one when it is normalized.
-/

namespace TexCalc

/-! ## Parentheses of a flat text -/

namespace Text

/-- No front of the text closes more parentheses than it opens, and the whole text closes all. -/
structure IsBalanced (text : Text) : Prop where
  never_below : ∀ front, front <+: text → front.count ')' ≤ front.count '('
  settled : text.count '(' = text.count ')'

/-- Whether a text closes exactly the parentheses that it opens, and `depth` more that are open in
front of it. -/
def closesFrom (depth : Nat) : Text → Bool
  | [] => depth == 0
  | c :: rest =>
      if c = '(' then closesFrom (depth + 1) rest
      else if c = ')' then
        match depth with
        | 0 => false
        | depth + 1 => closesFrom depth rest
      else closesFrom depth rest

theorem closesFrom_plain {c : Char} (other : isRound c = false) (depth : Nat) (rest : Text) :
    closesFrom depth (c :: rest) = closesFrom depth rest := by
  simp only [isRound, Bool.or_eq_false_iff, beq_eq_false_iff_ne] at other
  simp only [closesFrom, if_neg other.1, if_neg other.2]

theorem closesFrom_opener (depth : Nat) (rest : Text) :
    closesFrom depth ('(' :: rest) = closesFrom (depth + 1) rest :=
  if_pos rfl

theorem closesFrom_closer (depth : Nat) (rest : Text) :
    closesFrom (depth + 1) (')' :: rest) = closesFrom depth rest :=
  rfl

theorem eq_of_isRound {c : Char} (round : isRound c = true) : c = '(' ∨ c = ')' := by
  simpa [isRound] using round

/-- What is no parenthesis may be left out. -/
theorem closesFrom_filter_isRound (depth : Nat) (text : Text) :
    closesFrom depth (text.filter isRound) = closesFrom depth text := by
  induction text generalizing depth with
  | nil => rfl
  | cons c rest ih =>
      cases round : isRound c with
      | false => rw [List.filter_cons_of_neg (by simp [round]), ih, closesFrom_plain round]
      | true =>
          rw [List.filter_cons_of_pos round]
          rcases eq_of_isRound round with rfl | rfl
          · rw [closesFrom_opener, closesFrom_opener, ih]
          · cases depth with
            | zero => rfl
            | succ depth => rw [closesFrom_closer, closesFrom_closer, ih]

theorem closesFrom_eq_true_iff (depth : Nat) (text : Text) :
    closesFrom depth text = true ↔ Balances '(' ')' depth text := by
  have differs : '(' ≠ ')' := by decide
  induction text generalizing depth with
  | nil => rw [closesFrom, beq_iff_eq, Balances.nil_iff]
  | cons c rest ih =>
      cases round : isRound c with
      | false =>
          rw [closesFrom_plain round]
          simp only [isRound, Bool.or_eq_false_iff, beq_eq_false_iff_ne] at round
          exact (ih depth).trans (Balances.other_iff round.1 round.2).symm
      | true =>
          rcases eq_of_isRound round with rfl | rfl
          · rw [closesFrom_opener]
            exact (ih (depth + 1)).trans (Balances.opening_iff differs).symm
          · cases depth with
            | zero => exact iff_of_false Bool.false_ne_true (Balances.not_closing differs)
            | succ depth =>
                rw [closesFrom_closer]
                exact (ih depth).trans (Balances.closing_iff differs).symm

theorem isBalanced_iff_closesFrom {text : Text} :
    text.IsBalanced ↔ closesFrom 0 text = true := by
  rw [closesFrom_eq_true_iff]
  constructor
  · intro balanced
    exact ⟨balanced.never_below, balanced.settled.symm⟩
  · intro balances
    exact ⟨balances.never_below, balances.settled.symm⟩

instance (text : Text) : Decidable text.IsBalanced :=
  decidable_of_iff' _ isBalanced_iff_closesFrom

/-! ## Flat brackets -/

theorem flatBracket_plain {c : Char} (other : isBracket c = false) : flatBracket c = c := by
  simp only [isBracket, decide_eq_false_iff_not, List.mem_cons, List.not_mem_nil, or_false,
    not_or] at other
  simp [flatBracket, other]

theorem flatBracket_pending_opener (pending : Pending) : flatBracket pending.opener = '(' := by
  rcases pending with kind | _
  · cases kind <;> rfl
  · rfl

theorem flatBracket_pending_closer (pending : Pending) : flatBracket pending.closer = ')' := by
  rcases pending with kind | _
  · cases kind <;> rfl
  · rfl

/-- Of every bracket that is open in front of a text, and of every one in it, comes a pair of
parentheses. -/
theorem closesFrom_joinGroups {guarded may : Bool} {before : List Pending} {text : Text}
    (walk : Walk guarded may before text []) :
    closesFrom before.length (text.joinGroups.map flatBracket) = true := by
  have length_loose (count : Nat) (pending : Pending) (below : List Pending) :
      (loose count ++ pending :: below).length = (loose count ++ below).length + 1 := by
    simp [Nat.add_assoc]
  -- the brackets that are open behind the first character are closed by the rest
  have ofFirst {c : Char} {rest right : Text} {may : Bool} {before : List Pending}
      (walk : Walk guarded may before (c :: rest) [])
      (later : ∀ may between, Walk guarded may between rest [] →
        closesFrom between.length (right.map flatBracket) = true) :
      closesFrom before.length (List.map flatBracket (c :: right)) = true := by
    rw [List.map_cons]
    rcases walk.of_cons with ⟨plain, behind⟩ | ⟨pending, rfl, _, behind⟩ |
      ⟨count, pending, below, rfl, _, rfl, behind⟩
    · rw [flatBracket_plain plain, closesFrom_plain (isRound_of_plain plain)]
      exact later _ _ behind
    · rw [flatBracket_pending_opener, closesFrom_opener]
      exact later _ _ behind
    · rw [flatBracket_pending_closer, length_loose, closesFrom_closer]
      exact later _ _ behind
  revert may before
  fun_induction joinGroups text with
  | case1 =>
      intro may before walk
      rw [walk.length_of_nil]
      rfl
  | case2 rest after next ih =>
      intro may before walk
      rcases walk.of_cons with ⟨plain, _⟩ | ⟨pending, same, _⟩ |
        ⟨count, pending, below, _, _, rfl, behind⟩
      · cases plain
      · rcases pending with kind | _
        · cases kind <;> cases same
        · cases same
      · have opened := walk_trimStart behind
        rw [next] at opened
        have inside := @Walk.of_opener _ _ _ _ _ .curly (by decide) opened
        rw [List.map_append, length_loose]
        exact ih inside
  | case3 rest _ ih =>
      intro may before walk
      apply ofFirst walk
      intro may between behind
      exact ih behind
  | case4 c rest _ ih =>
      intro may before walk
      apply ofFirst walk
      intro may between behind
      exact ih behind

/-- A text whose brackets are nested is balanced when it is flat. -/
theorem isBalanced_flatten {guarded may : Bool} {text : Text}
    (walk : Walk guarded may [] text []) : text.flatten.IsBalanced := by
  have visible (c : Char) (blank : isBlank c = true) : isRound c = false := by
    cases round : isRound c with
    | false => rfl
    | true => rcases eq_of_isRound round with rfl | rfl <;> cases blank
  rw [isBalanced_iff_closesFrom, ← closesFrom_filter_isRound, flatten, filter_trim visible,
    collapseBlanks, filter_collapseAfter visible, closesFrom_filter_isRound]
  exact closesFrom_joinGroups walk

end Text

/-! ## Expressions -/

namespace Text

/-- When no control word is left, the linear form of nested text is balanced. -/
theorem isBalanced_linear (vocabulary : Vocabulary) (options : Options) {text : Text}
    (only : text.HasWordsOnly) (nested : text.isNested = true)
    (noneLeft : '\\' ∉ text.linear vocabulary options) :
    (text.linear vocabulary options).IsBalanced := by
  have onlyResolved := (keepsWords_resolveStructures only).hasWordsOnly only
  have onlyInverted :=
    (keepsWords_resolveInverses vocabulary onlyResolved).hasWordsOnly onlyResolved
  have onlyBased := hasWordsOnly_beforeRenaming vocabulary only
  have resolved := (Walk.resolveStructures only (walk_of_isNestedIn true nested)).release
  have inverted := walk_resolveInverses vocabulary onlyResolved resolved
  have based := walk_resolveLogBases vocabulary onlyInverted inverted
  have renamed := walk_renameCommands options onlyBased based
  have without : '\\' ∉ (text.beforeRenaming vocabulary).renameCommands options := by
    rw [← List.count_eq_zero, count_renameCommands options onlyBased,
      ← count_backslash_linear vocabulary options only, List.count_eq_zero]
    exact noneLeft
  have onlyRenamed := hasWordsOnly_of_not_mem without
  have onlyCalled := hasWordsOnly_attachArguments vocabulary onlyRenamed
  have called := walk_attachArguments vocabulary onlyRenamed renamed
  have expanded := walk_expandParked onlyCalled called
  have withoutParked : '\\' ∉ expandParked (attachArguments vocabulary
      ((text.beforeRenaming vocabulary).renameCommands options)) := by
    rw [← List.count_eq_zero, count_expandParked, count_attachArguments, List.count_eq_zero]
    exact without
  exact isBalanced_flatten (walk_resolveExponents vocabulary withoutParked expanded)

/-- The index of a root is moved behind the radicand, brackets and all. -/
example :
    linear .standard .standard "\\sqrt[n]\x7b(x)\x7d".toList = "((x)^(1/(n)))".toList := by
  decide +kernel

end Text

namespace Translator

variable {translator : Translator} {formula : Text} {report : Report}

/-- Where no warning is given, no control word is left in the linear form. -/
theorem backslash_not_mem_linear (isStrict : translator.options.strict = true)
    (reported : translator.report formula = .ok report) (noWarnings : report.warnings = []) :
    '\\' ∉ formula.normal.linear translator.vocabulary translator.options := by
  obtain ⟨accepted, rfl⟩ := (report_eq_ok_iff isStrict).1 reported
  have only := Text.hasWordsOnly_normal_of_isAccepted accepted
  rw [← List.count_eq_zero, Text.count_backslash_linear _ _ only,
    ← length_warnings_reportDespite translator accepted, noWarnings]
  rfl

/-- Parentheses are printed as they stand in the linear form, when no control word takes one away. -/
theorem isBalanced_expression_iff (isStrict : translator.options.strict = true)
    (reported : translator.report formula = .ok report) (noWarnings : report.warnings = []) :
    report.expression.IsBalanced ↔
      (formula.normal.linear translator.vocabulary translator.options).IsBalanced := by
  have noneLeft := backslash_not_mem_linear isStrict reported noWarnings
  have visible (c : Char) (blank : isBlank c = true) : isRound c = false := by
    cases round : isRound c with
    | false => rfl
    | true => rcases Text.eq_of_isRound round with rfl | rfl <;> cases blank
  have printed := filter_expression isStrict reported visible (by decide) (by decide)
    fun isMember => absurd isMember noneLeft
  rw [Text.isBalanced_iff_closesFrom, Text.isBalanced_iff_closesFrom,
    ← Text.closesFrom_filter_isRound, printed, Text.closesFrom_filter_isRound]

/-- The expression is balanced when the brackets of the normal text are nested and no warning is
given. -/
theorem isBalanced_expression (isStrict : translator.options.strict = true)
    (reported : translator.report formula = .ok report) (noWarnings : report.warnings = [])
    (nested : formula.normal.isNested = true) : report.expression.IsBalanced := by
  obtain ⟨accepted, _⟩ := (report_eq_ok_iff isStrict).1 reported
  rw [isBalanced_expression_iff isStrict reported noWarnings]
  exact Text.isBalanced_linear _ _ (Text.hasWordsOnly_normal_of_isAccepted accepted) nested
    (backslash_not_mem_linear isStrict reported noWarnings)

/-- The index of the root comes to stand behind the radicand, the base of the logarithm behind its
argument. -/
theorem isBalanced_expression_of_root :
    Translator.report {} "\\sqrt[n]\x7b\\log_2(x)\x7d".toList =
        .ok ⟨"(((log(x)/log(2)))^(1/(n)))".toList, []⟩ ∧
      Text.IsBalanced "(((log(x)/log(2)))^(1/(n)))".toList :=
  have reported : Translator.report {} "\\sqrt[n]\x7b\\log_2(x)\x7d".toList =
      .ok ⟨"(((log(x)/log(2)))^(1/(n)))".toList, []⟩ :=
    eq_ok_of_toOption (by decide +kernel)
  have nested := Text.isNested_normal ((report_eq_ok_iff rfl).1 reported).1 (by decide +kernel)
    (by decide +kernel)
  ⟨reported, isBalanced_expression rfl reported rfl nested⟩

/-- Behind the comment the first bar is a bare one, which opens two parentheses. -/
theorem not_isBalanced_expression_of_comment :
    ∃ report, Translator.report {} "\\left%\n|x\\right|".toList = .ok report ∧
      ¬ report.expression.IsBalanced :=
  ⟨⟨"(abs(x)".toList, []⟩, eq_ok_of_toOption (by decide +kernel), by decide⟩

end Translator

end TexCalc
