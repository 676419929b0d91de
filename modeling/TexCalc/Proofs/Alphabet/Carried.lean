import TexCalc.Proofs.Alphabet.Foreign
import TexCalc.Proofs.Linear.Bases
import TexCalc.Proofs.Words.Leftover

/-!
# Foreign characters are carried along

The steps that bring a formula onto one line keep every foreign character but two: the sign of a
subscript goes when the base of a logarithm is read, and the mark of a parked function comes with
its name and goes when the function is written out.
-/

namespace TexCalc

namespace Text

variable {c : Char} (foreign : isForeign c = true)

/-! ## Before commands are renamed -/

section

include foreign

theorem count_of_argument {text : Text} {argument : Argument}
    (found : Argument.read? text = some argument) :
    text.count c = argument.text.count c + argument.rest.count c := by
  have skipped := count_skipBlanks_of_isForeign foreign text
  simp only [Argument.read?] at found
  split at found
  · cases found
  · rename_i d rest start
    rw [start] at skipped
    split at found
    · rename_i brace
      obtain ⟨group, isGroup, rfl⟩ := Option.map_eq_some_iff.1 found
      rw [← skipped, brace, count_cons_of_known foreign (by decide),
        count_of_group? foreign isGroup]
    · split at found
      · rename_i back
        obtain ⟨control, isControl, rfl⟩ := Option.map_eq_some_iff.1 found
        rw [← skipped, back, Control.eq_of_read? isControl, ← List.count_append]
        rfl
      · split at found
        · cases found
        · cases found
          rw [← skipped, ← List.count_append, List.singleton_append]

theorem count_of_optionalArgument {text : Text} {argument : Argument}
    (found : Argument.readOptional? text = some argument) :
    text.count c = argument.text.count c + argument.rest.count c := by
  have skipped := count_skipBlanks_of_isForeign foreign text
  simp only [Argument.readOptional?] at found
  split at found
  · rename_i rest start
    rw [start] at skipped
    obtain ⟨group, isGroup, rfl⟩ := Option.map_eq_some_iff.1 found
    rw [← skipped, count_cons_of_known foreign (by decide), count_of_group? foreign isGroup]
  · cases found

theorem count_of_bareArgument? {vocabulary : Vocabulary} {text : Text} {argument : Cut}
    (found : text.bareArgument? vocabulary = some argument) :
    text.count c = argument.text.count c + argument.rest.count c := by
  have skipped := count_skipBlanks_of_isForeign foreign text
  simp only [bareArgument?] at found
  split at found
  · cases found
  · rename_i d rest start
    rw [start] at skipped
    split at found
    · rename_i bracket opens
      obtain ⟨group, isGroup, rfl⟩ := Option.map_eq_some_iff.1 found
      rw [← skipped, count_cons_of_group? foreign opens isGroup]
    · obtain ⟨after, isAfter, rfl⟩ := Option.map_eq_some_iff.1 found
      obtain ⟨lead, split⟩ := (passes_of_afterBareArgument? isAfter).suffix
      rw [← skipped, Cut.upTo, ← split, before_append, List.count_append]

end

end Text

namespace Structure

variable {c : Char} (foreign : isForeign c = true)

include foreign

/-- The characters of a structure on one line. -/
theorem count_linear (structured : Structure) :
    structured.linear.count c =
      match structured with
      | fraction numerator denominator => numerator.count c + denominator.count c
      | root radicand => radicand.count c
      | indexedRoot index radicand => index.count c + radicand.count c := by
  have known (text : Text) (all : text.all (!isForeign ·) = true) :=
    Text.count_eq_zero_of_all foreign all
  cases structured with
  | fraction numerator denominator =>
      simp only [linear, List.count_append, Text.count_parenthesized_of_isForeign foreign,
        Text.count_wrap_of_isForeign foreign,
        Text.count_cons_of_known foreign (show isForeign '/' = false by decide)]
  | root radicand =>
      simp only [linear, List.count_append, Text.count_parenthesized_of_isForeign foreign,
        Text.count_trim_of_isForeign foreign, known "sqrt".toList (by decide),
        Nat.zero_add]
  | indexedRoot index radicand =>
      simp only [linear, List.count_append, Text.count_parenthesized_of_isForeign foreign,
        Text.count_wrap_of_isForeign foreign, known "1/".toList (by decide),
        Text.count_cons_of_known foreign (show isForeign '^' = false by decide), Nat.zero_add]
      exact Nat.add_comm _ _

/-- A structure has the characters that stood after its command. -/
theorem count_of_read? {name text after : Text} {found : Structure}
    (isRead : read? name text = some (found, after)) :
    found.linear.count c + after.count c = text.count c := by
  have linear := count_linear foreign found
  simp only [read?] at isRead
  split at isRead
  · obtain ⟨numerator, isNumerator, isRead⟩ := Option.bind_eq_some_iff.1 isRead
    obtain ⟨denominator, isDenominator, same⟩ := Option.map_eq_some_iff.1 isRead
    cases same
    rw [linear, Text.count_of_argument foreign isNumerator,
      Text.count_of_argument foreign isDenominator, Nat.add_assoc]
  · split at isRead
    · simp only [readRoot?] at isRead
      split at isRead
      · obtain ⟨index, isIndex, isRead⟩ := Option.bind_eq_some_iff.1 isRead
        obtain ⟨radicand, isRadicand, same⟩ := Option.map_eq_some_iff.1 isRead
        cases same
        rw [linear, Text.count_of_optionalArgument foreign isIndex,
          Text.count_of_argument foreign isRadicand, Nat.add_assoc]
      · obtain ⟨radicand, isRadicand, same⟩ := Option.map_eq_some_iff.1 isRead
        cases same
        rw [linear, Text.count_of_argument foreign isRadicand]
    · cases isRead

theorem count_resolveLast? {text resolved : Text}
    (found : resolveLast? text.pieces = some resolved) : resolved.count c = text.count c := by
  apply resolveLast?_induct (motive := fun text resolved => resolved.count c = text.count c) _ _ _
    found
  · intro rest control structured after isControl isRead
    have name : control.name.count c = 0 := by
      have isName := isName_of_read? isRead
      simp only [IsName, Command.isFraction, Command.isRoot, Bool.or_eq_true,
        decide_eq_true_eq] at isName
      apply Text.count_eq_zero_of_all foreign
      rcases isName with ((same | same) | same) | same <;> rw [same] <;> decide
    rw [List.count_append, count_of_read? foreign isRead,
      Text.count_cons_of_known foreign (by decide), Control.eq_of_read? isControl,
      List.count_append, name, Nat.zero_add]
  · intro rest control inner isControl ih
    conv => rhs; rw [Control.eq_of_read? isControl]
    rw [List.count_cons, List.count_cons, List.count_append, List.count_append, ih]
  · intro d rest inner _ ih
    rw [List.count_cons, List.count_cons, ih]

theorem count_resolveUpTo (rounds : Nat) (text : Text) :
    (resolveUpTo rounds text).count c = text.count c := by
  apply resolveUpTo_induct (motive := fun resolved => resolved.count c = text.count c) _ _ rfl
  intro later resolved found kept
  exact (count_resolveLast? foreign found).trans kept

end Structure

namespace Text

variable {c : Char} (foreign : isForeign c = true)

section

include foreign

theorem count_resolveStructures (text : Text) :
    text.resolveStructures.count c = text.count c :=
  Structure.count_resolveUpTo foreign _ text

theorem count_of_afterMinusOne? {text rest : Text} (found : text.afterMinusOne? = some rest) :
    text.count c = rest.count c := by
  suffices steps : ∀ (marks : List Char) (text : Text), marks.all (!isForeign ·) = true →
      marks.foldlM (fun rest c => dropLead? (trimStart rest) [c]) text = some rest →
        text.count c = rest.count c from steps _ text (by decide) found
  intro marks
  induction marks with
  | nil =>
      intro text _ same
      cases same
      rfl
  | cons mark marks ih =>
      intro text known folded
      rw [List.foldlM_cons] at folded
      obtain ⟨after, isAfter, isRest⟩ := Option.bind_eq_some_iff.1 folded
      rw [List.all_cons, Bool.and_eq_true, Bool.not_eq_true'] at known
      rw [← count_trimStart_of_isForeign foreign, dropLead?_eq_some_iff.1 isAfter,
        List.singleton_append, count_cons_of_known foreign known.1, ih after known.2 isRest]

/-- Where an inverse function begins, its name is all that is new. -/
theorem count_rest_of_inverseMark? {text : Text} {inverse : Cut}
    (found : text.inverseMark? = some inverse) : inverse.rest.count c = text.count c := by
  obtain ⟨name, isName, rest, rfl, isAfter, _⟩ := exists_of_inverseMark? found
  have known : ∀ name ∈ trigonometric, name.all (!isForeign ·) = true := by decide
  rw [count_cons_of_known foreign (by decide), List.count_append,
    count_eq_zero_of_all foreign (known name isName), Nat.zero_add,
    count_of_afterMinusOne? foreign isAfter]

/-- The name of an inverse function has no foreign character but a mark. -/
theorem count_text_of_inverseMark? (other : c ≠ Parked.mark) {text : Text} {inverse : Cut}
    (found : text.inverseMark? = some inverse) : inverse.text.count c = 0 := by
  obtain ⟨name, isName, _, _, _, isInverse⟩ := exists_of_inverseMark? found
  have known : ∀ name ∈ trigonometric, ∀ inverse ∈ Command.inverse? name,
      inverse.all (fun c => c == Parked.mark || !isForeign c) = true := by
    decide
  rw [List.count_eq_zero]
  intro isMember
  have here := List.all_eq_true.1 (known name isName inverse.text isInverse) c isMember
  simp [other, foreign] at here

theorem count_resolveInverses (other : c ≠ Parked.mark) (vocabulary : Vocabulary) (text : Text) :
    (text.resolveInverses vocabulary).count c = text.count c := by
  have blank := count_cons_of_known foreign (show isForeign ' ' = false by decide)
  fun_induction resolveInverses vocabulary text with
  | case1 => rfl
  | case2 d rest _ ih => rw [List.count_cons, List.count_cons, ih]
  | case3 d rest inverse isMark argument isArgument ih =>
      rw [← count_rest_of_inverseMark? foreign isMark, count_of_bareArgument? foreign isArgument,
        ← ih, List.count_append, List.cons_append, blank, List.count_append,
        count_text_of_inverseMark? foreign other isMark, count_parenthesized_of_isForeign foreign,
        Nat.zero_add]
  | case4 d rest inverse isMark _ ih =>
      rw [← count_rest_of_inverseMark? foreign isMark, ← ih, List.cons_append, blank,
        List.count_append, count_text_of_inverseMark? foreign other isMark, blank, Nat.zero_add]

theorem count_of_logFunction? {base function : Text} (found : logFunction? base = some function) :
    function.count c = 0 ∧ base.count c = 0 := by
  have known (text : Text) (all : text.all (!isForeign ·) = true) :=
    count_eq_zero_of_all foreign all
  simp only [logFunction?] at found
  split at found
  · rename_i ten
    cases found
    exact ⟨known _ (by decide), ten ▸ known _ (by decide)⟩
  · split at found
    · rename_i euler
      cases found
      exact ⟨known _ (by decide), euler ▸ known _ (by decide)⟩
    · cases found

theorem count_logOf (base argument : Text) :
    (logOf base argument).count c = argument.count c + base.count c := by
  have known (text : Text) (all : text.all (!isForeign ·) = true) :=
    count_eq_zero_of_all foreign all
  have blank := count_cons_of_known foreign (show isForeign ' ' = false by decide)
  simp only [logOf]
  split
  · rename_i function found
    simp only [List.cons_append, List.count_append, blank,
      count_parenthesized_of_isForeign foreign, count_of_logFunction? foreign found,
      Nat.zero_add, Nat.add_zero]
  · simp only [List.count_append, blank, count_parenthesized_of_isForeign foreign,
      known "log".toList (by decide), known "/log".toList (by decide), Nat.zero_add, Nat.add_zero]

theorem count_bareLog (base : Text) : (bareLog base).count c = base.count c := by
  have known (text : Text) (all : text.all (!isForeign ·) = true) :=
    count_eq_zero_of_all foreign all
  have blank := count_cons_of_known foreign (show isForeign ' ' = false by decide)
  simp only [bareLog]
  split
  · rename_i function found
    simp only [List.cons_append, List.count_append, blank, List.count_nil,
      count_of_logFunction? foreign found, Nat.zero_add]
  · simp only [List.cons_append, List.count_append, blank,
      count_parenthesized_of_isForeign foreign, known "1/log".toList (by decide),
      known "* log ".toList (by decide), Nat.zero_add, Nat.add_zero]

theorem count_of_logBase? {text : Text} {base : Argument}
    (found : text.afterLogMark?.bind Argument.read? = some base) :
    text.count c = (if c = '_' then 1 else 0) + (base.text.count c + base.rest.count c) := by
  obtain ⟨blanks, after, rfl, allBlank, isBase⟩ := exists_of_logBase? found
  have script : List.count c ('_' :: after) = (if c = '_' then 1 else 0) + after.count c := by
    by_cases same : c = '_'
    · rw [if_pos same, same, List.count_cons_self, Nat.add_comm]
    · rw [if_neg same, List.count_cons_of_ne (Ne.symm same), Nat.zero_add]
  rw [List.count_append, count_eq_zero_of_all foreign (by decide), List.count_append,
    count_eq_zero_of_isAllBlank (isBlank_eq_false_of_isForeign foreign) allBlank, script,
    count_of_argument foreign isBase, Nat.zero_add, Nat.zero_add]

/-- Every base that is read takes the sign of its subscript with it, and nothing else goes. -/
theorem count_resolveLogBases (vocabulary : Vocabulary) (text : Text) :
    text.count c = (text.resolveLogBases vocabulary).count c +
      if c = '_' then (text.logBases vocabulary).length else 0 := by
  fun_induction resolveLogBases vocabulary text with
  | case1 => simp [logBases]
  | case2 d rest isNone ih =>
      rw [logBases_cons_of_none isNone, List.count_cons, List.count_cons, ih]
      omega
  | case3 d rest base isBase argument isArgument ih =>
      rw [logBases_cons_of_argument isBase isArgument, count_of_logBase? foreign isBase,
        count_of_bareArgument? foreign isArgument, ih, List.count_append, count_logOf foreign,
        count_trim_of_isForeign foreign, List.length_cons]
      split <;> omega
  | case4 d rest base isBase isNone ih =>
      rw [logBases_cons_of_bare isBase isNone, count_of_logBase? foreign isBase, ih,
        List.count_append, count_bareLog foreign, count_trim_of_isForeign foreign,
        List.length_cons]
      split <;> omega

/-- Up to the renaming no foreign character but a mark is new. -/
theorem count_beforeRenaming_le (other : c ≠ Parked.mark) (vocabulary : Vocabulary) (text : Text) :
    (text.beforeRenaming vocabulary).count c ≤ text.count c := by
  have based := count_resolveLogBases foreign vocabulary
    (text.resolveStructures.resolveInverses vocabulary)
  rw [count_resolveInverses foreign other, count_resolveStructures foreign] at based
  exact Nat.le.intro based.symm

end

end Text

end TexCalc
