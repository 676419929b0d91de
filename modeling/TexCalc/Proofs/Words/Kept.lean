import TexCalc.Proofs.Words.Cut
import TexCalc.Linear.Inverse
import TexCalc.Linear.LogBase
import TexCalc.Linear.Structure

/-!
# Which control words the first three steps keep

Fractions and roots, inverse functions and logarithms with a base are replaced before any
command is renamed.  Each of the three steps moves whole arguments and puts them between
characters that belong to no word.  No step makes a control word that was not there, and
each loses only the words of the commands that it replaces.
-/

namespace TexCalc

/-- Between two texts no control word has come into being, and none is lost but those that
`mayLose` allows. -/
structure KeepsWords (mayLose : Text → Prop) (text after : Text) : Prop where
  old : ∀ name ∈ after.words, name ∈ text.words
  kept : ∀ name ∈ text.words, ¬ mayLose name → name ∈ after.words

namespace KeepsWords

variable {mayLose : Text → Prop} {text middle after : Text}

theorem refl (mayLose : Text → Prop) (text : Text) : KeepsWords mayLose text text :=
  ⟨fun _ isMember => isMember, fun _ isMember _ => isMember⟩

theorem trans (first : KeepsWords mayLose text middle)
    (second : KeepsWords mayLose middle after) : KeepsWords mayLose text after :=
  ⟨fun name isMember => first.old name (second.old name isMember),
    fun name isMember stays => second.kept name (first.kept name isMember stays) stays⟩

theorem mono {mayLoseMore : Text → Prop} (keeps : KeepsWords mayLose text after)
    (more : ∀ name, mayLose name → mayLoseMore name) : KeepsWords mayLoseMore text after :=
  ⟨keeps.old, fun name isMember stays => keeps.kept name isMember fun lost => stays (more name lost)⟩

theorem hasWordsOnly (keeps : KeepsWords mayLose text after) (only : text.HasWordsOnly) :
    after.HasWordsOnly :=
  fun isMember => only (keeps.old _ isMember)

/-- A text in front of which the same words stand. -/
theorem of_words_eq {front textWords afterWords : List Text}
    (before : text.words = front ++ textWords) (now : after.words = front ++ afterWords)
    (old : ∀ name ∈ afterWords, name ∈ textWords)
    (kept : ∀ name ∈ textWords, ¬ mayLose name → name ∈ afterWords) :
    KeepsWords mayLose text after := by
  constructor
  · intro name isMember
    rw [now, List.mem_append] at isMember
    rw [before, List.mem_append]
    exact isMember.imp_right (old name)
  · intro name isMember stays
    rw [before, List.mem_append] at isMember
    rw [now, List.mem_append]
    exact isMember.imp_right fun later => kept name later stays

/-- A character in front, when it is followed by the same letters as before. -/
theorem cons (c : Char) (keeps : KeepsWords mayLose text after)
    (same : after.takeWhile Char.isAlpha = text.takeWhile Char.isAlpha) :
    KeepsWords mayLose (c :: text) (c :: after) := by
  by_cases back : c = '\\'
  · subst back
    have before : Text.words ('\\' :: text) = [text.takeWhile Char.isAlpha] ++ text.words := rfl
    have now : Text.words ('\\' :: after) = [text.takeWhile Char.isAlpha] ++ after.words := by
      rw [Text.words_cons_backslash, same]
      rfl
    exact .of_words_eq before now keeps.old keeps.kept
  · have before : Text.words (c :: text) = [] ++ text.words := Text.words_cons_of_ne back text
    have now : Text.words (c :: after) = [] ++ after.words := Text.words_cons_of_ne back after
    exact .of_words_eq before now keeps.old keeps.kept

end KeepsWords

/-! ## Fractions and roots -/

namespace Structure

/-- The names of the commands for structures. -/
def IsName (name : Text) : Prop :=
  (Command.isFraction name || Command.isRoot name) = true

instance (name : Text) : Decidable (IsName name) :=
  inferInstanceAs (Decidable (_ = true))

/-- A fraction on one line has the words of its two arguments. -/
theorem words_fraction_append (numerator denominator right : Text) :
    ((fraction numerator denominator).linear ++ right).words =
      numerator.words ++ (denominator.words ++ right.words) := by
  rw [linear, Text.words_parenthesized_append,
    Text.words_append_cons (by decide) (by decide), Text.words_wrap, Text.words_wrap,
    List.append_assoc]

theorem words_root_append (radicand right : Text) :
    ((root radicand).linear ++ right).words = radicand.words ++ right.words := by
  rw [linear, Text.words_parenthesized_append, Text.words_append_of_not_mem (by decide),
    Text.words_parenthesized, Text.words_trim]

theorem words_indexedRoot_append (index radicand right : Text) :
    ((indexedRoot index radicand).linear ++ right).words =
      radicand.words ++ (index.words ++ right.words) := by
  rw [linear, Text.words_parenthesized_append,
    Text.words_append_cons (by decide) (by decide), Text.words_parenthesized,
    Text.words_append_of_not_mem (by decide), Text.words_wrap, Text.words_wrap,
    List.append_assoc]

theorem mem_words_readFraction? {text after : Text} {found : Structure} {word : Text}
    (only : text.HasWordsOnly) (isRead : readFraction? text = some (found, after)) :
    word ∈ (found.linear ++ after).words ↔ word ∈ text.words := by
  obtain ⟨numerator, isNumerator, isRead⟩ := Option.bind_eq_some_iff.1 isRead
  obtain ⟨denominator, isDenominator, same⟩ := Option.map_eq_some_iff.1 isRead
  cases same
  rw [words_fraction_append, Text.words_of_argument only isNumerator,
    Text.words_of_argument (only.of_argument isNumerator) isDenominator]

theorem mem_words_readRoot? {text after : Text} {found : Structure} {word : Text}
    (only : text.HasWordsOnly) (isRead : readRoot? text = some (found, after)) :
    word ∈ (found.linear ++ after).words ↔ word ∈ text.words := by
  simp only [readRoot?] at isRead
  split at isRead
  · obtain ⟨index, isIndex, isRead⟩ := Option.bind_eq_some_iff.1 isRead
    obtain ⟨radicand, isRadicand, same⟩ := Option.map_eq_some_iff.1 isRead
    cases same
    rw [words_indexedRoot_append, Text.words_of_optionalArgument isIndex,
      Text.words_of_argument (only.of_optionalArgument isIndex) isRadicand]
    simp only [List.mem_append]
    exact or_left_comm
  · obtain ⟨radicand, isRadicand, same⟩ := Option.map_eq_some_iff.1 isRead
    cases same
    rw [words_root_append, Text.words_of_argument only isRadicand]

/-- A structure put on one line has the words that stood after its command. -/
theorem mem_words_read? {name text after : Text} {found : Structure} {word : Text}
    (only : text.HasWordsOnly) (isRead : read? name text = some (found, after)) :
    word ∈ (found.linear ++ after).words ↔ word ∈ text.words := by
  simp only [read?] at isRead
  split at isRead
  · exact mem_words_readFraction? only isRead
  · split at isRead
    · exact mem_words_readRoot? only isRead
    · cases isRead

theorem isName_of_read? {name text : Text} {found : Structure × Text}
    (isRead : read? name text = some found) : IsName name := by
  simp only [read?] at isRead
  split at isRead
  · rename_i fraction
    simp [IsName, fraction]
  · split at isRead
    · rename_i root
      simp [IsName, root]
    · cases isRead

/-- A structure on one line begins with a parenthesis. -/
theorem endsWord_linear_append (found : Structure) (right : Text) :
    (found.linear ++ right).endsWord = true := by
  cases found <;> rfl

/-- One replacement loses one command for a structure and no other word. -/
theorem keepsWords_resolveLast? {text resolved : Text} (only : text.HasWordsOnly)
    (found : resolveLast? text.pieces = some resolved) :
    KeepsWords IsName text resolved ∧
      (text.endsWord = true → resolved.endsWord = true) := by
  revert only
  apply resolveLast?_induct (motive := fun text resolved => text.HasWordsOnly →
    KeepsWords IsName text resolved ∧ (text.endsWord = true → resolved.endsWord = true)) _ _ _ found
  · intro rest control structured after isControl isRead only
    have within := Text.words_of_control only isControl
    have later := only.of_control isControl
    refine ⟨⟨?_, ?_⟩, fun _ => endsWord_linear_append structured after⟩
    · intro word isMember
      rw [within]
      exact List.mem_cons_of_mem _ ((mem_words_read? later isRead).1 isMember)
    · intro word isMember stays
      rw [within, List.mem_cons] at isMember
      rcases isMember with rfl | isMember
      · exact absurd (isName_of_read? isRead) stays
      · exact (mem_words_read? later isRead).2 isMember
  · intro rest control inner isControl ih only
    have within := Text.words_of_control only isControl
    obtain ⟨_, letters, ends, _⟩ := Text.control_of_hasWordsOnly only isControl
    obtain ⟨keeps, stillEnds⟩ := ih (only.of_control isControl)
    refine ⟨?_, fun _ => rfl⟩
    have now : Text.words ('\\' :: (control.name ++ inner)) = [control.name] ++ inner.words := by
      rw [Text.words_cons_backslash, Text.words_of_all_isAlpha letters,
        List.takeWhile_append_of_pos (List.all_eq_true.1 letters),
        Text.takeWhile_eq_nil_of_endsWord (stillEnds ends), List.append_nil]
      rfl
    exact .of_words_eq within now keeps.old keeps.kept
  · intro c rest inner plain ih only
    obtain ⟨keeps, _⟩ := ih only.tail
    refine ⟨?_, fun ends => ends⟩
    have now : Text.words (c :: inner) = [] ++ inner.words := Text.words_cons_of_ne plain inner
    exact .of_words_eq (Text.words_cons_of_ne plain rest) now keeps.old keeps.kept

theorem keepsWords_resolveUpTo (rounds : Nat) {text : Text} (only : text.HasWordsOnly) :
    KeepsWords IsName text (resolveUpTo rounds text) := by
  apply resolveUpTo_induct (motive := KeepsWords IsName text) _ _ (.refl _ _)
  intro later resolved found kept
  exact kept.trans (keepsWords_resolveLast? (kept.hasWordsOnly only) found).1

end Structure

namespace Text

/-- The resolution of structures loses no other words than the commands for structures. -/
theorem keepsWords_resolveStructures {text : Text} (only : text.HasWordsOnly) :
    KeepsWords Structure.IsName text text.resolveStructures :=
  Structure.keepsWords_resolveUpTo _ only

/-! ## Inverse functions -/

/-- What stands between a command and the end of its `^{-1}` are no words. -/
theorem dropsPlain_of_afterMinusOne? {text rest : Text}
    (found : text.afterMinusOne? = some rest) :
    text.DropsPlain rest ∧ text.endsWord = true := by
  have step (mark : Char) (text after : Text)
      (isAfter : dropLead? text.trimStart [mark] = some after) (other : mark ≠ '\\') :
      text.DropsPlain after := by
    have trimmed : text.DropsPlain text.trimStart := .dropWhile (by decide) text
    rw [dropLead?_eq_some_iff.1 isAfter] at trimmed
    exact trimmed.trans ((DropsPlain.refl after).cons other)
  have steps : ∀ (marks : List Char) (text : Text), '\\' ∉ marks →
      marks.foldlM (fun rest c => dropLead? (trimStart rest) [c]) text = some rest →
        text.DropsPlain rest := by
    intro marks
    induction marks with
    | nil =>
        intro text _ same
        cases same
        exact .refl _
    | cons mark marks ih =>
        intro text others folded
        rw [List.foldlM_cons] at folded
        obtain ⟨after, isAfter, isRest⟩ := Option.bind_eq_some_iff.1 folded
        simp only [List.mem_cons, not_or] at others
        exact (step mark text after isAfter (Ne.symm others.1)).trans (ih after others.2 isRest)
  refine ⟨steps _ text (by decide) found, ?_⟩
  rw [afterMinusOne?, List.foldlM_cons] at found
  obtain ⟨after, isAfter, _⟩ := Option.bind_eq_some_iff.1 found
  have caret := dropLead?_eq_some_iff.1 isAfter
  cases text with
  | nil => rfl
  | cons c text =>
      cases blank : isBlank c with
      | true => simp [endsWord, endsRun, (not_isAlpha_of_isBlank blank).1]
      | false =>
          rw [trimStart_eq_of_head blank] at caret
          cases caret
          rfl

/-- The command, its exponent and the text after it, where an inverse function begins. -/
theorem words_of_inverseMark? {text : Text} {mark : Cut}
    (found : text.inverseMark? = some mark) :
    ∃ name ∈ trigonometric, text.words = name :: mark.rest.words ∧
      text.endsWord = true ∧ '\\' ∉ mark.text := by
  obtain ⟨name, isName, rest, rfl, isAfter, isInverse⟩ := exists_of_inverseMark? found
  obtain ⟨drops, ends⟩ := dropsPlain_of_afterMinusOne? isAfter
  have letters : ∀ name ∈ trigonometric, name.all Char.isAlpha = true := by decide
  have plain : ∀ name ∈ trigonometric, ∀ inverse ∈ Command.inverse? name, '\\' ∉ inverse := by
    decide
  refine ⟨name, isName, ?_, rfl, plain name isName mark.text isInverse⟩
  rw [words_cons_backslash,
    List.takeWhile_append_of_pos (List.all_eq_true.1 (letters name isName)),
    takeWhile_eq_nil_of_endsWord ends, List.append_nil,
    words_of_all_isAlpha (letters name isName), drops.words_eq]

theorem HasWordsOnly.of_inverseMark? {text : Text} {mark : Cut} (only : text.HasWordsOnly)
    (found : text.inverseMark? = some mark) : mark.rest.HasWordsOnly := by
  obtain ⟨_, _, words, _, _⟩ := words_of_inverseMark? found
  exact fun isMember => only (words ▸ List.mem_cons_of_mem _ isMember)

/-- Letters in front of a command stay in front of its inverse function. -/
theorem takeWhile_resolveInverses (vocabulary : Vocabulary) (text : Text) :
    (text.resolveInverses vocabulary).takeWhile Char.isAlpha =
      text.takeWhile Char.isAlpha := by
  fun_induction resolveInverses vocabulary text with
  | case1 => rfl
  | case2 c rest _ ih => simp only [List.takeWhile_cons, ih]
  | case3 c rest mark isMark argument _ _ =>
      obtain ⟨_, _, _, ends, _⟩ := words_of_inverseMark? isMark
      rw [takeWhile_eq_nil_of_endsWord ends]
      rfl
  | case4 c rest mark isMark _ _ =>
      obtain ⟨_, _, _, ends, _⟩ := words_of_inverseMark? isMark
      rw [takeWhile_eq_nil_of_endsWord ends]
      rfl

/-- Inverse functions take the place of no other words than their own commands. -/
theorem keepsWords_resolveInverses (vocabulary : Vocabulary) {text : Text}
    (only : text.HasWordsOnly) :
    KeepsWords (· ∈ trigonometric) text (text.resolveInverses vocabulary) := by
  fun_induction resolveInverses vocabulary text with
  | case1 => exact .refl _ _
  | case2 c rest _ ih =>
      exact (ih only.tail).cons c (takeWhile_resolveInverses vocabulary rest)
  | case3 c rest mark isMark argument isArgument ih =>
      obtain ⟨name, isTrigonometric, before, _, plain⟩ := words_of_inverseMark? isMark
      have onlyMark := only.of_inverseMark? isMark
      have argumentWords := words_of_bareArgument? onlyMark isArgument
      have keeps := ih (onlyMark.of_bareArgument? isArgument)
      have now : words (' ' :: mark.text ++ argument.text.parenthesized ++
          argument.rest.resolveInverses vocabulary) =
            argument.text.words ++ (argument.rest.resolveInverses vocabulary).words := by
        rw [List.append_assoc, List.cons_append, words_cons_of_ne (by decide),
          words_append_of_not_mem plain, words_parenthesized_append]
      constructor
      · intro word isMember
        rw [now, List.mem_append] at isMember
        rw [before, argumentWords, List.mem_cons, List.mem_append]
        exact Or.inr (isMember.imp_right (keeps.old word))
      · intro word isMember stays
        rw [before, argumentWords, List.mem_cons, List.mem_append] at isMember
        rw [now, List.mem_append]
        rcases isMember with rfl | isMember
        · exact absurd isTrigonometric stays
        · exact isMember.imp_right fun later => keeps.kept word later stays
  | case4 c rest mark isMark isNone ih =>
      obtain ⟨name, isTrigonometric, before, _, plain⟩ := words_of_inverseMark? isMark
      have keeps := ih (only.of_inverseMark? isMark)
      have now : words (' ' :: mark.text ++ ' ' :: mark.rest.resolveInverses vocabulary) =
          (mark.rest.resolveInverses vocabulary).words := by
        rw [List.cons_append, words_cons_of_ne (by decide), words_append_of_not_mem plain,
          words_cons_of_ne (by decide)]
      constructor
      · intro word isMember
        rw [now] at isMember
        rw [before]
        exact List.mem_cons_of_mem _ (keeps.old word isMember)
      · intro word isMember stays
        rw [before, List.mem_cons] at isMember
        rw [now]
        rcases isMember with rfl | isMember
        · exact absurd isTrigonometric stays
        · exact keeps.kept word isMember stays

/-! ## Logarithms with a base -/

/-- A text that begins with `\log` and a subscript has the name and then the words of the
text after the sign of the subscript. -/
theorem words_of_afterLogMark? {text rest : Text} (found : text.afterLogMark? = some rest) :
    text.words = "log".toList :: rest.words ∧ text.endsWord = true := by
  obtain ⟨after, isAfter, isRest⟩ := Option.bind_eq_some_iff.1 found
  have mark := dropLead?_eq_some_iff.1 isRest
  have drops : after.DropsPlain rest := by
    have trimmed : after.DropsPlain after.trimStart := .dropWhile (by decide) after
    rw [mark] at trimmed
    exact trimmed.trans ((DropsPlain.refl rest).cons (by decide))
  have ends : after.endsWord = true := by
    cases after with
    | nil => rfl
    | cons c after =>
        cases blank : isBlank c with
        | true => simp [endsWord, endsRun, (not_isAlpha_of_isBlank blank).1]
        | false =>
            rw [trimStart_eq_of_head blank] at mark
            cases mark
            rfl
  have letters : ("log".toList).all Char.isAlpha = true := by decide
  have split : text = '\\' :: ("log".toList ++ after) := dropLead?_eq_some_iff.1 isAfter
  subst split
  refine ⟨?_, rfl⟩
  rw [words_cons_backslash, List.takeWhile_append_of_pos (List.all_eq_true.1 letters),
    takeWhile_eq_nil_of_endsWord ends, List.append_nil, words_of_all_isAlpha letters,
    drops.words_eq]

/-- A base with a target function of its own holds no control word. -/
theorem not_mem_of_logFunction? {base function : Text}
    (found : logFunction? base = some function) : '\\' ∉ base ∧ '\\' ∉ function := by
  simp only [logFunction?] at found
  split at found
  · rename_i isTen
    cases found
    exact ⟨isTen ▸ by decide, by decide⟩
  · split at found
    · rename_i isEuler
      cases found
      exact ⟨isEuler ▸ by decide, by decide⟩
    · cases found

theorem words_logOf_append (base argument right : Text) :
    (logOf base argument ++ right).words = argument.words ++ (base.words ++ right.words) := by
  simp only [logOf]
  split
  · rename_i function found
    obtain ⟨basePlain, functionPlain⟩ := not_mem_of_logFunction? found
    rw [words_of_not_mem basePlain, List.nil_append, List.append_assoc, List.cons_append,
      words_cons_of_ne (by decide), words_append_of_not_mem functionPlain,
      words_parenthesized_append]
  · rw [List.cons_append, words_cons_of_ne (by decide), words_parenthesized_append,
      List.append_assoc, List.append_assoc, words_append_of_not_mem (by decide),
      words_parenthesized_append, words_append_of_not_mem (by decide), words_parenthesized,
      List.append_assoc]

theorem words_bareLog_append (base right : Text) :
    (bareLog base ++ right).words = base.words ++ right.words := by
  simp only [bareLog]
  split
  · rename_i function found
    obtain ⟨basePlain, functionPlain⟩ := not_mem_of_logFunction? found
    rw [words_of_not_mem basePlain, List.nil_append, List.append_assoc, List.cons_append,
      words_cons_of_ne (by decide), words_append_of_not_mem functionPlain,
      List.singleton_append, words_cons_of_ne (by decide)]
  · rw [List.append_assoc, List.cons_append, words_cons_of_ne (by decide),
      words_parenthesized_append, words_append_of_not_mem (by decide), words_parenthesized,
      words_append_of_not_mem (by decide)]

/-- The mark of a logarithm and its base. -/
theorem words_of_logBase? {text : Text} {base : Argument} (only : text.HasWordsOnly)
    (found : text.afterLogMark?.bind Argument.read? = some base) :
    text.words = "log".toList :: (base.text.words ++ base.rest.words) ∧
      text.endsWord = true := by
  obtain ⟨after, isAfter, isBase⟩ := Option.bind_eq_some_iff.1 found
  obtain ⟨before, ends⟩ := words_of_afterLogMark? isAfter
  have onlyAfter : after.HasWordsOnly :=
    fun isMember => only (before ▸ List.mem_cons_of_mem _ isMember)
  exact ⟨by rw [before, words_of_argument onlyAfter isBase], ends⟩

theorem HasWordsOnly.of_logBase? {text : Text} {base : Argument} (only : text.HasWordsOnly)
    (found : text.afterLogMark?.bind Argument.read? = some base) : base.rest.HasWordsOnly := by
  obtain ⟨words, _⟩ := words_of_logBase? only found
  exact fun isMember =>
    only (words ▸ List.mem_cons_of_mem _ (List.mem_append_right _ isMember))

/-- Letters in front of a logarithm with a base stay in front of it. -/
theorem takeWhile_resolveLogBases (vocabulary : Vocabulary) (text : Text) :
    (text.resolveLogBases vocabulary).takeWhile Char.isAlpha =
      text.takeWhile Char.isAlpha := by
  have begins (base argument right : Text) :
      (logOf base argument ++ right).endsWord = true ∧ (bareLog base ++ right).endsWord = true := by
    simp only [logOf, bareLog]
    constructor <;> split <;> rfl
  fun_induction resolveLogBases vocabulary text with
  | case1 => rfl
  | case2 c rest _ ih => simp only [List.takeWhile_cons, ih]
  | case3 c rest base isBase argument _ _ =>
      obtain ⟨after, isAfter, _⟩ := Option.bind_eq_some_iff.1 isBase
      rw [takeWhile_eq_nil_of_endsWord (words_of_afterLogMark? isAfter).2,
        takeWhile_eq_nil_of_endsWord (begins _ _ _).1]
  | case4 c rest base isBase _ _ =>
      obtain ⟨after, isAfter, _⟩ := Option.bind_eq_some_iff.1 isBase
      rw [takeWhile_eq_nil_of_endsWord (words_of_afterLogMark? isAfter).2,
        takeWhile_eq_nil_of_endsWord (begins _ [] _).2]

/-- Logarithms with a base take the place of no other words than their own commands. -/
theorem keepsWords_resolveLogBases (vocabulary : Vocabulary) {text : Text}
    (only : text.HasWordsOnly) :
    KeepsWords (· = "log".toList) text (text.resolveLogBases vocabulary) := by
  fun_induction resolveLogBases vocabulary text with
  | case1 => exact .refl _ _
  | case2 c rest _ ih =>
      exact (ih only.tail).cons c (takeWhile_resolveLogBases vocabulary rest)
  | case3 c rest base isBase argument isArgument ih =>
      obtain ⟨before, _⟩ := words_of_logBase? only isBase
      have onlyBase := only.of_logBase? isBase
      have argumentWords := words_of_bareArgument? onlyBase isArgument
      have keeps := ih (onlyBase.of_bareArgument? isArgument)
      have now := words_logOf_append base.text.trim argument.text
        (argument.rest.resolveLogBases vocabulary)
      rw [words_trim] at now
      constructor
      · intro word isMember
        rw [now, List.mem_append, List.mem_append, or_left_comm] at isMember
        rw [before, argumentWords, List.mem_cons, List.mem_append, List.mem_append]
        exact Or.inr (isMember.imp_right fun later => later.imp_right (keeps.old word))
      · intro word isMember stays
        rw [before, argumentWords, List.mem_cons, List.mem_append, List.mem_append] at isMember
        rw [now, List.mem_append, List.mem_append, or_left_comm]
        rcases isMember with rfl | isMember
        · exact absurd rfl stays
        · exact isMember.imp_right fun later =>
            later.imp_right fun last => keeps.kept word last stays
  | case4 c rest base isBase isNone ih =>
      obtain ⟨before, _⟩ := words_of_logBase? only isBase
      have keeps := ih (only.of_logBase? isBase)
      have now := words_bareLog_append base.text.trim (base.rest.resolveLogBases vocabulary)
      rw [words_trim] at now
      constructor
      · intro word isMember
        rw [now, List.mem_append] at isMember
        rw [before, List.mem_cons, List.mem_append]
        exact Or.inr (isMember.imp_right (keeps.old word))
      · intro word isMember stays
        rw [before, List.mem_cons, List.mem_append] at isMember
        rw [now, List.mem_append]
        rcases isMember with rfl | isMember
        · exact absurd rfl stays
        · exact isMember.imp_right fun later => keeps.kept word later stays

end Text

end TexCalc
