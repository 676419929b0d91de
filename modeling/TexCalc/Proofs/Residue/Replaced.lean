import TexCalc.Linear.Inverse
import TexCalc.Linear.LogBase
import TexCalc.Linear.Structure
import TexCalc.Proofs.Residue.Concealed
import TexCalc.Proofs.Tex.Lexemes
import TexCalc.Proofs.Words.Leftover

/-!
# Residue while commands are replaced

A command is replaced together with the arguments after it.  An argument is a group, a control
sequence or a character that nothing hides, and what replaces the command ends with a parenthesis
or a blank, so that every residue stays behind its backslash.
-/

namespace TexCalc

namespace Text

variable {hidden : Bool} {text rest : Text}

/-! ## Arguments -/

namespace Conceals

/-- An argument and the text after it. -/
theorem of_argument {argument : Argument} (conceals : Conceals false text)
    (found : Argument.read? text = some argument) :
    Conceals false argument.text ∧ Conceals false argument.rest := by
  have skipped := conceals.skipBlanks
  simp only [Argument.read?] at found
  split at found
  · cases found
  · rename_i c after start
    rw [start] at skipped
    split at found
    · rename_i opens
      obtain ⟨group, isGroup, rfl⟩ := Option.map_eq_some_iff.1 found
      subst opens
      exact (skipped.tail (by decide)).of_group? isGroup
    · split at found
      · rename_i back
        subst back
        obtain ⟨control, isControl, rfl⟩ := Option.map_eq_some_iff.1 found
        have cuts := (CutsOpenly.of_control isControl).conceals skipped
        have source : before ('\\' :: after) control.rest = control.source := by
          rw [Control.eq_of_read? isControl, ← List.cons_append, before_append]
          rfl
        rwa [source] at cuts
      · rename_i plain
        split at found
        · cases found
        · cases found
          exact ⟨⟨skipped.1, trivial⟩, skipped.tail plain⟩

theorem of_optionalArgument {argument : Argument} (conceals : Conceals false text)
    (found : Argument.readOptional? text = some argument) :
    Conceals false argument.text ∧ Conceals false argument.rest := by
  have skipped := conceals.skipBlanks
  simp only [Argument.readOptional?] at found
  split at found
  · rename_i after start
    rw [start] at skipped
    obtain ⟨group, isGroup, rfl⟩ := Option.map_eq_some_iff.1 found
    exact (skipped.tail (by decide)).of_group? isGroup
  · cases found

theorem of_bareArgument? {vocabulary : Vocabulary} {argument : Cut}
    (conceals : Conceals false text) (found : text.bareArgument? vocabulary = some argument) :
    Conceals false argument.text ∧ Conceals false argument.rest := by
  have skipped := conceals.skipBlanks
  simp only [bareArgument?] at found
  split at found
  · cases found
  · rename_i c after start
    rw [start] at skipped
    split at found
    · rename_i bracket opens
      obtain ⟨group, isGroup, rfl⟩ := Option.map_eq_some_iff.1 found
      have plain : c ≠ '\\' := by
        rw [← opener_of_ofArgument? opens]
        exact ne_backslash_of_isClean (isClean_opener bracket)
      exact (skipped.tail plain).of_group? isGroup
    · obtain ⟨later, isLater, rfl⟩ := Option.map_eq_some_iff.1 found
      exact (CutsOpenly.of_passes (passes_of_afterBareArgument? isLater)).conceals skipped

theorem dropLead? {lead : Text} (clean : lead.all isClean = true) (conceals : Conceals false text)
    (found : text.dropLead? lead = some rest) : Conceals false rest := by
  rw [dropLead?_eq_some_iff.1 found] at conceals
  have later := conceals.of_append.2
  rwa [hidesNext_of_clean clean] at later

theorem afterMinusOne? (conceals : Conceals false text)
    (found : text.afterMinusOne? = some rest) : Conceals false rest := by
  suffices steps : ∀ (marks : List Char) (text : Text), marks.all isClean = true →
      marks.foldlM (fun rest c => Text.dropLead? (trimStart rest) [c]) text = some rest →
        Conceals false text → Conceals false rest from steps _ text (by decide) found conceals
  intro marks
  induction marks with
  | nil =>
      intro text _ same conceals
      cases same
      exact conceals
  | cons mark marks ih =>
      intro text clean folded conceals
      rw [List.all_cons, Bool.and_eq_true] at clean
      rw [List.foldlM_cons] at folded
      obtain ⟨after, isAfter, isRest⟩ := Option.bind_eq_some_iff.1 folded
      have trimmed : Conceals false text.trimStart := conceals.dropWhile (by decide)
      exact ih after clean.2 isRest (trimmed.dropLead? (by simp [clean.1]) isAfter)

/-- What stands behind a command word. -/
theorem of_word {name : Text} (clean : name.all isClean = true) (nonempty : name ≠ [])
    (conceals : Conceals hidden ('\\' :: (name ++ rest))) : Conceals false rest := by
  have later := conceals.2.of_append.2
  rwa [hidesNext_word clean nonempty] at later

end Conceals

end Text

/-! ## Structures -/

namespace Structure

open Text (Conceals CutsOpenly)

variable {name text after resolved : Text} {found : Structure}

/-- A structure ends with a parenthesis, and its arguments keep their residue hidden. -/
theorem conceals_read? (conceals : Conceals false text)
    (isRead : read? name text = some (found, after)) :
    Conceals false (found.linear ++ after) := by
  have quotient : ("1/".toList).all isClean = true := by decide
  have root : ("sqrt".toList).all isClean = true := by decide
  simp only [read?] at isRead
  split at isRead
  · obtain ⟨numerator, isNumerator, isRead⟩ := Option.bind_eq_some_iff.1 isRead
    obtain ⟨denominator, isDenominator, same⟩ := Option.map_eq_some_iff.1 isRead
    cases same
    obtain ⟨above, middle⟩ := conceals.of_argument isNumerator
    obtain ⟨under, later⟩ := middle.of_argument isDenominator
    exact (above.wrap.append_cons (by decide) under.wrap).parenthesized_append later
  · split at isRead
    · simp only [readRoot?] at isRead
      split at isRead
      · obtain ⟨index, isIndex, isRead⟩ := Option.bind_eq_some_iff.1 isRead
        obtain ⟨radicand, isRadicand, same⟩ := Option.map_eq_some_iff.1 isRead
        cases same
        obtain ⟨degree, middle⟩ := conceals.of_optionalArgument isIndex
        obtain ⟨inside, later⟩ := middle.of_argument isRadicand
        have exponent := Conceals.clean_append quotient degree.wrap
        exact (inside.wrap.append_cons (by decide) exponent.parenthesized).parenthesized_append
          later
      · obtain ⟨radicand, isRadicand, same⟩ := Option.map_eq_some_iff.1 isRead
        cases same
        obtain ⟨inside, later⟩ := conceals.of_argument isRadicand
        exact (Conceals.clean_append root inside.trim.parenthesized).parenthesized_append later
    · cases isRead

theorem conceals_resolveLast? (isNext : resolveLast? text.pieces = some resolved)
    (conceals : Conceals false text) : Conceals false resolved := by
  apply resolveLast?_induct
    (motive := fun text resolved => Conceals false text → Conceals false resolved) _ _ _
    isNext conceals
  · intro rest control structured after isControl isRead conceals
    exact conceals_read? ((CutsOpenly.of_control isControl).conceals conceals).2 isRead
  · intro rest control inner isControl ih conceals
    have split := Control.eq_of_read? isControl
    have source : Text.before ('\\' :: rest) control.rest = control.source := by
      rw [split, ← List.cons_append, Text.before_append]
      rfl
    obtain ⟨first, later⟩ := (CutsOpenly.of_control isControl).conceals conceals
    rw [source] at first
    have opens : Text.hidesNext false control.source = false :=
      CutsOpenly.hidesNext_control isControl
    have second : Conceals (Text.hidesNext false control.source) inner := by
      rw [opens]
      exact ih later
    exact first.append second
  · intro c rest inner plain ih conceals
    refine ⟨conceals.1, ?_⟩
    rw [beq_false_of_ne plain]
    exact ih (conceals.tail plain)

end Structure

namespace Text

variable {hidden : Bool} {text rest : Text}

theorem conceals_resolveStructures (conceals : Conceals false text) :
    Conceals false text.resolveStructures :=
  Structure.resolveUpTo_induct (motive := Conceals false)
    (fun _ _ found kept => Structure.conceals_resolveLast? found kept) _ conceals

/-! ## Inverse functions and logarithms -/

theorem clean_of_inverseMark? {mark : Cut} (found : text.inverseMark? = some mark) :
    mark.text.all isClean = true := by
  obtain ⟨name, isName, _, _, _, isInverse⟩ := exists_of_inverseMark? found
  have known : ∀ name ∈ trigonometric, ∀ inverse ∈ Command.inverse? name,
      inverse.all isClean = true := by decide
  exact known name isName mark.text isInverse

theorem conceals_of_inverseMark? {mark : Cut} (found : text.inverseMark? = some mark)
    (conceals : Conceals hidden text) : Conceals false mark.rest := by
  obtain ⟨name, isName, rest, rfl, isAfter, _⟩ := exists_of_inverseMark? found
  have known : ∀ name ∈ trigonometric, name.all isClean = true ∧ name ≠ [] := by decide
  obtain ⟨clean, nonempty⟩ := known name isName
  exact (conceals.of_word clean nonempty).afterMinusOne? isAfter

theorem conceals_resolveInverses (vocabulary : Vocabulary) (conceals : Conceals hidden text) :
    Conceals hidden (text.resolveInverses vocabulary) := by
  fun_induction resolveInverses vocabulary text generalizing hidden with
  | case1 => trivial
  | case2 c rest _ ih => exact ⟨conceals.1, ih conceals.2⟩
  | case3 c rest mark isMark argument isArgument ih =>
      obtain ⟨inside, later⟩ :=
        (conceals_of_inverseMark? isMark conceals).of_bareArgument? isArgument
      rw [List.append_assoc]
      exact .cons (by decide) (.clean_append (clean_of_inverseMark? isMark)
        (inside.parenthesized_append (ih later)))
  | case4 c rest mark isMark _ ih =>
      have later := ih (conceals_of_inverseMark? isMark conceals)
      exact .cons (by decide) (.clean_append (clean_of_inverseMark? isMark)
        (.cons (by decide) later))

theorem conceals_of_logBase? {base : Argument}
    (found : text.afterLogMark?.bind Argument.read? = some base)
    (conceals : Conceals hidden text) :
    Conceals false base.text ∧ Conceals false base.rest := by
  obtain ⟨after, isAfter, isBase⟩ := Option.bind_eq_some_iff.1 found
  obtain ⟨script, isScript, isRest⟩ := Option.bind_eq_some_iff.1 isAfter
  rw [dropLead?_eq_some_iff.1 isScript] at conceals
  have clean : ("log".toList).all isClean = true := by decide
  have behind : Conceals false script := conceals.of_word clean (by decide)
  have trimmed : Conceals false script.trimStart := behind.dropWhile (by decide)
  exact (trimmed.dropLead? (by decide) isRest).of_argument isBase

theorem clean_of_logFunction? {base function : Text} (found : logFunction? base = some function) :
    function.all isClean = true := by
  simp only [logFunction?] at found
  split at found
  · cases found
    decide
  · split at found
    · cases found
      decide
    · cases found

/-- A logarithm ends with a parenthesis. -/
theorem conceals_logOf_append {base argument right : Text} (below : Conceals false base)
    (inside : Conceals false argument) (later : Conceals false right) :
    Conceals hidden (logOf base argument ++ right) := by
  unfold logOf
  split
  · rename_i function found
    rw [List.append_assoc]
    exact .cons (by decide) (.clean_append (clean_of_logFunction? found)
      (inside.parenthesized_append later))
  · have name : ("log".toList).all isClean = true := by decide
    have divided : ("/log".toList).all isClean = true := by decide
    have quotient : Conceals false
        (argument.parenthesized ++ ("/log".toList ++ base.parenthesized)) :=
      inside.parenthesized_append (.clean_append divided below.parenthesized)
    rw [← List.append_assoc] at quotient
    have whole := Conceals.clean_append name quotient
    rw [← List.append_assoc, ← List.append_assoc] at whole
    exact .cons (by decide) (whole.parenthesized_append later)

theorem conceals_bareLog_append {base right : Text} (below : Conceals false base)
    (later : Conceals false right) : Conceals hidden (bareLog base ++ right) := by
  unfold bareLog
  split
  · rename_i function found
    rw [List.append_assoc]
    exact .cons (by decide) (.clean_append (clean_of_logFunction? found)
      (.cons (by decide) later))
  · have divided : ("1/log".toList).all isClean = true := by decide
    have function : ("* log ".toList).all isClean = true := by decide
    have inverse := Conceals.clean_append divided below.parenthesized
    rw [List.append_assoc]
    exact .cons (by decide) (inverse.parenthesized_append (.clean_append function later))

theorem conceals_resolveLogBases (vocabulary : Vocabulary) (conceals : Conceals hidden text) :
    Conceals hidden (text.resolveLogBases vocabulary) := by
  fun_induction resolveLogBases vocabulary text generalizing hidden with
  | case1 => trivial
  | case2 c rest _ ih => exact ⟨conceals.1, ih conceals.2⟩
  | case3 c rest base isBase argument isArgument ih =>
      obtain ⟨below, behind⟩ := conceals_of_logBase? isBase conceals
      obtain ⟨inside, later⟩ := behind.of_bareArgument? isArgument
      exact conceals_logOf_append below.trim inside (ih later)
  | case4 c rest base isBase _ ih =>
      obtain ⟨below, behind⟩ := conceals_of_logBase? isBase conceals
      exact conceals_bareLog_append below.trim (ih behind)

end Text

/-! ## Renaming -/

namespace Command

open Text (Conceals hidesNext)

/-- The name of a control sequence is a word, or a character that its backslash hides. -/
def IsNameOfControl (name : Text) : Prop :=
  name.all Char.isAlpha = true ∧ name ≠ [] ∨ ∃ c, name = [c]

theorem isNameOfControl {text : Text} {control : Control}
    (found : Control.read? text = some control) : IsNameOfControl control.name := by
  rcases Control.isName_of_read? found with ⟨nonempty, letters⟩ | ⟨c, same, _⟩
  · exact .inl ⟨letters, nonempty⟩
  · exact .inr ⟨c, same⟩

/-- A control sequence hides its own name and nothing behind it. -/
theorem conceals_source {name : Text} (isName : IsNameOfControl name) :
    Conceals false ('\\' :: name) ∧ hidesNext false ('\\' :: name) = false := by
  rcases isName with ⟨letters, nonempty⟩ | ⟨c, rfl⟩
  · have clean : name.all isClean = true := List.all_eq_true.2 fun d isMember =>
      isClean_of_isAlphanum (Bool.or_eq_true_iff.2 (.inl (List.all_eq_true.1 letters d isMember)))
    refine ⟨⟨fun residue => absurd residue (by decide), ?_⟩, ?_⟩
    · have alone : Conceals true (name ++ []) := by
        obtain ⟨c, rest, rfl⟩ := List.exists_cons_of_ne_nil nonempty
        rw [List.all_cons, Bool.and_eq_true] at clean
        exact .cons clean.1 (.clean_append clean.2 trivial)
      rwa [List.append_nil] at alone
    · exact Text.hidesNext_word clean nonempty true
  · refine ⟨⟨fun residue => absurd residue (by decide), fun _ => rfl, trivial⟩, ?_⟩
    rw [hidesNext, hidesNext, hidesNext]
    simp

/-- A command that is renamed loses its backslash, and any other stays as it is written. -/
theorem rename_eq_or_clean (options : Options) {name : Text} (isName : IsNameOfControl name) :
    rename options name = '\\' :: name ∨ (rename options name).all isClean = true := by
  have inTable : AllTargets isClean := by decide
  rcases rename_cases options name with kept | ⟨key, command, source, rest, found, other, rfl, form⟩
  · exact .inl kept
  · right
    have letters := all_isAlpha_of_named? found (isName.imp_left And.left)
    have clean : rest.all isClean = true := List.all_eq_true.2 fun d isMember =>
      isClean_of_isAlphanum (Bool.or_eq_true_iff.2 (.inl (List.all_eq_true.1 letters d isMember)))
    rw [form, List.all_append, inTable.all_target options found other, clean]
    rfl

theorem conceals_rename (options : Options) {name : Text} (isName : IsNameOfControl name) :
    Conceals false (rename options name) ∧ hidesNext false (rename options name) = false := by
  rcases rename_eq_or_clean options isName with same | clean
  · rw [same]
    exact conceals_source isName
  · exact ⟨.of_clean clean, Text.hidesNext_of_clean clean⟩

end Command

namespace Text

theorem conceals_renameCommands (options : Options) {text : Text} (conceals : Conceals false text) :
    Conceals false (text.renameCommands options) := by
  unfold renameCommands
  fun_induction pieces text with
  | case1 => trivial
  | case2 rest control isControl ih =>
      obtain ⟨first, opens⟩ := Command.conceals_rename options (Command.isNameOfControl isControl)
      have later := ih ((CutsOpenly.of_control isControl).conceals conceals).2
      have second : Conceals (hidesNext false (Command.rename options control.name))
          (control.rest.pieces.flatMap (Piece.rename options)) := by
        rw [opens]
        exact later
      exact first.append second
  | case3 => exact ⟨fun residue => absurd residue (by decide), trivial⟩
  | case4 c rest plain ih =>
      refine ⟨conceals.1, ?_⟩
      rw [beq_false_of_ne plain]
      exact ih (conceals.tail plain)

end Text

end TexCalc
