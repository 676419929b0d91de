import TexCalc.Proofs.Inside.Operands
import TexCalc.Proofs.Linear.Attached
import TexCalc.Proofs.Synonym.Forms
import TexCalc.Proofs.Vocabulary.Nameless

/-!
# Operands that both readers delimit alike

The argument of one spelling is read before commands are renamed, the argument of the other one
afterwards, by rules of its own.  An operand is made of signs and functions around a group, a
numeral, a letter or a constant.  What may stand behind each of them is said here, and the reader in
front of the renaming stops there.
-/

namespace TexCalc

/-! ## How a text begins when commands have been replaced -/

namespace Text

variable {vocabulary : Vocabulary} {accept : Char → Bool} {text : Text}

theorem endsRun_resolveInverses (noBlank : accept ' ' = false) (ends : text.endsRun accept = true) :
    (text.resolveInverses vocabulary).endsRun accept = true := by
  cases text with
  | nil => rw [resolveInverses]; rfl
  | cons c rest =>
      rw [resolveInverses_eq]
      split
      · exact ends
      · split <;> simp [endsRun, noBlank]

theorem exists_logOf (base argument : Text) : ∃ later, logOf base argument = ' ' :: later := by
  rw [logOf]
  split <;> exact ⟨_, rfl⟩

theorem exists_bareLog (base : Text) : ∃ later, bareLog base = ' ' :: later := by
  rw [bareLog]
  split <;> exact ⟨_, rfl⟩

theorem endsRun_resolveLogBases (noBlank : accept ' ' = false) (ends : text.endsRun accept = true) :
    (text.resolveLogBases vocabulary).endsRun accept = true := by
  cases text with
  | nil => rw [resolveLogBases]; rfl
  | cons c rest =>
      rw [resolveLogBases_eq]
      split
      · exact ends
      · rename_i base _
        split
        · rename_i argument _
          obtain ⟨later, same⟩ := exists_logOf base.text.trim argument.text
          rw [same]
          simp [endsRun, noBlank]
        · obtain ⟨later, same⟩ := exists_bareLog base.text.trim
          rw [same]
          simp [endsRun, noBlank]

/-- A command becomes something that begins with a blank or an operator, or it stays. -/
theorem exists_rename (name : Text) : ∃ c later,
    Command.rename .standard name = c :: later ∧ c ∈ [' ', '\\', '*', '/', '+', '-'] := by
  rw [Command.rename]
  cases isNamed : Command.named? name with
  | none => exact ⟨_, _, rfl, by decide⟩
  | some command =>
      have all : Command.table.all (fun entry =>
          (entry.2.target .standard ('\\' :: entry.1)).head?.any
            (· ∈ [' ', '\\', '*', '/', '+', '-'])) = true := by decide
      have here := List.all_eq_true.1 all _ (Command.mem_table_of_named? isNamed)
      simp only at here ⊢
      cases shape : command.target .standard ('\\' :: name) with
      | nil => rw [shape] at here; cases here
      | cons c later =>
          rw [shape] at here
          exact ⟨c, later, rfl, of_decide_eq_true here⟩

theorem endsRun_renameCommands
    (refused : [' ', '\\', '*', '/', '+', '-'].all (!accept ·) = true)
    (ends : text.endsRun accept = true) :
    (text.renameCommands .standard).endsRun accept = true := by
  cases text with
  | nil => simp [renameCommands, pieces, endsRun]
  | cons c rest =>
      by_cases back : c = '\\'
      · subst back
        cases found : Control.read? rest with
        | none =>
            rw [Control.read?_eq_none_iff.1 found] at ends ⊢
            simpa [renameCommands, pieces, Control.read?, Piece.rename] using ends
        | some control =>
            obtain ⟨first, later, same, isFirst⟩ := exists_rename control.name
            rw [renameCommands, pieces_control found, List.flatMap_cons, Piece.rename, same]
            exact List.all_eq_true.1 refused first isFirst
      · rw [renameCommands_plain back]
        exact ends

/-! ## Texts in which nothing is called -/

/-- Where no function begins, calls are complete. -/
theorem completeCalls_of_free (plain : '\\' ∉ text)
    (free : ∀ ending, ending <:+ text → vocabulary.callableAt? ending = none) :
    text.completeCalls vocabulary false = text := by
  induction text with
  | nil => rw [completeCalls]
  | cons c rest ih =>
      rw [List.mem_cons, not_or] at plain
      rw [completeCalls_plain (Ne.symm plain.1) (free _ List.suffix_rfl),
        ih plain.2 fun ending ends => free ending (ends.trans (List.suffix_cons c rest))]

end Text

/-- The command of a function becomes a name between blanks, which is found there. -/
theorem Command.exists_callable {name : Text} {command : Command}
    (isNamed : named? name = some command) (takes : command.takesArgument = true) :
    name.all Char.isAlpha = true ∧ name ≠ [] ∧ ∃ callable : Callable,
      Command.rename .standard name = ' ' :: (callable.text ++ [' ']) ∧
        ∀ rest, Vocabulary.standard.callableAt? (callable.text ++ ' ' :: rest) =
          some (callable, ' ' :: rest) := by
  have target {text : Text} (isRenamed : Command.rename .standard name = ' ' :: (text ++ [' ']))
      (found : ∀ rest, ∃ callable, Vocabulary.standard.callableAt? (text ++ ' ' :: rest) =
        some (callable, ' ' :: rest) ∧ callable.text = text) :
      ∃ callable : Callable, Command.rename .standard name = ' ' :: (callable.text ++ [' ']) ∧
        ∀ rest, Vocabulary.standard.callableAt? (callable.text ++ ' ' :: rest) =
          some (callable, ' ' :: rest) := by
    obtain ⟨callable, _, rfl⟩ := found []
    refine ⟨callable, isRenamed, fun rest => ?_⟩
    obtain ⟨other, isFound, same⟩ := found rest
    rw [isFound, Callable.eq_of_text same]
  have inTable : ∀ entry ∈ table, entry.2.takesArgument = true → entry.1 ∈
      ["sin".toList, "cos".toList, "tan".toList, "arcsin".toList, "arccos".toList, "arctan".toList,
        "sec".toList, "csc".toList, "cot".toList, "ln".toList, "log".toList, "exp".toList] := by
    decide
  have isMember := inTable _ (mem_table_of_named? isNamed) takes
  simp only [List.mem_cons, List.not_mem_nil, or_false] at isMember
  rcases isMember with rfl | rfl | rfl | rfl | rfl | rfl | rfl | rfl | rfl | rfl | rfl | rfl <;>
    exact ⟨by decide, by decide, target rfl fun rest => Vocabulary.exists_callableAt?_eq rfl⟩

namespace Application

variable {text after rest : Text} {inner : Callable} {application : Application} {c : Char}

theorem read?_caret (rest : Text) : read? .standard none ('^' :: rest) = none := by
  have noCall := Vocabulary.standard.callableAt?_eq_none (c := '^') rfl (by decide) rest
  have noConstant := Vocabulary.standard.constantAt?_eq_none (c := '^') rfl rest
  have noAtom : Text.afterAtom? .standard ('^' :: rest) = none := by
    simp only [Text.afterAtom?, noConstant]
    rfl
  rw [read?_operand_eq, noCall]
  simp only [noAtom]
  rfl

/-- Behind the name of a function and a blank an operand is read, be it a group or not. -/
theorem read?_called
    (found : Vocabulary.standard.callableAt? text = some (inner, ' ' :: after))
    (isRead : read? .standard none after.skipBlanks = some application) :
    read? .standard none text = some (application.within (.call inner none)) := by
  have start : Text.skipBlanks (' ' :: after) = after.skipBlanks := rfl
  rw [read?_operand_eq, found]
  simp only [read?_function_eq, start]
  cases begins : after.skipBlanks with
  | nil =>
      rw [begins, read?_operand_eq, Text.callableAt?_nil] at isRead
      cases isRead
  | cons c rest =>
      rw [begins] at isRead
      have noCaret : c ≠ '^' := by
        rintro rfl
        rw [read?_caret] at isRead
        cases isRead
      have apart : (Option.any Char.isAlpha (' ' :: after).head?) = false := rfl
      simp only [if_neg noCaret, apart, Bool.false_and, Bool.false_eq_true, if_false]
      cases opens : Bracket.ofArgument? c with
      | none => simp [isRead]
      | some bracket =>
          have same := Text.opener_of_ofArgument? opens
          subst same
          rw [read?_opener (Text.ne_square_of_ofArgument? opens)] at isRead
          simp only [ofGroupArgument?, start, begins, opens, Option.bind_some, isRead]
          rfl

/-- The same behind an exponent of the function. -/
theorem read?_raised {script : Text} {exponent : Cut}
    (found : Vocabulary.standard.callableAt? text = some (inner, after))
    (start : after.skipBlanks = '^' :: script)
    (isExponent : script.exponent? .standard = some exponent)
    (isRead : read? .standard none exponent.rest.skipBlanks = some application) :
    read? .standard none text = some (application.within (.call inner (some exponent.text))) := by
  rw [read?_operand_eq, found]
  simp [read?_function_eq, start, isExponent, isRead]

/-- A constant in front of a blank is an operand. -/
theorem read?_constant {value : Name}
    (isValue : value.text = "pi".toList ∨ value.text = "Infinity".toList) (rest : Text) :
    read? .standard none (value.text ++ ' ' :: rest) =
      some (ofPlain (value.text ++ ' ' :: rest) (' ' :: rest)) := by
  have isConstant : Vocabulary.standard.constantAt? (value.text ++ ' ' :: rest) =
      some (value, ' ' :: rest) := by
    rw [Vocabulary.constantAt?_append .standard value.all_isAlphanum rfl, Option.map_eq_some_iff]
    refine ⟨value, ?_, rfl⟩
    rcases isValue with same | same
    · rw [same, show value = ⟨"pi".toList, rfl⟩ from Name.ext_text same]
      decide +kernel
    · rw [same, show value = ⟨"Infinity".toList, rfl⟩ from Name.ext_text same]
      decide +kernel
  have noCall : Vocabulary.standard.callableAt? (value.text ++ ' ' :: rest) = none := by
    rcases isValue with same | same <;> rw [same] <;>
      exact Vocabulary.callableAt?_eq_none_of_names rfl
  have atom : Text.afterAtom? .standard (value.text ++ ' ' :: rest) = some (' ' :: rest) := by
    simp only [Text.afterAtom?, isConstant]
  rw [read?_operand_eq, noCall]
  rcases isValue with same | same <;> rw [same] at atom ⊢ <;>
    exact congrArg (Option.map (ofPlain _)) atom

theorem followedBy_signed (operand : Text) (trail : Text) :
    (application.signed c operand).followedBy trail =
      (application.followedBy trail).signed c operand := by
  simp only [signed]
  split <;> rfl

/-- Whether a signed operand needs brackets is told by its first character. -/
theorem signed_cons (c d : Char) (rest rest' : Text) (application : Application) :
    application.signed c (d :: rest) = application.signed c (d :: rest') :=
  rfl

end Application

/-- The name of a callable begins with a visible character, which is no bracket. -/
theorem Callable.exists_cons (callable : Callable) : ∃ c rest, callable.text = c :: rest ∧
    isBlank c = false ∧ Bracket.ofArgument? c = none := by
  cases callable with
  | function name =>
      have all := name.all_isAlphanum
      obtain ⟨c, rest, same⟩ := List.exists_cons_of_ne_nil name.text_ne_nil
      rw [same, List.all_cons, Bool.and_eq_true] at all
      exact ⟨c, rest, same, isBlank_eq_false_of_isAlphanum all.1,
        Bracket.ofArgument?_of_isAlphanum all.1⟩
  | parked waiting => exact ⟨_, _, rfl, by decide, by decide⟩

/-! ## Operands -/

namespace Synonym

open Text

variable (synonym : Synonym)

/-- A text behind the argument when commands have been renamed. -/
def passed (text : Text) : Text :=
  synonym.rename (synonym.resolve text)

/-- An argument that can be put into parentheses: what is opened in it is closed in it before and
after commands are renamed, and no command is left. -/
structure IsWhole (argument : Text) : Prop where
  closed : argument.IsClosed
  plain : '\\' ∉ synonym.rename argument
  exists_leaves : ∃ count, (synonym.rename argument).Leaves false count

/-- An exponent behind the name of a function, and its form in a power. -/
inductive IsScript : Text → Option Text → Prop where
  | none : IsScript [] none
  | digit {gap between : Text} {d : Char} (blank : gap.all isAsciiBlank = true)
      (blankBehind : between.all isAsciiBlank = true) (digit : d.isDigit = true) :
      IsScript (gap ++ '^' :: (between ++ [d])) (some [d])
  | group {gap between inside : Text} {bracket : Bracket} (blank : gap.all isAsciiBlank = true)
      (blankBehind : between.all isAsciiBlank = true) (fixed : bracket ≠ .square)
      (closes : bracket.group? (inside ++ [bracket.closer]) = some ⟨inside, []⟩)
      (whole : synonym.IsWhole inside) :
      IsScript (gap ++ '^' :: (between ++ bracket.opener :: (inside ++ [bracket.closer])))
        (some (synonym.rename inside).wrap)

/-- An operand in front of a text at which it ends by the rules of both readers.  A numeral takes
the letters behind it, a letter has no exponent. -/
inductive Delimits : Text → Text → Prop where
  | group {bracket : Bracket} {inside rest : Text} (fixed : bracket ≠ .square)
      (closes : bracket.group? (inside ++ [bracket.closer]) = some ⟨inside, []⟩)
      (whole : synonym.IsWhole inside) :
      Delimits (bracket.opener :: (inside ++ [bracket.closer])) rest
  | sign {c : Char} {gap operand rest : Text} (isSign : c = '-' ∨ c = '+')
      (blank : gap.all isAsciiBlank = true) (delimits : Delimits operand rest) :
      Delimits (c :: (gap ++ operand)) rest
  | numeral {number rest : Text} (isNumeral : number.isNumeral = true)
      (ends : rest.endsRun isBaseChar = true) (noDigit : rest.endsRun isDecimalDigit = true)
      (noFactor : (synonym.passed rest).skipBlanks.endsRun Char.isAlpha = true) :
      Delimits number rest
  | coefficient {number letters rest : Text} (isNumeral : number.isNumeral = true)
      (nonempty : letters ≠ []) (all : letters.all Char.isAlpha = true)
      (nameless : Vocabulary.standard.IsNameless letters)
      (ends : rest.endsRun isBaseChar = true) : Delimits (number ++ letters) rest
  | letter {c : Char} {rest : Text} (letter : c.isAlpha = true)
      (ends : rest.endsRun isBaseChar = true)
      (noScript : (synonym.passed rest).skipBlanks.head? ≠ some '^') : Delimits [c] rest
  | constant {name rest : Text} (isConstant : name = "pi".toList ∨ name = "infty".toList)
      (ends : rest.endsRun isBaseChar = true) : Delimits ('\\' :: name) rest
  | function {name script gap operand rest : Text} {command : Command} {exponent? : Option Text}
      (isNamed : Command.named? name = some command) (takes : command.takesArgument = true)
      (ends : (script ++ (gap ++ operand)).endsRun Char.isAlpha = true)
      (isScript : synonym.IsScript script exponent?) (blank : gap.all isAsciiBlank = true)
      (delimits : Delimits operand rest) :
      Delimits ('\\' :: (name ++ (script ++ (gap ++ operand)))) rest

variable {synonym} {text operand rest gap : Text} {bracket : Bracket}

theorem endsRun_resolve {accept : Char → Bool} (noBlank : accept ' ' = false)
    (ends : text.endsRun accept = true) : (synonym.resolve text).endsRun accept = true := by
  cases synonym with
  | commonLog | naturalLog => exact endsRun_resolveLogBases noBlank ends
  | arcsine | arccosine | arctangent => exact endsRun_resolveInverses noBlank ends

theorem endsRun_rename {accept : Char → Bool}
    (refused : [' ', '\\', '*', '/', '+', '-'].all (!accept ·) = true)
    (ends : text.endsRun accept = true) : (synonym.rename text).endsRun accept = true := by
  have noBlank : accept ' ' = false := by
    simpa using List.all_eq_true.1 refused ' ' List.mem_cons_self
  cases synonym with
  | commonLog | naturalLog => exact endsRun_renameCommands refused ends
  | arcsine | arccosine | arctangent =>
      exact endsRun_renameCommands refused (endsRun_resolveLogBases noBlank ends)

theorem passed_append {front : Text} (plain : '\\' ∉ front) (rest : Text) :
    synonym.passed (front ++ rest) = front ++ synonym.passed rest := by
  have resolved : synonym.resolve (front ++ rest) = front ++ synonym.resolve rest := by
    cases synonym with
    | commonLog | naturalLog => exact Text.resolveLogBases_append plain
    | arcsine | arccosine | arctangent => exact Text.resolveInverses_append plain
  rw [passed, resolved, rename_append synonym plain, passed]

/-- A letter that stands next, blanks apart, still does when commands have been renamed. -/
theorem endsRun_skipBlanks_of_passed
    (ends : (synonym.passed rest).skipBlanks.endsRun Char.isAlpha = true) :
    rest.skipBlanks.endsRun Char.isAlpha = true := by
  cases start : rest.skipBlanks with
  | nil => rfl
  | cons c later =>
      cases letter : c.isAlpha with
      | false => simp [endsRun, letter]
      | true =>
          have blanks : (rest.takeWhile isAsciiBlank).all isAsciiBlank = true := List.all_takeWhile
          have split : rest = (rest.takeWhile isAsciiBlank ++ [c]) ++ later := by
            have whole : rest.takeWhile isAsciiBlank ++ rest.skipBlanks = rest :=
              List.takeWhile_append_dropWhile
            rw [start] at whole
            simpa using whole.symm
          have plain : '\\' ∉ rest.takeWhile isAsciiBlank ++ [c] := by
            rw [List.mem_append, not_or, List.mem_singleton]
            exact ⟨Text.not_mem_of_all (by decide) blanks, by rintro rfl; cases letter⟩
          have word : c.isAlphanum = true := by simp [Char.isAlphanum, letter]
          rw [split, passed_append plain, List.append_assoc, skipBlanks,
            List.dropWhile_append_of_pos (List.all_eq_true.1 blanks), ← skipBlanks,
            List.singleton_append, skipBlanks_cons (isAsciiBlank_eq_false_of_isAlphanum word),
            endsRun, List.head?_cons, Option.all_some, letter] at ends
          cases ends

/-- An operand begins with a visible character, which is neither the mark of an exponent nor that of
a subscript. -/
theorem Delimits.exists_cons (delimits : synonym.Delimits operand rest) :
    ∃ c later, operand = c :: later ∧ isBlank c = false ∧ c ≠ '^' ∧ c ≠ '_' := by
  have word {c : Char} (isWord : c.isAlphanum = true) : isBlank c = false ∧ c ≠ '^' ∧ c ≠ '_' :=
    ⟨isBlank_eq_false_of_isAlphanum isWord, ne_of_isAlphanum isWord (by decide),
      ne_of_isAlphanum isWord (by decide)⟩
  have number {number : Text} (isNumeral : number.isNumeral = true) (behind : Text) :
      ∃ c later, number ++ behind = c :: later ∧ isBlank c = false ∧ c ≠ '^' ∧ c ≠ '_' := by
    obtain ⟨c, run, rfl, digit, _⟩ := exists_of_isNumeral isNumeral
    exact ⟨c, run ++ behind, rfl, word (by simp [Char.isAlphanum, digit])⟩
  cases delimits with
  | @group bracket => exact ⟨_, _, rfl, by cases bracket <;> decide⟩
  | sign isSign => exact ⟨_, _, rfl, by rcases isSign with rfl | rfl <;> decide⟩
  | numeral isNumeral =>
      obtain ⟨c, later, same, facts⟩ := number isNumeral []
      exact ⟨c, later, (List.append_nil operand).symm.trans same, facts⟩
  | coefficient isNumeral => exact number isNumeral _
  | letter letter => exact ⟨_, _, rfl, word (by simp [Char.isAlphanum, letter])⟩
  | constant => exact ⟨_, _, rfl, by decide⟩
  | function => exact ⟨_, _, rfl, by decide⟩

/-! ## The reader in front of the renaming -/

/-- A whole group is the first thing in any text that goes on behind it. -/
theorem group?_append {inside : Text}
    (closes : bracket.group? (inside ++ [bracket.closer]) = some ⟨inside, []⟩) (behind : Text) :
    bracket.group? (inside ++ bracket.closer :: behind) = some ⟨inside, behind⟩ := by
  have whole := Bracket.groupFrom?_append_of_eq_some closes behind
  rwa [List.append_assoc, List.singleton_append] at whole

theorem skipBlanks_gap {c : Char} (blank : gap.all isAsciiBlank = true)
    (visible : isBlank c = false) (later : Text) : skipBlanks (gap ++ c :: later) = c :: later := by
  have noBlank : isAsciiBlank c = false := by
    rw [Bool.eq_false_iff]
    intro isBlankHere
    rw [isBlank_of_isAsciiBlank isBlankHere] at visible
    cases visible
  rw [skipBlanks, List.dropWhile_append_of_pos (List.all_eq_true.1 blank), ← skipBlanks,
    skipBlanks_cons noBlank]

theorem afterLetters_append {letters : Text} (all : letters.all Char.isAlpha = true)
    (nameless : Vocabulary.standard.IsNameless letters)
    (ends : rest.endsRun Char.isAlphanum = true) :
    afterLetters .standard (letters ++ rest) = rest := by
  induction letters with
  | nil =>
      cases rest with
      | nil => rfl
      | cons c rest =>
          have noLetter : c.isAlpha = false := by
            simp only [endsRun, List.head?_cons, Option.all_some, Char.isAlphanum,
              Bool.not_eq_true', Bool.or_eq_false_iff] at ends
            exact ends.1
          rw [List.nil_append, afterLetters, noLetter, Bool.false_and, if_neg Bool.false_ne_true]
  | cons c letters ih =>
      have words : (c :: letters).all Char.isAlphanum = true :=
        List.all_eq_true.2 fun d isMember => by
          simp [Char.isAlphanum, List.all_eq_true.1 all d isMember]
      rw [List.all_cons, Bool.and_eq_true] at all
      have noCall : Vocabulary.standard.callableAt? (c :: (letters ++ rest)) = none := by
        refine Vocabulary.callableAt?_eq_none_of_isNameless (Parked.ne_mark_of_isAlpha all.1) ?_
        rw [← List.cons_append, takeWhile_append_of_endsRun words ends]
        exact nameless
      rw [List.cons_append, afterLetters, noCall, all.1, Option.isNone_none, Bool.and_self, if_pos rfl,
        ih all.2 (nameless.mono (List.suffix_cons c letters).isInfix)]

theorem constantAt?_nameless {letters : Text} (all : letters.all Char.isAlpha = true)
    (nameless : Vocabulary.standard.IsNameless letters)
    (ends : rest.endsRun Char.isAlphanum = true) :
    Vocabulary.standard.constantAt? (letters ++ rest) = none := by
  have words : letters.all Char.isAlphanum = true :=
    List.all_eq_true.2 fun d isMember => by
      simp [Char.isAlphanum, List.all_eq_true.1 all d isMember]
  rw [Vocabulary.constantAt?_append .standard words ends, Option.map_eq_none_iff,
    List.find?_eq_none]
  intro name isMember same
  obtain ⟨entry, isEntry, rfl⟩ := List.mem_map.1 isMember
  rw [← eq_of_beq same] at nameless
  exact nameless entry (List.mem_filter.1 isEntry).1 List.infix_rfl

/-- A numeral takes the letters behind it. -/
theorem afterCoefficient_letters {number letters : Text} (isNumeral : number.isNumeral = true)
    (nonempty : letters ≠ []) (all : letters.all Char.isAlpha = true)
    (nameless : Vocabulary.standard.IsNameless letters)
    (ends : rest.endsRun Char.isAlphanum = true) :
    afterCoefficient .standard (number ++ (letters ++ rest)) = rest := by
  obtain ⟨c, more, rfl⟩ := List.exists_cons_of_ne_nil nonempty
  have noConstant := constantAt?_nameless all nameless ends
  have letter : c.isAlpha = true := List.all_eq_true.1 all c List.mem_cons_self
  rw [List.all_cons, Bool.and_eq_true] at all
  have word : c.isAlphanum = true := by simp [Char.isAlphanum, letter]
  rw [List.cons_append] at noConstant ⊢
  simp only [afterCoefficient, afterNumeral_append isNumeral letter,
    skipBlanks_cons (isAsciiBlank_eq_false_of_isAlphanum word), noConstant, List.head?_cons,
    Option.any_some, letter, if_true, afterLetterRun]
  exact afterLetters_append all.2 (nameless.mono (List.suffix_cons c more).isInfix) ends

/-- A numeral stands alone in front of anything but digits and letters. -/
theorem afterCoefficient_numeral {number : Text} (isNumeral : number.isNumeral = true)
    (ends : rest.endsRun isBaseChar = true) (noDigit : rest.endsRun isDecimalDigit = true)
    (noFactor : rest.skipBlanks.endsRun Char.isAlpha = true) :
    afterCoefficient .standard (number ++ rest) = rest := by
  have noPoint : rest.head? ≠ some '.' := by
    intro same
    rw [endsRun, same] at ends
    cases ends
  have noConstant : Vocabulary.standard.constantAt? rest.skipBlanks = none ∧
      rest.skipBlanks.head?.any Char.isAlpha = false := by
    cases start : rest.skipBlanks with
    | nil => exact ⟨constantAt?_nil _, rfl⟩
    | cons c later =>
        have noLetter : c.isAlpha = false := by simpa [start, endsRun] using noFactor
        exact ⟨Vocabulary.standard.constantAt?_eq_none noLetter later, noLetter⟩
  simp only [afterCoefficient, afterNumeral_of_endsRun isNumeral noDigit noPoint, noConstant.1,
    noConstant.2, Bool.false_eq_true, if_false]

theorem endsRun_append {accept : Char → Bool} (front : Text) (nonempty : front ≠ [])
    (ends : front.endsRun accept = true) (rest : Text) : (front ++ rest).endsRun accept = true := by
  obtain ⟨c, later, rfl⟩ := List.exists_cons_of_ne_nil nonempty
  exact ends

theorem endsRun_isAlphanum (ends : rest.endsRun isBaseChar = true) :
    rest.endsRun Char.isAlphanum = true :=
  endsRun_mono ends isBaseChar_of_isAlphanum

theorem endsRun_isAlpha (ends : rest.endsRun isBaseChar = true) :
    rest.endsRun Char.isAlpha = true :=
  endsRun_mono ends isBaseChar_of_isAlpha

/-- An exponent behind a function is passed over. -/
theorem IsScript.afterExponent? {script : Text} {exponent? : Option Text}
    (isScript : synonym.IsScript script exponent?) {c : Char}
    (blank : gap.all isAsciiBlank = true) (visible : isBlank c = false) (noCaret : c ≠ '^')
    (later : Text) :
    ∃ gap' : Text, gap'.all isAsciiBlank = true ∧
      (script ++ (gap ++ c :: later)).afterExponent? .standard = some (gap' ++ c :: later) := by
  cases isScript with
  | none =>
      refine ⟨[], rfl, ?_⟩
      rw [List.nil_append, Text.afterExponent?, skipBlanks_gap blank visible]
      split
      · rename_i same
        exact absurd (List.cons.inj same).1 noCaret
      · rfl
  | @digit front between d blankFront blankBehind digit =>
      have word : d.isAlphanum = true := by simp [Char.isAlphanum, digit]
      refine ⟨gap, blank, ?_⟩
      rw [Text.afterExponent?, List.append_assoc, List.cons_append,
        skipBlanks_gap blankFront (by decide)]
      simp only [List.append_assoc, List.singleton_append, exponent?,
        skipBlanks_gap blankBehind (isBlank_eq_false_of_isAlphanum word),
        Bracket.ofArgument?_of_isAlphanum word,
        Vocabulary.standard.constantAt?_eq_none (isAlpha_eq_false_of_isDigit digit), word, if_true,
        Option.map_some]
  | @group front between inside bracket blankFront blankBehind fixed closes whole =>
      have visibleBracket : isBlank bracket.opener = false := by cases bracket <;> rfl
      have opens : Bracket.ofArgument? bracket.opener = some bracket := by
        cases bracket with
        | square => exact absurd rfl fixed
        | _ => rfl
      refine ⟨gap, blank, ?_⟩
      rw [Text.afterExponent?, List.append_assoc, List.cons_append,
        skipBlanks_gap blankFront (by decide)]
      simp only [List.append_assoc, List.cons_append, List.nil_append, exponent?,
        skipBlanks_gap blankBehind visibleBracket, opens, group?_append closes, Option.map_some]

theorem afterBareArgument?_numeral {number behind : Text} (isNumeral : number.isNumeral = true)
    (blank : gap.all isAsciiBlank = true) :
    (gap ++ (number ++ behind)).afterBareArgument? .standard =
      some (afterCoefficient .standard (number ++ behind)) := by
  obtain ⟨c, run, rfl, digit, _⟩ := exists_of_isNumeral isNumeral
  have word : c.isAlphanum = true := by simp [Char.isAlphanum, digit]
  have noSign : ¬ (c = '-' ∨ c = '+') := by
    rintro (rfl | rfl) <;> cases digit
  rw [afterBareArgument?_eq, List.cons_append,
    skipBlanks_gap blank (isBlank_eq_false_of_isAlphanum word)]
  simp only [Bracket.ofArgument?_of_isAlphanum word, if_neg noSign, digit, if_true]

section

variable (name : Text) {behind : Text} (letters : name.all Char.isAlpha = true) (nonempty : name ≠ [])
  (ends : behind.endsRun Char.isAlpha = true) (blank : gap.all isAsciiBlank = true)

include letters nonempty ends blank

/-- The reader of an argument at a command. -/
theorem afterBareArgument?_word :
    (gap ++ '\\' :: (name ++ behind)).afterBareArgument? .standard =
      match Command.named? name with
      | none => none
      | some (.constant _) => some behind
      | some command =>
          if command.takesArgument then
            (behind.afterExponent? .standard).bind (Text.afterBareArgument? .standard)
          else none := by
  rw [afterBareArgument?_eq, skipBlanks_gap blank (by decide)]
  have opens : Bracket.ofArgument? '\\' = none := by decide
  have noSign : ¬ ('\\' = '-' ∨ '\\' = '+') := by decide
  have noDigit : Char.isDigit '\\' = false := by decide
  have noLetter : Char.isAlpha '\\' = false := by decide
  simp only [opens, if_neg noSign, noDigit, noLetter, Bool.false_eq_true, if_false, if_true]
  exact congrArg (Option.bind · _) (Control.read?_word letters nonempty ends)

theorem afterBareArgument?_function {command : Command}
    (isNamed : Command.named? name = some command) (takes : command.takesArgument = true) :
    (gap ++ '\\' :: (name ++ behind)).afterBareArgument? .standard =
      (behind.afterExponent? .standard).bind (Text.afterBareArgument? .standard) := by
  rw [afterBareArgument?_word name letters nonempty ends blank, isNamed]
  cases command with
  | constant => cases takes
  | _ => exact if_pos takes

end

/-- The reader in front of the renaming stops at the end of an operand. -/
theorem Delimits.afterBareArgument? (delimits : synonym.Delimits operand rest)
    (blank : gap.all isAsciiBlank = true) :
    (gap ++ (operand ++ rest)).afterBareArgument? .standard = some rest := by
  induction delimits generalizing gap with
  | @group bracket inside rest fixed closes whole =>
      have visible : isBlank bracket.opener = false := by cases bracket <;> rfl
      have opens : Bracket.ofArgument? bracket.opener = some bracket := by
        cases bracket with
        | square => exact absurd rfl fixed
        | _ => rfl
      rw [afterBareArgument?_eq, List.cons_append, List.append_assoc, List.singleton_append,
        skipBlanks_gap blank visible]
      simp only [opens, group?_append closes, Option.map_some]
  | @sign c inner operand rest isSign blankInner delimits ih =>
      have visible : isBlank c = false ∧ Bracket.ofArgument? c = none := by
        rcases isSign with rfl | rfl <;> decide
      rw [afterBareArgument?_eq, List.cons_append, List.append_assoc,
        skipBlanks_gap blank visible.1]
      simp only [visible.2, if_pos isSign]
      exact ih blankInner
  | @numeral number rest isNumeral ends noDigit noFactor =>
      rw [afterBareArgument?_numeral isNumeral blank,
        afterCoefficient_numeral isNumeral ends noDigit (endsRun_skipBlanks_of_passed noFactor)]
  | coefficient isNumeral nonempty all nameless ends =>
      rw [List.append_assoc, afterBareArgument?_numeral isNumeral blank,
        afterCoefficient_letters isNumeral nonempty all nameless (endsRun_isAlphanum ends)]
  | @letter c rest letter ends noScript =>
      have word : c.isAlphanum = true := by simp [Char.isAlphanum, letter]
      have noSign : ¬ (c = '-' ∨ c = '+') := by
        rintro (rfl | rfl) <;> cases letter
      have stops : afterLetters .standard ([] ++ rest) = rest :=
        afterLetters_append rfl (by decide) (endsRun_isAlphanum ends)
      rw [List.nil_append] at stops
      rw [afterBareArgument?_eq, List.cons_append, List.nil_append,
        skipBlanks_gap blank (isBlank_eq_false_of_isAlphanum word)]
      simp only [Bracket.ofArgument?_of_isAlphanum word, if_neg noSign,
        isDigit_eq_false_of_isAlpha letter, letter, Bool.false_eq_true, if_false, if_true,
        afterLetterRun, stops]
  | constant isConstant ends =>
      rcases isConstant with rfl | rfl
      · exact afterBareArgument?_word "pi".toList (by decide) (by decide)
          (endsRun_isAlpha ends) blank
      · exact afterBareArgument?_word "infty".toList (by decide) (by decide)
          (endsRun_isAlpha ends) blank
  | @function name script inner operand rest command _ isNamed takes ends isScript blankInner
      delimits ih =>
      obtain ⟨letters, nonempty, _⟩ := Command.exists_callable isNamed takes
      obtain ⟨c, later, same, visible, noCaret, _⟩ := delimits.exists_cons
      obtain ⟨gap', blank', isOperand⟩ := isScript.afterExponent? blankInner visible noCaret
        (later ++ rest)
      rw [← List.cons_append, ← same] at isOperand
      have shape : '\\' :: (name ++ (script ++ (inner ++ operand))) ++ rest =
          '\\' :: (name ++ (script ++ (inner ++ (operand ++ rest)))) := by simp
      have ends' : (script ++ (inner ++ (operand ++ rest))).endsRun Char.isAlpha = true := by
        have whole := endsRun_append (script ++ (inner ++ operand)) (by simp [same]) ends rest
        simpa using whole
      rw [shape, afterBareArgument?_function name letters nonempty ends' blank isNamed takes, isOperand]
      exact ih blank'

/-- An operand that is no group is the argument as it is written. -/
theorem Delimits.bareArgument? (delimits : synonym.Delimits operand rest)
    (noGroup : operand.head?.bind Bracket.ofArgument? = none)
    (start : text.skipBlanks = operand ++ rest) :
    text.bareArgument? .standard = some ⟨operand, rest⟩ := by
  have isAfter := delimits.afterBareArgument? (show List.all [] isAsciiBlank = true from rfl)
  obtain ⟨c, later, rfl, _⟩ := delimits.exists_cons
  have opens : Bracket.ofArgument? c = none := noGroup
  rw [List.nil_append, List.cons_append] at isAfter
  rw [Text.bareArgument?, start, List.cons_append]
  simp only [opens, isAfter, Option.map_some, Cut.upTo]
  rw [← List.cons_append, before_append]

end Synonym

end TexCalc
