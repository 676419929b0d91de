import TexCalc.Proofs.Synonym.Operands

/-!
# Operands behind the renaming

When commands have been renamed, a function takes the same operand as its argument.  How it is read
there does not depend on what follows it in the text.
-/

namespace TexCalc

namespace Synonym

open Text

variable {synonym : Synonym} {text operand rest gap : Text} {bracket : Bracket}

/-- A whole argument is renamed as if it stood alone. -/
theorem rename_closer {argument : Text} (fixed : bracket ≠ .square) (closed : argument.IsClosed)
    (rest : Text) :
    synonym.rename (argument ++ bracket.closer :: rest) =
      synonym.rename argument ++ bracket.closer :: synonym.rename rest := by
  have back : bracket.closer ≠ '\\' := by cases bracket <;> decide
  have only := closed.only
  have renamed (text behind : Text) (only : text.HasWordsOnly) :
      Text.renameCommands .standard (text ++ bracket.closer :: behind) =
        text.renameCommands .standard ++ bracket.closer :: behind.renameCommands .standard := by
    rw [renameCommands_trail (isTrail_closer fixed behind) .standard only, renameCommands_plain back]
  have based : resolveLogBases .standard (argument ++ bracket.closer :: rest) =
      argument.resolveLogBases .standard ++
        bracket.closer :: rest.resolveLogBases .standard := by
    have visible : trimStart (bracket.closer :: rest) = skipBlanks (bracket.closer :: rest) := by
      cases bracket <;> rfl
    rw [resolveLogBases_trail (isTrail_closer fixed rest) visible only (closed.keepsGroups _),
      resolveLogBases_plain back]
  have onlyBased := (keepsWords_resolveLogBases .standard only).hasWordsOnly only
  cases synonym with
  | commonLog | naturalLog => exact renamed argument rest only
  | arcsine | arccosine | arctangent =>
      exact (congrArg (renameCommands .standard) based).trans (renamed _ _ onlyBased)

/-- A command of the table is renamed, unless a base follows it. -/
theorem rename_word {name behind : Text} {command : Command}
    (isNamed : Command.named? name = some command) (letters : name.all Char.isAlpha = true)
    (ends : behind.endsRun Char.isAlpha = true)
    (noBase : name = "log".toList → behind.trimStart.head? ≠ some '_') :
    synonym.rename ('\\' :: (name ++ behind)) =
      Command.rename .standard name ++ synonym.rename behind := by
  have nonempty : name ≠ [] := by
    rintro rfl
    cases isNamed
  have renamed (behind : Text) (ends : behind.endsRun Char.isAlpha = true) :
      Text.renameCommands .standard ('\\' :: (name ++ behind)) =
        Command.rename .standard name ++ behind.renameCommands .standard :=
    renameCommands_word letters nonempty ends
  have plain : '\\' ∉ name := Text.not_mem_of_all (by decide) letters
  have noMark : afterLogMark? ('\\' :: (name ++ behind)) = none := by
    cases dropped : Text.dropLead? ('\\' :: (name ++ behind)) "\\log".toList with
    | none =>
        rw [afterLogMark?, dropped]
        rfl
    | some after =>
        have whole : name ++ behind = "log".toList ++ after :=
          (List.cons.inj (Text.dropLead?_eq_some_iff.1 dropped)).2
        have noLead : after.trimStart.head? ≠ some '_' := by
          rcases List.append_eq_append_iff.1 whole with ⟨excess, isLog, isBehind⟩ | ⟨more, isName, isAfter⟩
          · cases excess with
            | nil =>
                rw [← show behind = after from isBehind]
                exact noBase (isLog.trans (List.append_nil name)).symm
            | cons c excess =>
                -- The name would end inside a run of letters.
                have letter : c.isAlpha = true := by
                  have all : "log".toList.all Char.isAlpha = true := rfl
                  rw [isLog] at all
                  exact List.all_eq_true.1 all c (List.mem_append_right _ List.mem_cons_self)
                rw [isBehind, List.cons_append, endsRun, List.head?_cons, Option.all_some,
                  letter] at ends
                cases ends
          · cases more with
            | nil =>
                rw [show after = behind from isAfter]
                exact noBase (isName.trans (List.append_nil _))
            | cons c more =>
                have letter : c.isAlpha = true := List.all_eq_true.1 letters c (by simp [isName])
                have word : c.isAlphanum = true := by simp [Char.isAlphanum, letter]
                rw [isAfter, List.cons_append, trimStart_eq_of_head (isBlank_eq_false_of_isAlphanum word)]
                rintro same
                cases Option.some.inj same
                cases letter
        have none : after.trimStart.dropLead? ['_'] = none := by
          cases start : after.trimStart with
          | nil => rfl
          | cons c later =>
              rw [start] at noLead
              exact if_neg fun same => noLead (by rw [same]; rfl)
        rw [afterLogMark?, dropped, Option.bind_some, none]
  have based : resolveLogBases .standard ('\\' :: (name ++ behind)) =
      '\\' :: (name ++ behind.resolveLogBases .standard) := resolveLogBases_command plain noMark
  cases synonym with
  | commonLog | naturalLog => exact renamed behind ends
  | arcsine | arccosine | arctangent =>
      exact (congrArg (renameCommands .standard) based).trans
        (renamed _ (endsRun_resolveLogBases (by decide) ends))

/-- An operand as it is read when commands have been renamed, in front of nothing and in front of
what is left of the text. -/
structure Reads (synonym : Synonym) (operand rest : Text) (application : Application)
    (first : Char) : Prop where
  ends : application.rest.isAllBlank = true
  complete : application.IsComplete .standard
  opens : (Bracket.ofArgument? first).isSome = true → operand.head? = some first
  begins : ∀ tail, tail = [] ∨ tail = synonym.resolve rest →
    ∃ later, (synonym.rename (operand ++ tail)).skipBlanks = first :: later
  isRead : ∀ tail, tail = [] ∨ tail = synonym.resolve rest →
    Application.read? .standard none (synonym.rename (operand ++ tail)).skipBlanks =
      some (application.followedBy (synonym.rename tail))

/-! ## Characters at which nothing is called -/

section

variable {number letters ending : Text}

theorem isNumeralChar_of_isNumeral (isNumeral : number.isNumeral = true) :
    number.all isNumeralChar = true := by
  obtain ⟨c, run, rfl, digit, all⟩ := exists_of_isNumeral isNumeral
  rw [List.all_cons, all, isNumeralChar, digit]
  rfl

theorem facts_of_isNumeralChar {c : Char} (numeral : isNumeralChar c = true) :
    c.isAlpha = false ∧ c ≠ Parked.mark ∧ c ≠ '\\' := by
  simp only [isNumeralChar, Bool.or_eq_true, beq_iff_eq] at numeral
  rcases numeral with digit | rfl
  · have word : c.isAlphanum = true := by simp [Char.isAlphanum, digit]
    exact ⟨isAlpha_eq_false_of_isDigit digit, ne_of_isAlphanum word (by decide),
      ne_of_isAlphanum word (by decide)⟩
  · decide

theorem noBack_of_isNumeral (isNumeral : number.isNumeral = true) : '\\' ∉ number :=
  Text.not_mem_of_all (by decide) (isNumeralChar_of_isNumeral isNumeral)

/-- In a numeral and letters that spell no name nothing is called. -/
theorem callableAt?_of_letters (all : letters.all Char.isAlpha = true)
    (nameless : Vocabulary.standard.IsNameless letters) (ends : ending <:+ letters) :
    Vocabulary.standard.callableAt? ending = none := by
  cases ending with
  | nil => exact callableAt?_nil _
  | cons c ending =>
      have letter : c.isAlpha = true := List.all_eq_true.1 all c (ends.subset List.mem_cons_self)
      have words : (c :: ending).all Char.isAlphanum = true :=
        List.all_eq_true.2 fun d isMember => by
          simp [Char.isAlphanum, List.all_eq_true.1 all d (ends.subset isMember)]
      refine Vocabulary.callableAt?_eq_none_of_isNameless (Parked.ne_mark_of_isAlpha letter) ?_
      rw [takeWhile_of_all words]
      exact nameless.mono ends.isInfix

theorem callableAt?_of_coefficient (isNumeral : number.isNumeral = true)
    (all : letters.all Char.isAlpha = true) (nameless : Vocabulary.standard.IsNameless letters)
    (ends : ending <:+ number ++ letters) : Vocabulary.standard.callableAt? ending = none := by
  obtain ⟨lead, whole⟩ := ends
  rcases List.append_eq_append_iff.1 whole with ⟨excess, isNumber, isEnding⟩ | ⟨more, _, isLetters⟩
  · cases excess with
    | nil => exact callableAt?_of_letters all nameless ⟨[], isEnding⟩
    | cons c excess =>
        have numeral := List.all_eq_true.1 (isNumeralChar_of_isNumeral isNumeral) c (by
          rw [isNumber]
          exact List.mem_append_right _ List.mem_cons_self)
        obtain ⟨noLetter, noMark, _⟩ := facts_of_isNumeralChar numeral
        rw [isEnding]
        exact Vocabulary.standard.callableAt?_eq_none noLetter noMark _
  · exact callableAt?_of_letters all nameless ⟨more, isLetters.symm⟩

end

theorem rename_nil : synonym.rename [] = [] := by
  have renamed : Text.renameCommands .standard [] = [] := by simp [renameCommands, pieces]
  cases synonym with
  | commonLog | naturalLog => exact renamed
  | arcsine | arccosine | arctangent =>
      have based : Text.resolveLogBases .standard [] = [] := by rw [resolveLogBases.eq_def]
      exact (congrArg (Text.renameCommands .standard) based).trans renamed

theorem endsRun_passed {accept : Char → Bool}
    (refused : [' ', '\\', '*', '/', '+', '-'].all (!accept ·) = true)
    (ends : rest.endsRun accept = true) : (synonym.passed rest).endsRun accept = true := by
  have noBlank : accept ' ' = false := by
    simpa using List.all_eq_true.1 refused ' ' List.mem_cons_self
  exact endsRun_rename refused (endsRun_resolve noBlank ends)

namespace Reads

variable {application : Application} {first : Char}

theorem group {inside : Text} (fixed : bracket ≠ .square) (whole : synonym.IsWhole inside) :
    synonym.Reads (bracket.opener :: (inside ++ [bracket.closer])) rest
      (.ofGroup ⟨synonym.rename inside, []⟩) bracket.opener := by
  obtain ⟨count, leaves⟩ := whole.exists_leaves
  have noBack : '\\' ∉ [bracket.opener] := by cases bracket <;> decide
  have visible : isAsciiBlank bracket.opener = false := by cases bracket <;> rfl
  have renamed (tail : Text) :
      synonym.rename (bracket.opener :: (inside ++ [bracket.closer]) ++ tail) =
        bracket.opener :: (synonym.rename inside ++ bracket.closer :: synonym.rename tail) := by
    have front := synonym.rename_append noBack (inside ++ bracket.closer :: tail)
    rw [rename_closer fixed whole.closed] at front
    simpa using front
  refine ⟨rfl, fun plain => ?_, fun _ => rfl, fun tail _ => ?_, fun tail _ => ?_⟩
  · cases plain
  · rw [renamed, skipBlanks_cons visible]
    exact ⟨_, rfl⟩
  · rw [renamed, skipBlanks_cons visible, Application.read?_opener fixed,
      leaves.group? fixed whole.plain]
    rfl

theorem sign {c : Char} (isSign : c = '-' ∨ c = '+') (blank : gap.all isAsciiBlank = true)
    (reads : synonym.Reads operand rest application first) :
    synonym.Reads (c :: (gap ++ operand)) rest (application.signed c [first]) c := by
  obtain ⟨visible, noBack, noGroup, noLetter, noMark⟩ : isAsciiBlank c = false ∧ c ≠ '\\' ∧
      Bracket.ofArgument? c = none ∧ c.isAlpha = false ∧ c ≠ Parked.mark := by
    rcases isSign with rfl | rfl <;> decide
  have plain : '\\' ∉ c :: gap := by
    rw [List.mem_cons, not_or]
    exact ⟨noBack.symm, Text.not_mem_of_all (by decide) blank⟩
  have renamed (tail : Text) : (synonym.rename (c :: (gap ++ operand) ++ tail)).skipBlanks =
      c :: (gap ++ synonym.rename (operand ++ tail)) := by
    have front := synonym.rename_append plain (operand ++ tail)
    rw [List.cons_append, List.append_assoc, ← List.cons_append, front, List.cons_append,
      skipBlanks_cons visible]
  have grouped : (application.signed c [first]).grouped = application.grouped := by
    simp only [Application.signed]
    split <;> rfl
  refine ⟨?_, fun bare => ?_, fun opens => ?_, fun tail _ => ?_, fun tail isTail => ?_⟩
  · rw [Application.rest_signed, reads.ends]
  · rw [Application.core_signed]
    exact reads.complete (grouped ▸ bare)
  · rw [noGroup] at opens
    cases opens
  · exact ⟨_, renamed tail⟩
  · obtain ⟨later, begins⟩ := reads.begins tail isTail
    have isRead := reads.isRead tail isTail
    have operands : skipBlanks (gap ++ synonym.rename (operand ++ tail)) = first :: later := by
      rw [skipBlanks, List.dropWhile_append_of_pos (List.all_eq_true.1 blank), ← skipBlanks, begins]
    rw [begins] at isRead
    rw [renamed, Application.read?_operand_eq,
      Vocabulary.standard.callableAt?_eq_none noLetter noMark]
    simp only [if_pos isSign, operands, isRead, Option.map_some]
    rw [Application.followedBy_signed, Application.signed_cons c first later []]

/-- An operand that is taken over as it is written. -/
theorem plain (begins : operand.head? = some first) (word : first.isAlphanum = true)
    (noBack : '\\' ∉ operand)
    (free : ∀ ending, ending <:+ operand → Vocabulary.standard.callableAt? ending = none)
    (isRead : ∀ tail, tail = [] ∨ tail = synonym.resolve rest →
      Application.read? .standard none (operand ++ synonym.rename tail) =
        some (.ofPlain (operand ++ synonym.rename tail) (synonym.rename tail))) :
    synonym.Reads operand rest (.ofPlain operand []) first := by
  obtain ⟨later, rfl⟩ := List.head?_eq_some_iff.1 begins
  have renamed (tail : Text) : (synonym.rename (first :: later ++ tail)).skipBlanks =
      first :: later ++ synonym.rename tail := by
    rw [synonym.rename_append noBack, List.cons_append,
      skipBlanks_cons (isAsciiBlank_eq_false_of_isAlphanum word)]
  refine ⟨rfl, fun _ => ?_, fun _ => rfl, fun tail _ => ⟨_, renamed tail⟩, fun tail isTail => ?_⟩
  · have whole : Text.before (first :: later) [] = first :: later := by simp [Text.before]
    rw [Application.ofPlain, whole]
    exact completeCalls_of_free noBack free
  · rw [renamed, isRead tail isTail]
    exact congrArg some (Application.ofPlain_trail (first :: later) [] (synonym.rename tail))

theorem numeral {number : Text} (isNumeral : number.isNumeral = true)
    (ends : rest.endsRun isBaseChar = true) (noDigit : rest.endsRun isDecimalDigit = true)
    (noFactor : (synonym.passed rest).skipBlanks.endsRun Char.isAlpha = true) :
    ∃ first, synonym.Reads number rest (.ofPlain number []) first := by
  obtain ⟨c, run, same, digit, all⟩ := exists_of_isNumeral isNumeral
  refine ⟨c, plain (by rw [same]; rfl) (by simp [Char.isAlphanum, digit])
    (noBack_of_isNumeral isNumeral) (fun ending isEnding => ?_) fun tail isTail => ?_⟩
  · have ends' : ending <:+ number ++ [] := by rwa [List.append_nil]
    refine callableAt?_of_coefficient isNumeral ?_ ?_ ends'
    · rfl
    · decide
  · rw [Application.read?_coefficient isNumeral]
    rcases isTail with rfl | rfl
    · rw [rename_nil, afterCoefficient_numeral isNumeral rfl rfl rfl]
    · rw [← passed, afterCoefficient_numeral isNumeral (endsRun_passed (by decide) ends)
        (endsRun_passed (by decide) noDigit) noFactor]

theorem coefficient {number letters : Text} (isNumeral : number.isNumeral = true)
    (nonempty : letters ≠ []) (all : letters.all Char.isAlpha = true)
    (nameless : Vocabulary.standard.IsNameless letters) (ends : rest.endsRun isBaseChar = true) :
    ∃ first, synonym.Reads (number ++ letters) rest (.ofPlain (number ++ letters) []) first := by
  obtain ⟨c, run, same, digit, _⟩ := exists_of_isNumeral isNumeral
  have noBack : '\\' ∉ number ++ letters := by
    rw [List.mem_append, not_or]
    exact ⟨noBack_of_isNumeral isNumeral, Text.not_mem_of_all (by decide) all⟩
  refine ⟨c, plain (by rw [same]; rfl) (by simp [Char.isAlphanum, digit]) noBack
    (fun ending isEnding => callableAt?_of_coefficient isNumeral all nameless isEnding)
    fun tail isTail => ?_⟩
  have behind : (synonym.rename tail).endsRun Char.isAlphanum = true := by
    rcases isTail with rfl | rfl
    · rw [rename_nil]
      rfl
    · exact endsRun_isAlphanum (endsRun_passed (by decide) ends)
  rw [List.append_assoc, Application.read?_coefficient isNumeral,
    afterCoefficient_letters isNumeral nonempty all nameless behind]

theorem letter {c : Char} (letter : c.isAlpha = true) (ends : rest.endsRun isBaseChar = true)
    (noScript : (synonym.passed rest).skipBlanks.head? ≠ some '^') :
    synonym.Reads [c] rest (.ofPlain [c] []) c := by
  refine plain rfl (by simp [Char.isAlphanum, letter]) ?_ (fun ending isEnding => ?_)
    fun tail isTail => ?_
  · rw [List.mem_singleton]
    rintro rfl
    cases letter
  · rcases List.suffix_cons_iff.1 isEnding with rfl | inNil
    · exact callableAt?_standard_letter letter rfl
    · rw [List.suffix_nil.1 inNil, callableAt?_nil]
  · obtain ⟨behind, noCaret⟩ : (synonym.rename tail).endsRun Char.isAlphanum = true ∧
        (synonym.rename tail).skipBlanks.head? ≠ some '^' := by
      rcases isTail with rfl | rfl
      · rw [rename_nil]
        exact ⟨rfl, by decide⟩
      · exact ⟨endsRun_isAlphanum (endsRun_passed (by decide) ends), noScript⟩
    have atom : afterAtom? .standard (c :: synonym.rename tail) = some (synonym.rename tail) := by
      simp only [afterAtom?, constantAt?_standard_letter letter behind,
        callableAt?_standard_letter letter behind, letter, Option.isNone_none, Bool.and_self, if_true]
      split
      · rename_i script same
        exact absurd (by rw [same]; rfl) noCaret
      · rfl
    rw [List.singleton_append, Application.read?_letter letter behind, atom, Option.map_some]

theorem constant {name : Text} (isConstant : name = "pi".toList ∨ name = "infty".toList)
    (ends : rest.endsRun isBaseChar = true) :
    ∃ application first, synonym.Reads ('\\' :: name) rest application first := by
  obtain ⟨value, first, command, isNamed, letters, noLog, isTarget, isValue, spelled, word⟩ :
      ∃ (value : Name) (first : Char) (command : Command), Command.named? name = some command ∧
        name.all Char.isAlpha = true ∧ name ≠ "log".toList ∧
          Command.rename .standard name = ' ' :: (value.text ++ [' ']) ∧
            (value.text = "pi".toList ∨ value.text = "Infinity".toList) ∧
              value.text.head? = some first ∧ first.isAlphanum = true := by
    rcases isConstant with rfl | rfl
    · exact ⟨⟨"pi".toList, rfl⟩, 'p', _, rfl, rfl, by decide, rfl, .inl rfl, rfl, rfl⟩
    · exact ⟨⟨"Infinity".toList, rfl⟩, 'I', _, rfl, rfl, by decide, rfl, .inr rfl, rfl, rfl⟩
  obtain ⟨more, shape⟩ := List.head?_eq_some_iff.1 spelled
  have renamed (tail : Text) (isTail : tail = [] ∨ tail = synonym.resolve rest) :
      (synonym.rename ('\\' :: name ++ tail)).skipBlanks =
        value.text ++ ' ' :: synonym.rename tail := by
    have stops : tail.endsRun Char.isAlpha = true := by
      rcases isTail with rfl | rfl
      · rfl
      · exact endsRun_resolve (by decide) (endsRun_isAlpha ends)
    have skipped := skipBlanks_gap (show [' '].all isAsciiBlank = true from rfl)
      (isBlank_eq_false_of_isAlphanum word) (more ++ ' ' :: synonym.rename tail)
    rw [List.cons_append, rename_word isNamed letters stops fun same => absurd same noLog, isTarget,
      shape]
    simpa using skipped
  refine ⟨.ofPlain (value.text ++ [' ']) [' '], first, rfl, fun _ => ?_, fun opens => ?_,
    fun tail isTail => ⟨more ++ ' ' :: synonym.rename tail, ?_⟩, fun tail isTail => ?_⟩
  · have core : (Application.ofPlain (value.text ++ [' ']) [' ']).core = value.text :=
      Text.before_append _ _
    rw [core]
    rcases isValue with same | same <;> rw [same] <;> decide +kernel
  · rw [Bracket.ofArgument?_of_isAlphanum word] at opens
    cases opens
  · rw [renamed tail isTail, shape, List.cons_append]
  · have isRead := Application.read?_constant isValue (synonym.rename tail)
    rw [renamed tail isTail, isRead]
    exact congrArg some (by
      rw [← Application.ofPlain_trail, List.append_assoc]
      rfl)

/-- How an exponent of a function is renamed and read again. -/
theorem exists_script {script : Text} {exponent? : Option Text}
    (isScript : synonym.IsScript script exponent?) :
    ∃ renamed : Text, (∀ behind, synonym.rename (script ++ behind) =
        renamed ++ synonym.rename behind) ∧
      match exponent? with
      | none => script = [] ∧ renamed = []
      | some exponent => ∀ behind, ∃ later,
          Text.skipBlanks (' ' :: (renamed ++ behind)) = '^' :: later ∧
            Text.exponent? .standard later = some ⟨exponent, behind⟩ := by
  cases isScript with
  | none => exact ⟨[], fun _ => rfl, rfl, rfl⟩
  | @digit front between d blank blankBehind digit =>
      have word : d.isAlphanum = true := by simp [Char.isAlphanum, digit]
      have plain : '\\' ∉ front ++ '^' :: (between ++ [d]) := by
        simp [Text.not_mem_of_all (c := '\\') (by decide) blank,
          Text.not_mem_of_all (c := '\\') (by decide) blankBehind,
          (ne_of_isAlphanum word (by decide) : d ≠ '\\').symm]
      refine ⟨front ++ '^' :: (between ++ [d]), fun behind => synonym.rename_append plain behind,
        fun behind => ⟨between ++ d :: behind, ?_, ?_⟩⟩
      · have spaced : (' ' :: front).all isAsciiBlank = true := by rw [List.all_cons, blank]; rfl
        have skipped := skipBlanks_gap spaced (show isBlank '^' = false by decide)
          (between ++ d :: behind)
        simpa using skipped
      · simp only [exponent?, skipBlanks_gap blankBehind (isBlank_eq_false_of_isAlphanum word),
          Bracket.ofArgument?_of_isAlphanum word,
          Vocabulary.standard.constantAt?_eq_none (isAlpha_eq_false_of_isDigit digit), word, if_true]
  | @group front between inside bracket blank blankBehind fixed closes whole =>
      obtain ⟨count, leaves⟩ := whole.exists_leaves
      have visible : isBlank bracket.opener = false := by cases bracket <;> rfl
      have opens : Bracket.ofArgument? bracket.opener = some bracket := by
        cases bracket with
        | square => exact absurd rfl fixed
        | _ => rfl
      have plain : '\\' ∉ front ++ '^' :: (between ++ [bracket.opener]) := by
        have opener : '\\' ≠ bracket.opener := by cases bracket <;> decide
        simp [Text.not_mem_of_all (c := '\\') (by decide) blank,
          Text.not_mem_of_all (c := '\\') (by decide) blankBehind, opener]
      refine ⟨front ++ '^' :: (between ++ bracket.opener ::
        (synonym.rename inside ++ [bracket.closer])), fun behind => ?_, fun behind =>
          ⟨between ++ bracket.opener :: (synonym.rename inside ++ bracket.closer :: behind), ?_, ?_⟩⟩
      · have renamed := synonym.rename_append plain (inside ++ bracket.closer :: behind)
        rw [rename_closer fixed whole.closed] at renamed
        simpa using renamed
      · have spaced : (' ' :: front).all isAsciiBlank = true := by rw [List.all_cons, blank]; rfl
        have skipped := skipBlanks_gap spaced (show isBlank '^' = false by decide)
          (between ++ bracket.opener :: (synonym.rename inside ++ bracket.closer :: behind))
        simpa using skipped
      · simp only [exponent?, skipBlanks_gap blankBehind visible, opens,
          leaves.group? fixed whole.plain, Option.map_some]

/-- What follows a command with its operand begins, blanks apart, with no subscript. -/
theorem head?_trimStart {script : Text} {exponent? : Option Text}
    (isScript : synonym.IsScript script exponent?) (blank : gap.all isAsciiBlank = true)
    (delimits : synonym.Delimits operand rest) (tail : Text) :
    (script ++ (gap ++ (operand ++ tail))).trimStart.head? ≠ some '_' := by
  have start {front : Text} {c : Char} (blank : front.all isAsciiBlank = true)
      (visible : isBlank c = false) (other : c ≠ '_') (later : Text) :
      (Text.trimStart (front ++ c :: later)).head? ≠ some '_' := by
    have all : front.all isBlank = true := isAllBlank_of_all_isAsciiBlank blank
    rw [trimStart, dropWhile_append_of_endsRun all (by simp [endsRun, visible])]
    exact fun same => other (Option.some.inj same)
  cases isScript with
  | none =>
      obtain ⟨c, later, rfl, visible, _, other⟩ := delimits.exists_cons
      exact start blank visible other _
  | digit blankFront =>
      rw [List.append_assoc, List.cons_append]
      exact start blankFront (by decide) (by decide) _
  | group blankFront =>
      rw [List.append_assoc, List.cons_append]
      exact start blankFront (by decide) (by decide) _

theorem function {name script : Text} {command : Command} {exponent? : Option Text}
    (isNamed : Command.named? name = some command) (takes : command.takesArgument = true)
    (ends : (script ++ (gap ++ operand)).endsRun Char.isAlpha = true)
    (isScript : synonym.IsScript script exponent?) (blank : gap.all isAsciiBlank = true)
    (delimits : synonym.Delimits operand rest)
    (reads : synonym.Reads operand rest application first) :
    ∃ application first,
      synonym.Reads ('\\' :: (name ++ (script ++ (gap ++ operand)))) rest application first := by
  obtain ⟨letters, nonempty, callable, isTarget, found⟩ := Command.exists_callable isNamed takes
  obtain ⟨d, more, spelled, visible, opensNone⟩ := callable.exists_cons
  obtain ⟨scripted, renamedScript, readsScript⟩ := exists_script isScript
  have skipped (tail : Text) : skipBlanks (gap ++ synonym.rename (operand ++ tail)) =
      (synonym.rename (operand ++ tail)).skipBlanks := by
    rw [skipBlanks, List.dropWhile_append_of_pos (List.all_eq_true.1 blank), ← skipBlanks]
  have renamed (tail : Text) :
      (synonym.rename ('\\' :: (name ++ (script ++ (gap ++ operand))) ++ tail)).skipBlanks =
        callable.text ++ ' ' :: (scripted ++ (gap ++ synonym.rename (operand ++ tail))) := by
    obtain ⟨c, later, same, _⟩ := delimits.exists_cons
    have shape : '\\' :: (name ++ (script ++ (gap ++ operand))) ++ tail =
        '\\' :: (name ++ (script ++ (gap ++ (operand ++ tail)))) := by simp
    have stops : (script ++ (gap ++ (operand ++ tail))).endsRun Char.isAlpha = true := by
      have whole := endsRun_append (script ++ (gap ++ operand)) (by simp [same]) ends tail
      simpa using whole
    have plainGap : '\\' ∉ gap := Text.not_mem_of_all (by decide) blank
    rw [shape, rename_word isNamed letters stops
      fun _ => head?_trimStart isScript blank delimits tail, isTarget, renamedScript,
      synonym.rename_append plainGap, spelled, List.cons_append, ← List.singleton_append,
      List.append_assoc]
    have start := skipBlanks_gap (show [' '].all isAsciiBlank = true from rfl) visible
      (more ++ ' ' :: (scripted ++ (gap ++ synonym.rename (operand ++ tail))))
    simpa using start
  refine ⟨application.within (.call callable exponent?), d, reads.ends, reads.complete,
    fun opens => ?_, fun tail _ => ?_, fun tail isTail => ?_⟩
  · rw [opensNone] at opens
    cases opens
  · rw [renamed, spelled]
    exact ⟨_, rfl⟩
  · rw [renamed]
    cases exponent? with
    | none =>
        obtain ⟨_, rfl⟩ := readsScript
        change _ = some ((application.followedBy (synonym.rename tail)).within (.call callable none))
        refine Application.read?_called (found _) ?_
        rw [List.nil_append, skipped]
        exact reads.isRead tail isTail
    | some exponent =>
        obtain ⟨later, start, isExponent⟩ :=
          readsScript (gap ++ synonym.rename (operand ++ tail))
        change _ = some ((application.followedBy (synonym.rename tail)).within
          (.call callable (some exponent)))
        refine Application.read?_raised (found _) start isExponent ?_
        rw [skipped]
        exact reads.isRead tail isTail

end Reads

/-- The reader behind the renaming stops at the end of an operand, too. -/
theorem Delimits.exists_reads (delimits : synonym.Delimits operand rest) :
    ∃ application first, synonym.Reads operand rest application first := by
  induction delimits with
  | group fixed closes whole => exact ⟨_, _, .group fixed whole⟩
  | sign isSign blank delimits ih =>
      obtain ⟨application, first, reads⟩ := ih
      exact ⟨_, _, reads.sign isSign blank⟩
  | numeral isNumeral ends noDigit noFactor =>
      exact ⟨_, Reads.numeral isNumeral ends noDigit noFactor⟩
  | coefficient isNumeral nonempty all nameless ends =>
      exact ⟨_, Reads.coefficient isNumeral nonempty all nameless ends⟩
  | letter letter ends noScript => exact ⟨_, _, .letter letter ends noScript⟩
  | constant isConstant ends => exact Reads.constant isConstant ends
  | function isNamed takes ends isScript blank delimits ih =>
      obtain ⟨application, first, reads⟩ := ih
      exact reads.function isNamed takes ends isScript blank delimits

end Synonym

end TexCalc
