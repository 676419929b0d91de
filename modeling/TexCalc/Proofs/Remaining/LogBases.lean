import TexCalc.Proofs.Remaining.Braces
import TexCalc.Proofs.Remaining.Inverses
import TexCalc.Proofs.Words.Modes

/-!
# Bases that remain

As for inverse functions, reading goes on behind the argument of a logarithm with a base.  A
subscript of a logarithm is left in place when no base can be read behind it, and then none can be
read in the result.  The bases that can still be read are therefore in the bases and arguments that
were taken over as they are written.
-/

namespace TexCalc

namespace Text

/-- Whether a text begins with a logarithm and the sign of its base. -/
def beginsBase (text : Text) : Bool :=
  text.afterLogMark?.isSome

/-- Whether a text begins with a logarithm with a base that can be read. -/
def beginsReadableBase (text : Text) : Bool :=
  (text.afterLogMark?.bind Argument.read?).isSome

theorem beginsBase_eq (text : Text) : text.beginsBase = beginsPattern "log".toList ['_'] text := by
  have single (rest : Text) : afterMarks? ['_'] rest = rest.trimStart.dropLead? ['_'] := by
    cases found : rest.trimStart.dropLead? ['_'] <;> simp [afterMarks?, found]
  rw [beginsBase, afterLogMark?, beginsPattern]
  exact congrArg Option.isSome (Option.bind_congr fun rest _ => (single rest).symm)

theorem beginsBase_of_readable {text : Text} (found : text.beginsReadableBase = true) :
    text.beginsBase = true := by
  rw [beginsReadableBase] at found
  rw [beginsBase]
  cases isMark : text.afterLogMark? with
  | none =>
      rw [isMark] at found
      cases found
  | some _ => rfl

theorem eq_of_beginsBase {c : Char} {rest : Text} (found : beginsBase (c :: rest) = true) :
    c = '\\' := by
  rw [beginsBase_eq] at found
  exact eq_of_beginsPattern found

theorem eq_of_beginsReadableBase {c : Char} {rest : Text}
    (found : beginsReadableBase (c :: rest) = true) : c = '\\' :=
  eq_of_beginsBase (beginsBase_of_readable found)

theorem BeginAlike.beginsBase_eq {text after : Text} (alike : BeginAlike text after) (c : Char) :
    beginsBase (c :: text) = beginsBase (c :: after) := by
  rw [Text.beginsBase_eq, Text.beginsBase_eq]
  exact alike.beginsPattern_eq (by decide) (by decide) c

/-- A text and the same text with its bases read begin alike. -/
theorem beginAlike_resolveLogBases (vocabulary : Vocabulary) (text : Text) :
    BeginAlike (text.resolveLogBases vocabulary) text := by
  have back {text : Text} {base : Argument}
      (found : text.afterLogMark?.bind Argument.read? = some base) : text.Stops := by
    obtain ⟨_, _, rfl, _, _⟩ := exists_of_logBase? found
    exact .of_visible (by decide) (by decide) (by decide) _
  have replaced (base argument right : Text) : Stops (logOf base argument ++ right) := by
    simp only [logOf, logFunction?]
    split
    · rename_i found
      split at found
      · cases found
        exact .of_blank (by decide) (by decide) _
      · split at found
        · cases found
          exact .of_blank (by decide) (by decide) _
        · cases found
    · exact .of_blank (by decide) (by decide) _
  have replaced' (base right : Text) : Stops (bareLog base ++ right) := by
    simp only [bareLog, logFunction?]
    split
    · rename_i found
      split at found
      · cases found
        exact .of_blank (by decide) (by decide) _
      · split at found
        · cases found
          exact .of_blank (by decide) (by decide) _
        · cases found
    · exact .of_blank (by decide) (by decide) _
  fun_induction resolveLogBases vocabulary text with
  | case1 => exact .of_stops .nil .nil
  | case2 c rest _ ih => exact ih.cons c
  | case3 c rest base isBase argument _ _ => exact .of_stops (replaced _ _ _) (back isBase)
  | case4 c rest base isBase _ _ => exact .of_stops (replaced' _ _) (back isBase)

/-! ## Subscripts that are left in place -/

/-- A base that cannot be read cannot be read when the bases behind it have been. -/
theorem read?_resolveLogBases_eq_none (vocabulary : Vocabulary) {text : Text}
    (isNone : Argument.read? text = none) :
    Argument.read? (text.resolveLogBases vocabulary) = none := by
  have plain : '\\' ∉ text.takeWhile isAsciiBlank := by
    intro isMember
    have blank := List.all_eq_true.1 (List.all_takeWhile (p := isAsciiBlank)) _ isMember
    exact absurd blank (by decide)
  have skipped : (text.resolveLogBases vocabulary).skipBlanks =
      (text.skipBlanks.resolveLogBases vocabulary).skipBlanks := by
    have split : text = text.takeWhile isAsciiBlank ++ text.skipBlanks :=
      List.takeWhile_append_dropWhile.symm
    conv => lhs; rw [split, resolveLogBases_append plain]
    exact List.dropWhile_append_of_pos (List.all_eq_true.1 List.all_takeWhile)
  simp only [Argument.read?] at isNone
  simp only [Argument.read?, skipped]
  split at isNone
  · rename_i start
    rw [start]
    simp [resolveLogBases, skipBlanks]
  · rename_i c rest start
    have visible := not_isAsciiBlank_of_skipBlanks start
    have kept (right : Text) : skipBlanks (c :: right) = c :: right := by
      simp [skipBlanks, visible]
    rw [start]
    split at isNone
    · rename_i brace
      have unclosed : Bracket.curly.group? (resolveLogBases vocabulary rest) = none := by
        rw [Option.map_eq_none_iff] at isNone
        rw [Bracket.group?, ← Option.not_isSome_iff_eq_none, ← Braces.past_eq_closed_iff,
          Braces.past_resolveLogBases, Braces.past_eq_closed_iff, ← Bracket.group?, isNone]
        decide
      rw [brace] at kept ⊢
      rw [resolveLogBases_plain (by decide), kept]
      simp only [if_true, unclosed, Option.map_none]
    · rename_i noBrace
      split at isNone
      · rename_i back
        rw [Option.map_eq_none_iff, Control.read?_eq_none_iff] at isNone
        subst back isNone
        rw [resolveLogBases_cons (by decide), resolveLogBases]
        rfl
      · rename_i noBack
        rw [resolveLogBases_plain noBack, kept]
        split at isNone
        · rename_i refused
          simp only [if_neg noBrace, if_neg noBack, if_pos refused]
        · cases isNone

/-- A subscript that stays where it is has no base in the result. -/
theorem beginsReadableBase_resolveLogBases (vocabulary : Vocabulary) {c : Char} {rest : Text}
    (isNone : (afterLogMark? (c :: rest)).bind Argument.read? = none) :
    beginsReadableBase (c :: rest.resolveLogBases vocabulary) = false := by
  have alike := (beginAlike_resolveLogBases vocabulary rest).beginsBase_eq c
  cases isMark : afterLogMark? (c :: rest) with
  | none =>
      refine Bool.eq_false_iff.2 fun found => ?_
      have still := alike.symm.trans (beginsBase_of_readable found)
      rw [beginsBase, isMark] at still
      cases still
  | some after =>
      obtain ⟨script, isScript, isAfter⟩ := Option.bind_eq_some_iff.1 isMark
      rw [isMark] at isNone
      have plain : '\\' ∉ "log".toList ++ (script.takeWhile isBlank ++ ['_']) := by
        simp only [List.mem_append, not_or]
        refine ⟨by decide, fun isMember => ?_, by decide⟩
        have blank := List.all_eq_true.1 (List.all_takeWhile (p := isBlank)) _ isMember
        exact absurd blank (by decide)
      have trimmed : script.trimStart = '_' :: after := dropLead?_eq_some_iff.1 isAfter
      have split : script = script.takeWhile isBlank ++ '_' :: after := by
        rw [← trimmed]
        exact List.takeWhile_append_dropWhile.symm
      have whole : c :: rest =
          '\\' :: ("log".toList ++ (script.takeWhile isBlank ++ ['_']) ++ after) := by
        rw [dropLead?_eq_some_iff.1 isScript]
        conv => lhs; rw [split]
        simp
      obtain ⟨rfl, rfl⟩ := List.cons.inj whole
      rw [resolveLogBases_append plain]
      have behind : afterLogMark? ('\\' :: ("log".toList ++ (script.takeWhile isBlank ++ ['_']) ++
          after.resolveLogBases vocabulary)) = some (after.resolveLogBases vocabulary) := by
        refine Option.bind_eq_some_iff.2
          ⟨script.takeWhile isBlank ++ '_' :: after.resolveLogBases vocabulary,
            dropLead?_eq_some_iff.2 (by simp), dropLead?_eq_some_iff.2 ?_⟩
        rw [trimStart, List.dropWhile_append_of_pos (List.all_eq_true.1 List.all_takeWhile)]
        rfl
      rw [beginsReadableBase, behind]
      simp [read?_resolveLogBases_eq_none vocabulary isNone]

/-! ## The bases and arguments -/

/-- The arguments that are taken over when bases are read, in order. -/
def logArguments (vocabulary : Vocabulary) (text : Text) : List Text :=
  match text with
  | [] => []
  | c :: rest =>
      match _mark : (afterLogMark? (c :: rest)).bind Argument.read? with
      | none => logArguments vocabulary rest
      | some base =>
          match _argument : base.rest.bareArgument? vocabulary with
          | some argument => argument.text :: logArguments vocabulary argument.rest
          | none => logArguments vocabulary base.rest
termination_by text.length
decreasing_by
  · simp
  all_goals
    obtain ⟨after, isAfter, isBase⟩ := Option.bind_eq_some_iff.1 _mark
    have marked := length_lt_of_afterLogMark? isAfter
    have read := Argument.length_lt_of_read? isBase
  · have := length_le_of_bareArgument? _argument
    omega
  · omega

section

variable {vocabulary : Vocabulary} {c : Char} {rest : Text} {base : Argument}

theorem logArguments_cons_of_none
    (isNone : (afterLogMark? (c :: rest)).bind Argument.read? = none) :
    logArguments vocabulary (c :: rest) = logArguments vocabulary rest := by
  rw [logArguments]
  split
  · rfl
  · rename_i isBase
    rw [isNone] at isBase
    cases isBase

variable (isBase : (afterLogMark? (c :: rest)).bind Argument.read? = some base)

include isBase

theorem logArguments_cons_of_argument {argument : Cut}
    (isArgument : base.rest.bareArgument? vocabulary = some argument) :
    logArguments vocabulary (c :: rest) =
      argument.text :: logArguments vocabulary argument.rest := by
  rw [logArguments]
  split
  · rename_i isNone
    rw [isBase] at isNone
    cases isNone
  · rename_i other isOther
    cases isBase.symm.trans isOther
    split
    · rename_i found isFound
      cases isArgument.symm.trans isFound
      rfl
    · rename_i isNone
      rw [isArgument] at isNone
      cases isNone

theorem logArguments_cons_of_bare (noArgument : base.rest.bareArgument? vocabulary = none) :
    logArguments vocabulary (c :: rest) = logArguments vocabulary base.rest := by
  rw [logArguments]
  split
  · rename_i isNone
    rw [isBase] at isNone
    cases isNone
  · rename_i other isOther
    cases isBase.symm.trans isOther
    split
    · rename_i found isFound
      rw [noArgument] at isFound
      cases isFound
    · rfl

end

/-- An argument that is read is read with any text behind the closing bracket, too. -/
theorem beginsReadableBase_append {text : Text} (found : text.beginsReadableBase = true)
    (right : Text) : beginsReadableBase (text ++ right) = true := by
  obtain ⟨base, isBase⟩ := Option.isSome_iff_exists.1 found
  obtain ⟨blanks, after, rfl, allBlank, isRead⟩ := exists_of_logBase? isBase
  have marked : afterLogMark? ("\\log".toList ++ (blanks ++ '_' :: after) ++ right) =
      some (after ++ right) := by
    refine Option.bind_eq_some_iff.2 ⟨blanks ++ '_' :: (after ++ right),
      dropLead?_eq_some_iff.2 (by simp), dropLead?_eq_some_iff.2 ?_⟩
    rw [trimStart, List.dropWhile_append_of_pos (List.all_eq_true.1 allBlank)]
    rfl
  rw [beginsReadableBase, marked, Option.bind_some]
  have skipped : (after ++ right).skipBlanks =
      if after.skipBlanks.isEmpty then right.skipBlanks else after.skipBlanks ++ right :=
    List.dropWhile_append
  simp only [Argument.read?] at isRead
  simp only [Argument.read?, skipped]
  split at isRead
  · cases isRead
  · rename_i c rest start
    simp only [start, List.isEmpty_cons, Bool.false_eq_true, if_false, List.cons_append]
    split at isRead
    · rename_i brace
      obtain ⟨group, isGroup, _⟩ := Option.map_eq_some_iff.1 isRead
      have closed : (Bracket.curly.group? (rest ++ right)).isSome = true := by
        rw [Bracket.group?, ← Braces.past_eq_closed_iff, Braces.past_append,
          (Braces.past_eq_closed_iff 0 rest).2 (by rw [← Bracket.group?, isGroup]; rfl),
          Braces.past_closed]
      rw [if_pos brace, Option.isSome_map, closed]
    · rename_i noBrace
      rw [if_neg noBrace]
      split at isRead
      · rename_i back
        obtain ⟨control, isControl, _⟩ := Option.map_eq_some_iff.1 isRead
        rw [if_pos back, Option.isSome_map]
        cases rest with
        | nil => cases isControl
        | cons d rest =>
            rw [List.cons_append, Control.read?]
            split <;> rfl
      · rename_i noBack
        rw [if_neg noBack]
        split at isRead
        · cases isRead
        · rename_i accepted
          rw [if_neg accepted]
          rfl

theorem places_parenthesized_append {begins : Text → Bool}
    (commands : ∀ c rest, begins (c :: rest) = true → c = '\\') (text rest : Text) :
    (text.parenthesized ++ rest).places begins = (text ++ ')' :: rest).places begins := by
  rw [parenthesized_append, ← List.singleton_append]
  exact places_plain_append commands (by decide)

/-- The bases that can be read in a text in parentheses: those of the text itself, and perhaps some
whose braces it leaves open. -/
theorem places_readable_parenthesized (text rest : Text) :
    text.places beginsReadableBase + rest.places beginsReadableBase ≤
        (text.parenthesized ++ rest).places beginsReadableBase ∧
      (text.parenthesized ++ rest).places beginsReadableBase ≤
        text.places beginsBase + rest.places beginsReadableBase := by
  have closed : places beginsReadableBase (')' :: rest) = rest.places beginsReadableBase :=
    places_plain_append (fun _ _ => eq_of_beginsReadableBase) (show '\\' ∉ [')'] by decide)
  rw [places_parenthesized_append fun _ _ => eq_of_beginsReadableBase, ← closed]
  constructor
  · exact le_places_append fun c text found => beginsReadableBase_append found _
  · refine places_append_le fun c text found => ?_
    rw [← (BeginAlike.closer text rest).beginsBase_eq c]
    exact beginsBase_of_readable found

/-- What is put in for a logarithm with a base has the bases of its two parts. -/
theorem places_logOf (base argument rest : Text) :
    base.places beginsReadableBase + argument.places beginsReadableBase +
          rest.places beginsReadableBase ≤
        (logOf base argument ++ rest).places beginsReadableBase ∧
      (logOf base argument ++ rest).places beginsReadableBase ≤
        base.places beginsBase + argument.places beginsBase + rest.places beginsReadableBase := by
  have commands (c : Char) (rest : Text) (found : beginsReadableBase (c :: rest) = true) :
      c = '\\' := eq_of_beginsReadableBase found
  simp only [logOf]
  split
  · rename_i function found
    have known : base.places beginsReadableBase = 0 ∧ '\\' ∉ ' ' :: function := by
      simp only [logFunction?] at found
      split at found
      · rename_i ten
        cases found
        rw [ten]
        decide
      · split at found
        · rename_i euler
          cases found
          rw [euler]
          decide
        · cases found
    have bounds := places_readable_parenthesized argument rest
    rw [List.append_assoc, places_plain_append commands known.2]
    omega
  · have shape : ' ' :: Text.parenthesized ("log".toList ++ argument.parenthesized ++
        "/log".toList ++ base.parenthesized) ++ rest =
          " (log".toList ++ (argument.parenthesized ++
            ("/log".toList ++ (base.parenthesized ++ ([')'] ++ rest)))) := by
      simp [parenthesized]
    have first := places_readable_parenthesized argument
      ("/log".toList ++ (base.parenthesized ++ ([')'] ++ rest)))
    have second := places_readable_parenthesized base ([')'] ++ rest)
    rw [places_plain_append commands (by decide)] at first second
    rw [shape, places_plain_append commands (by decide)]
    omega

theorem places_bareLog (base rest : Text) :
    base.places beginsReadableBase + rest.places beginsReadableBase ≤
        (bareLog base ++ rest).places beginsReadableBase ∧
      (bareLog base ++ rest).places beginsReadableBase ≤
        base.places beginsBase + rest.places beginsReadableBase := by
  have commands (c : Char) (rest : Text) (found : beginsReadableBase (c :: rest) = true) :
      c = '\\' := eq_of_beginsReadableBase found
  simp only [bareLog]
  split
  · rename_i function found
    have known : base.places beginsReadableBase = 0 ∧ '\\' ∉ ' ' :: (function ++ [' ']) := by
      simp only [logFunction?] at found
      split at found
      · rename_i ten
        cases found
        rw [ten]
        decide
      · split at found
        · rename_i euler
          cases found
          rw [euler]
          decide
        · cases found
    rw [List.cons_append, places_plain_append commands known.2]
    omega
  · have shape : ' ' :: Text.parenthesized ("1/log".toList ++ base.parenthesized) ++
        "* log ".toList ++ rest =
          " (1/log".toList ++ (base.parenthesized ++ (")* log ".toList ++ rest)) := by
      simp [parenthesized]
    have bounds := places_readable_parenthesized base (")* log ".toList ++ rest)
    rw [places_plain_append commands (by decide)] at bounds
    rw [shape, places_plain_append commands (by decide)]
    exact bounds

/-- The bases that can be read when all have been replaced stand in the bases and arguments that
were taken over: all that can be read in these alone, and none where these have no sign of a
base. -/
theorem places_beginsReadableBase_resolveLogBases (vocabulary : Vocabulary) (text : Text) :
    ((text.logBases vocabulary ++ text.logArguments vocabulary).map
          (places beginsReadableBase)).sum ≤
        (text.resolveLogBases vocabulary).places beginsReadableBase ∧
      (text.resolveLogBases vocabulary).places beginsReadableBase ≤
        ((text.logBases vocabulary ++ text.logArguments vocabulary).map
          (places beginsBase)).sum := by
  simp only [List.map_append, List.sum_append]
  fun_induction resolveLogBases vocabulary text with
  | case1 => simp [logBases, logArguments, places]
  | case2 c rest isNone ih =>
      rw [logBases_cons_of_none isNone, logArguments_cons_of_none isNone, places,
        beginsReadableBase_resolveLogBases vocabulary isNone, Bool.toNat_false, Nat.zero_add]
      exact ih
  | case3 c rest base isBase argument isArgument ih =>
      have bounds := places_logOf base.text.trim argument.text
        (argument.rest.resolveLogBases vocabulary)
      rw [logBases_cons_of_argument isBase isArgument,
        logArguments_cons_of_argument isBase isArgument]
      simp only [List.map_cons, List.sum_cons]
      omega
  | case4 c rest base isBase isNone ih =>
      have bounds := places_bareLog base.text.trim (base.rest.resolveLogBases vocabulary)
      rw [logBases_cons_of_bare isBase isNone, logArguments_cons_of_bare isBase isNone]
      simp only [List.map_cons, List.sum_cons]
      omega

/-- What can still be replaced after all inverse functions, and after all bases, was taken over
with the argument, or the base, of something else.  The inverse functions are exactly those that
stand in an argument.  Of the bases, those that can be read where they stand are left. -/
theorem places_remaining (vocabulary : Vocabulary) (text : Text) :
    (text.resolveInverses vocabulary).places beginsInverse =
        ((text.inverseArguments vocabulary).map (places beginsInverse)).sum ∧
      ((text.logBases vocabulary ++ text.logArguments vocabulary).map
            (places beginsReadableBase)).sum ≤
          (text.resolveLogBases vocabulary).places beginsReadableBase ∧
        (text.resolveLogBases vocabulary).places beginsReadableBase ≤
          ((text.logBases vocabulary ++ text.logArguments vocabulary).map
            (places beginsBase)).sum :=
  ⟨places_beginsInverse_resolveInverses vocabulary text,
    places_beginsReadableBase_resolveLogBases vocabulary text⟩

end Text

namespace Translator

/-- The inner one of two inverse sines becomes a power of the sine, and the base of the inner one
of two logarithms stays a subscript. -/
theorem report_of_inverse_in_inverse :
    report {} "\\sin^\x7b-1\x7d(\\sin^\x7b-1\x7d(x))".toList =
        .ok ⟨"asin((sin(x)^(-1)))".toList, []⟩ ∧
      (Text.resolveInverses .standard "\\sin^\x7b-1\x7d(\\sin^\x7b-1\x7d(x))".toList).places
          Text.beginsInverse = 1 ∧
        (Text.resolveLogBases .standard "\\log_2(\\log_3 x)".toList).places
          Text.beginsReadableBase = 1 :=
  ⟨eq_ok_of_toOption (by decide +kernel), by decide +kernel, by decide +kernel⟩

end Translator

end TexCalc
