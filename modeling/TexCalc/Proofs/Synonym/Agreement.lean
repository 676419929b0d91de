import TexCalc.Proofs.Remaining.LogBases
import TexCalc.Proofs.Symbol.Products
import TexCalc.Proofs.Synonym.Renamed

/-!
# Where two spellings agree

The spelling with a script takes its argument before commands are renamed, the other one when it is
called.  Two readers that follow different rules find the argument.  Where both of them find the same
one, both spellings have the same translation.
-/

namespace TexCalc

variable {vocabulary : Vocabulary}

/-! ## Marks that are passed over -/

namespace Text

variable {begins : Text → Bool} {c : Char} {front rest : Text}

theorem places_le_append (begins : Text → Bool) (front rest : Text) :
    rest.places begins ≤ (front ++ rest).places begins := by
  induction front with
  | nil => exact Nat.le_refl _
  | cons c front ih =>
      rw [List.cons_append, places]
      omega

/-- Nothing begins in a front behind which it begins as often. -/
theorem of_places_cons_eq (same : places begins (c :: (front ++ rest)) = rest.places begins) :
    begins (c :: (front ++ rest)) = false ∧ (front ++ rest).places begins = rest.places begins := by
  have most := places_le_append begins front rest
  rw [places] at same
  cases found : begins (c :: (front ++ rest)) with
  | false => exact ⟨rfl, by rw [found] at same; simpa using same⟩
  | true =>
      rw [found, Bool.toNat_true] at same
      omega

theorem resolveInverses_of_places
    (same : (front ++ rest).places beginsInverse = rest.places beginsInverse) :
    resolveInverses vocabulary (front ++ rest) = front ++ rest.resolveInverses vocabulary := by
  induction front with
  | nil => rfl
  | cons c front ih =>
      obtain ⟨noMark, behind⟩ := of_places_cons_eq same
      have none : inverseMark? (c :: (front ++ rest)) = none := by
        simpa [beginsInverse] using noMark
      rw [List.cons_append, resolveInverses_cons none, ih behind, List.cons_append]

theorem resolveLogBases_of_places
    (same : (front ++ rest).places beginsReadableBase = rest.places beginsReadableBase) :
    resolveLogBases vocabulary (front ++ rest) = front ++ rest.resolveLogBases vocabulary := by
  induction front with
  | nil => rfl
  | cons c front ih =>
      obtain ⟨noMark, behind⟩ := of_places_cons_eq same
      have none : (afterLogMark? (c :: (front ++ rest))).bind Argument.read? = none := by
        simpa [beginsReadableBase] using noMark
      rw [List.cons_append, resolveLogBases_cons none, ih behind, List.cons_append]

theorem trimStart_of_skipBlanks {text : Text} (start : text.skipBlanks = c :: rest)
    (visible : isBlank c = false) : text.trimStart = c :: rest := by
  have split : text = text.takeWhile isAsciiBlank ++ c :: rest := by
    rw [← start]
    exact List.takeWhile_append_dropWhile.symm
  have blank : isAllBlank (text.takeWhile isAsciiBlank) = true :=
    isAllBlank_of_all_isAsciiBlank List.all_takeWhile
  rw [split]
  exact dropWhile_append_of_endsRun blank (by simp [endsRun, visible])

end Text

namespace Synonym

open Text

variable (synonym : Synonym)

/-- What the step for the spelling with a script looks for. -/
def beginsOwn : Synonym → Text → Bool
  | commonLog | naturalLog => beginsReadableBase
  | arcsine | arccosine | arctangent => beginsInverse

/-- The readers of both spellings find the same argument at the start of a text. -/
inductive AgreesOn (text : Text) : Prop where
  /-- The spelling with a script has no argument. -/
  | bare (none : text.bareArgument? .standard = none)
      (noBase : text.trimStart.head? ≠ some '_') : AgreesOn text
  /-- A group, in which neither a base nor an inverse is read. -/
  | group {bracket : Bracket} {inside : Group} {rest : Text} (fixed : bracket ≠ .square)
      (begins : text.skipBlanks = bracket.opener :: rest)
      (closes : bracket.group? rest = some inside) (whole : synonym.IsWhole inside.inside)
      (noOwn : text.places synonym.beginsOwn = inside.rest.places synonym.beginsOwn) :
      AgreesOn text
  /-- An operand at which both readers stop, in which neither a base nor an inverse is read. -/
  | operand {gap operand rest : Text} (split : text = gap ++ (operand ++ rest))
      (blank : gap.all isAsciiBlank = true) (delimits : synonym.Delimits operand rest)
      (noGroup : operand.head?.bind Bracket.ofArgument? = none) (whole : synonym.IsWhole operand)
      (noOwn : text.places synonym.beginsOwn = rest.places synonym.beginsOwn) : AgreesOn text

variable {synonym} {text argument rest gap : Text} {bracket : Bracket}

/-! ## Steps up to the renaming -/

theorem resolve_append {front : Text}
    (noOwn : (front ++ rest).places synonym.beginsOwn = rest.places synonym.beginsOwn) :
    synonym.resolve (front ++ rest) = front ++ synonym.resolve rest := by
  cases synonym with
  | commonLog | naturalLog => exact resolveLogBases_of_places noOwn
  | arcsine | arccosine | arctangent => exact resolveInverses_of_places noOwn

/-- What the function takes from the renamed text is the operand. -/
theorem Reads.read?_target {operand : Text} {application : Application} {first : Char}
    (reads : synonym.Reads operand rest application first) (split : text = gap ++ (operand ++ rest))
    (blank : gap.all isAsciiBlank = true) (noOpener : Bracket.ofArgument? first = none)
    (noOwn : text.places synonym.beginsOwn = rest.places synonym.beginsOwn) :
    Application.read? .standard (some (.function synonym.target)) (' ' :: synonym.passed text) =
      some ((application.followedBy (synonym.passed rest)).within
        (.call (.function synonym.target) none)) := by
  have plain : '\\' ∉ gap := Text.not_mem_of_all (by decide) blank
  have resolved : synonym.resolve text = gap ++ (operand ++ synonym.resolve rest) := by
    have whole : (gap ++ operand) ++ rest = text := by rw [split, List.append_assoc]
    rw [← whole, resolve_append (by rwa [whole]), List.append_assoc]
  have start : Text.skipBlanks (' ' :: synonym.passed text) =
      (synonym.rename (operand ++ synonym.resolve rest)).skipBlanks := by
    have spaced : (' ' :: gap).all isAsciiBlank = true := by
      rw [List.all_cons, blank]
      rfl
    rw [passed, resolved, synonym.rename_append plain, ← List.cons_append, skipBlanks,
      List.dropWhile_append_of_pos (List.all_eq_true.1 spaced), ← skipBlanks]
  obtain ⟨later, begins⟩ := reads.begins _ (.inr rfl)
  have isRead := reads.isRead _ (.inr rfl)
  have noCaret : first ≠ '^' := by
    rintro rfl
    rw [begins, Application.read?_caret] at isRead
    cases isRead
  have apart : (Option.any Char.isAlpha (' ' :: synonym.passed text).head?) = false := rfl
  rw [Application.read?_function_eq, start, begins]
  rw [begins] at isRead
  simp only [if_neg noCaret, noOpener, Option.isSome_none, apart, Bool.false_and,
    Bool.false_eq_true, if_false, isRead, Option.map_some]
  rfl

/-! ## Calls -/

/-- The function is found in front of a blank or a group. -/
theorem callableAt?_target (synonym : Synonym) {c : Char} (isEnd : c = '(' ∨ c = ' ') (rest : Text) :
    Vocabulary.standard.callableAt? (synonym.target.text ++ c :: rest) =
      some (.function synonym.target, c :: rest) := by
  obtain ⟨callable, found, same⟩ : ∃ callable, Vocabulary.standard.callableAt?
      (synonym.target.text ++ c :: rest) = some (callable, c :: rest) ∧
        callable.text = synonym.target.text := by
    rcases isEnd with rfl | rfl <;> cases synonym <;> exact Vocabulary.exists_callableAt?_eq rfl
  rw [found]
  cases callable with
  | function name => rw [Name.ext_text same]
  | parked parked =>
      have marked : parked.name.head? = synonym.target.text.head? := congrArg List.head? same
      cases synonym <;> cases marked

/-- A call of the function with a group. -/
theorem completeCalls_group (fixed : bracket ≠ .square) (blank : gap.all isAsciiBlank = true)
    (isEnd : gap = [] ∧ bracket = .round ∨ gap.head? = some ' ') (closed : text.IsClosed)
    (rest : Text) :
    Text.completeCalls .standard false (' ' :: (synonym.target.text ++
        (gap ++ bracket.opener :: (text ++ bracket.closer :: rest)))) =
      ' ' :: (synonym.target.text ++ (gap ++ bracket.opener ::
        (text.completeCalls .standard false ++
          bracket.closer :: rest.completeCalls .standard false))) := by
  have found (behind : Text) : Vocabulary.standard.callableAt?
      (synonym.target.text ++ (gap ++ bracket.opener :: behind)) =
        some (.function synonym.target, gap ++ bracket.opener :: behind) := by
    rcases isEnd with ⟨rfl, rfl⟩ | spaced
    · exact synonym.callableAt?_target (.inl rfl) behind
    · cases gap with
      | nil => cases spaced
      | cons c gap =>
          cases spaced
          exact synonym.callableAt?_target (.inr rfl) _
  have unread (behind : Text) : Application.read? .standard (some (.function synonym.target))
      (gap ++ bracket.opener :: behind) = none := by
    have visible : isAsciiBlank bracket.opener = false := by cases bracket <;> rfl
    have noCaret : bracket.opener ≠ '^' := by cases bracket <;> decide
    have opens : (Bracket.ofArgument? bracket.opener).isSome = true := by
      cases bracket with
      | square => exact absurd rfl fixed
      | _ => rfl
    have skipped : skipBlanks (gap ++ bracket.opener :: behind) = bracket.opener :: behind := by
      rw [skipBlanks, List.dropWhile_append_of_pos (List.all_eq_true.1 blank), ← skipBlanks,
        skipBlanks_cons visible]
    rw [Application.read?_function_eq, skipped]
    simp only [if_neg noCaret, if_pos opens]
  rw [completeCalls_plain (by decide) (Vocabulary.standard.callableAt?_eq_none rfl (by decide) _),
    Application.completeCalls_of_read?_eq_none (found _) (unread _),
    completeCalls_of_isAllBlank (isAllBlank_of_all_isAsciiBlank blank),
    completeCalls_brackets fixed closed]
  rfl

namespace IsWhole

variable (whole : synonym.IsWhole argument)

include whole

/-- A whole argument is whole when its calls are complete. -/
theorem completeCalls : '\\' ∉ (synonym.rename argument).completeCalls .standard false ∧
    ((synonym.rename argument).completeCalls .standard false).IsClosed := by
  obtain ⟨count, leaves⟩ := whole.exists_leaves
  have plain : '\\' ∉ (synonym.rename argument).completeCalls .standard false :=
    plain_completeCalls whole.plain
  exact ⟨plain, (leaves.completeCalls (hasWordsOnly_of_not_mem whole.plain)).isClosed plain⟩

theorem isClosed_rename : (synonym.rename argument).IsClosed := by
  obtain ⟨count, leaves⟩ := whole.exists_leaves
  exact leaves.isClosed whole.plain

/-- The symbols of the function and a group. -/
theorem calledSymbols_group (fixed : bracket ≠ .square) (blank : gap.all isAsciiBlank = true)
    (isEnd : gap = [] ∧ bracket = .round ∨ gap.head? = some ' ') (rest : Text) :
    calledSymbols .standard (Text.completeCalls .standard false
        (synonym.rename (' ' :: (synonym.target.text ++
          (gap ++ bracket.opener :: (argument ++ bracket.closer :: rest)))))) =
      symbols .standard synonym.target.text ++ .delimiter '(' ::
        (innerSymbols .standard ((synonym.rename argument).completeCalls .standard false) ++
          calledSymbols .standard
            (bracket.closer :: (synonym.rename rest).completeCalls .standard false)) := by
  have plain : '\\' ∉ ' ' :: (synonym.target.text ++ (gap ++ [bracket.opener])) := by
    have name : '\\' ∉ synonym.target.text := by cases synonym <;> decide
    have opener : '\\' ≠ bracket.opener := by cases bracket <;> decide
    have blanks : '\\' ∉ gap := Text.not_mem_of_all (by decide) blank
    simp [name, opener, blanks]
  have all : synonym.target.text.all isBaseChar = true := by cases synonym <;> decide
  have split (behind : Text) : ' ' :: (synonym.target.text ++ (gap ++ bracket.opener :: behind)) =
      (' ' :: (synonym.target.text ++ (gap ++ [bracket.opener]))) ++ behind := by simp
  obtain ⟨plainCalled, closedCalled⟩ := whole.completeCalls
  rw [split, rename_append synonym plain, rename_closer fixed whole.closed, ← split,
    completeCalls_group fixed blank isEnd whole.isClosed_rename,
    calledSymbols_call fixed fixed all blank closedCalled plainCalled]

end IsWhole

/-! ## The two spellings -/

/-- The function in front of blanks stays as it is when commands are renamed. -/
theorem rename_target (synonym : Synonym) (rest : Text) :
    synonym.rename (' ' :: (synonym.target.text ++ ' ' :: ' ' :: rest)) =
      ' ' :: (synonym.target.text ++ ' ' :: ' ' :: synonym.rename rest) := by
  have plain : '\\' ∉ ' ' :: (synonym.target.text ++ [' ', ' ']) := by cases synonym <;> decide
  have whole := rename_append synonym plain rest
  simpa using whole

theorem passed_named (synonym : Synonym) (noBase : text.trimStart.head? ≠ some '_') :
    synonym.passed (synonym.named.text ++ ' ' :: text) =
      ' ' :: (synonym.target.text ++ ' ' :: ' ' :: synonym.passed text) := by
  rw [passed, resolve_named synonym noBase, rename_named, passed]

theorem passed_scripted_of_bare (none : text.bareArgument? .standard = none)
    (noBase : text.trimStart.head? ≠ some '_') :
    synonym.passed (synonym.scripted.text ++ ' ' :: text) =
      synonym.passed (synonym.named.text ++ ' ' :: text) := by
  have bare : synonym.resolve (synonym.scripted.text ++ ' ' :: text) =
      ' ' :: (synonym.target.text ++ ' ' :: ' ' :: synonym.resolve text) := by
    rw [resolve_scripted, none]
  rw [passed_named synonym noBase, passed, bare, rename_target, passed]

/-- The symbols of the spelling with a script. -/
theorem calledSymbols_scripted {argument : Cut}
    (isArgument : text.bareArgument? .standard = some argument)
    (whole : synonym.IsWhole argument.text) :
    calledSymbols .standard (Text.completeCalls .standard false
        (synonym.passed (synonym.scripted.text ++ ' ' :: text))) =
      symbols .standard synonym.target.text ++ .delimiter '(' ::
        (innerSymbols .standard ((synonym.rename argument.text).completeCalls .standard false) ++
          calledSymbols .standard
            (')' :: (synonym.passed argument.rest).completeCalls .standard false)) := by
  have group := whole.calledSymbols_group (show Bracket.round ≠ .square by decide)
    (show List.all [] isAsciiBlank = true from rfl) (.inl ⟨rfl, rfl⟩)
    (synonym.resolve argument.rest)
  have taken : synonym.resolve (synonym.scripted.text ++ ' ' :: text) = ' ' ::
      (synonym.target.text ++ '(' :: (argument.text ++ ')' :: synonym.resolve argument.rest)) := by
    rw [resolve_scripted, isArgument]
  rw [passed, taken]
  exact group

/-- The symbols of the other spelling in front of a group. -/
theorem calledSymbols_named_group {inside : Group} (fixed : bracket ≠ .square)
    (begins : text.skipBlanks = bracket.opener :: rest)
    (closes : bracket.group? rest = some inside) (whole : synonym.IsWhole inside.inside)
    (noOwn : text.places synonym.beginsOwn = inside.rest.places synonym.beginsOwn) :
    calledSymbols .standard (Text.completeCalls .standard false
        (synonym.passed (synonym.named.text ++ ' ' :: text))) =
      symbols .standard synonym.target.text ++ .delimiter '(' ::
        (innerSymbols .standard ((synonym.rename inside.inside).completeCalls .standard false) ++
          calledSymbols .standard (bracket.closer ::
            (synonym.passed inside.rest).completeCalls .standard false)) := by
  have visible : isBlank bracket.opener = false := by cases bracket <;> rfl
  have noBase : text.trimStart.head? ≠ some '_' := by
    rw [trimStart_of_skipBlanks begins visible]
    cases bracket <;> exact fun same => absurd (Option.some.inj same) (by decide)
  have blank : List.all (' ' :: ' ' :: text.takeWhile isAsciiBlank) isAsciiBlank = true := by
    rw [List.all_cons, List.all_cons, List.all_takeWhile]
    rfl
  have split : text = (text.takeWhile isAsciiBlank ++
      bracket.opener :: (inside.inside ++ [bracket.closer])) ++ inside.rest := by
    have whole : text.takeWhile isAsciiBlank ++ text.skipBlanks = text :=
      List.takeWhile_append_dropWhile
    rw [begins, Bracket.eq_of_group? closes] at whole
    simpa using whole.symm
  have kept : synonym.resolve text = text.takeWhile isAsciiBlank ++
      bracket.opener :: (inside.inside ++ bracket.closer :: synonym.resolve inside.rest) := by
    conv => lhs; rw [split]
    rw [resolve_append (by rwa [← split])]
    simp
  rw [passed_named synonym noBase, passed, kept, ← rename_target]
  exact whole.calledSymbols_group fixed blank (.inr rfl) (synonym.resolve inside.rest)

/-- The symbols of the other spelling in front of any other operand. -/
theorem calledSymbols_named_operand {argument : Cut} {application : Application}
    (noBase : text.trimStart.head? ≠ some '_') (closed : (application.called .standard).IsClosed)
    (plain : '\\' ∉ application.called .standard) (ends : application.rest.isAllBlank = true)
    (before : Application.read? .standard (some (.function synonym.target))
        (' ' :: synonym.passed text) =
      some ((application.followedBy (synonym.passed argument.rest)).within
        (.call (.function synonym.target) none))) :
    calledSymbols .standard (Text.completeCalls .standard false
        (synonym.passed (synonym.named.text ++ ' ' :: text))) =
      symbols .standard synonym.target.text ++ .delimiter '(' ::
        (innerSymbols .standard (application.called .standard) ++
          calledSymbols .standard
            (')' :: (synonym.passed argument.rest).completeCalls .standard false)) := by
  have all : synonym.target.text.all isBaseChar = true := by cases synonym <;> decide
  have isRead : Application.read? .standard (some (.function synonym.target))
      (' ' :: ' ' :: synonym.passed text) =
        some ((application.followedBy (synonym.passed argument.rest)).within
          (.call (.function synonym.target) none)) := by
    rw [Application.read?_function_eq] at before ⊢
    exact before
  have whole := completeCalls_application (synonym.callableAt?_target (.inr rfl) _) isRead
  have shape : Text.completeCalls .standard false
      (' ' :: (synonym.target.text ++ ' ' :: ' ' :: synonym.passed text)) =
        ' ' :: (synonym.target.text ++ ([] ++ Bracket.round.opener :: (application.called .standard ++
          Bracket.round.closer :: (application.rest ++
            (synonym.passed argument.rest).completeCalls .standard false)))) := by
    rw [completeCalls_plain (by decide)
      (Vocabulary.standard.callableAt?_eq_none rfl (by decide) _), whole]
    change ' ' :: ((synonym.target.text ++ (application.called .standard).parenthesized) ++
      Text.completeCalls .standard false
        (application.rest ++ synonym.passed argument.rest)) = _
    rw [completeCalls_of_isAllBlank ends, List.append_assoc, parenthesized_append]
    rfl
  have closer : calledSymbols .standard (')' :: (application.rest ++
        (synonym.passed argument.rest).completeCalls .standard false)) =
      calledSymbols .standard
        (')' :: (synonym.passed argument.rest).completeCalls .standard false) :=
    calledSymbols_closer ends _
  rw [passed_named synonym noBase, shape, calledSymbols_call (by decide) (by decide) all rfl closed
    plain, Bracket.closer, closer]

/-- Where both readers find the same argument, the reports on the symbols are the same. -/
theorem AgreesOn.ofSymbols_eq (agrees : synonym.AgreesOn text) :
    Report.ofSymbols (Symbol.multiply Symbol.joinsNames (calledSymbols .standard
        (Text.completeCalls .standard false
          (synonym.passed (synonym.scripted.text ++ ' ' :: text))))) =
      Report.ofSymbols (Symbol.multiply Symbol.joinsNames (calledSymbols .standard
        (Text.completeCalls .standard false
          (synonym.passed (synonym.named.text ++ ' ' :: text))))) := by
  cases agrees with
  | bare none noBase => rw [passed_scripted_of_bare none noBase]
  | @group bracket inside rest fixed begins closes whole noOwn =>
      have opens : Bracket.ofArgument? bracket.opener = some bracket := by
        cases bracket with
        | square => exact absurd rfl fixed
        | _ => rfl
      have isArgument : text.bareArgument? .standard = some ⟨inside.inside, inside.rest⟩ := by
        rw [bareArgument?, begins]
        simp only [opens, closes, Option.map_some]
      rw [calledSymbols_scripted isArgument whole,
        calledSymbols_named_group fixed begins closes whole noOwn]
      cases bracket with
      | square => exact absurd rfl fixed
      | round => rfl
      | curly =>
          rcases @calledSymbols_brace .standard
              ((synonym.passed inside.rest).completeCalls .standard false) with
            same | ⟨later, times, juxtaposed⟩
          · rw [Bracket.closer, same]
          · rw [Bracket.closer, times, juxtaposed]
            have product := Report.ofSymbols_times (symbols .standard synonym.target.text ++
              .delimiter '(' :: innerSymbols .standard
                ((synonym.rename inside.inside).completeCalls .standard false)) later
            simpa using product.symm
  | @operand gap operand rest split blank delimits noGroup whole noOwn =>
      obtain ⟨application, first, reads⟩ := delimits.exists_reads
      obtain ⟨c, later, begins, visible, _, noSubscript⟩ := delimits.exists_cons
      have start : text.skipBlanks = operand ++ rest := by
        rw [split, begins]
        exact skipBlanks_gap blank visible (later ++ rest)
      have isArgument : text.bareArgument? .standard = some ⟨operand, rest⟩ :=
        delimits.bareArgument? noGroup start
      have noBase : text.trimStart.head? ≠ some '_' := by
        rw [trimStart_of_skipBlanks (start.trans (by rw [begins]; rfl)) visible]
        exact fun same => noSubscript (Option.some.inj same)
      obtain ⟨count, leaves⟩ := whole.exists_leaves
      have plain : '\\' ∉ (synonym.rename operand).skipBlanks := fun isMember =>
        whole.plain ((suffix_skipBlanks _).subset isMember)
      have noOpener : Bracket.ofArgument? first = none := by
        cases opens : Bracket.ofArgument? first with
        | none => rfl
        | some bracket =>
            have isFirst := reads.opens (by rw [opens]; rfl)
            rw [isFirst, Option.bind_some, opens] at noGroup
            cases noGroup
      have alone := reads.isRead [] (.inl rfl)
      obtain ⟨more, isFirst⟩ := reads.begins [] (.inl rfl)
      rw [List.append_nil] at isFirst
      rw [List.append_nil, rename_nil, Application.followedBy, List.append_nil] at alone
      have noGroup' : (synonym.rename operand).skipBlanks.head?.bind Bracket.ofArgument? = none := by
        rw [isFirst]
        exact noOpener
      have called := Application.readsAs_called plain leaves.skipBlanks alone reads.ends
        reads.complete noGroup'
      obtain ⟨_, leavesCalled⟩ := called.exists_leaves
      have blanks : isAllBlank ((synonym.rename operand).takeWhile isAsciiBlank) = true :=
        isAllBlank_of_all_isAsciiBlank List.all_takeWhile
      have spaced : innerSymbols .standard ((synonym.rename operand).completeCalls .standard
          false) = innerSymbols .standard
            ((synonym.rename operand).skipBlanks.completeCalls .standard false) := by
        have whole : (synonym.rename operand).takeWhile isAsciiBlank ++
            (synonym.rename operand).skipBlanks = synonym.rename operand :=
          List.takeWhile_append_dropWhile
        conv => lhs; rw [← whole, completeCalls_of_isAllBlank blanks, innerSymbols_blanks blanks]
      have before : Application.read? .standard (some (.function synonym.target))
          (' ' :: synonym.passed text) =
            some ((application.followedBy (synonym.passed (⟨operand, rest⟩ : Cut).rest)).within
              (.call (.function synonym.target) none)) :=
        reads.read?_target split blank noOpener noOwn
      rw [calledSymbols_scripted isArgument whole, spaced, ← called.same,
        calledSymbols_named_operand noBase (leavesCalled.isClosed called.plain) called.plain
          reads.ends before]

end Synonym

namespace Translator

variable {synonym : Synonym} {argument : Text}

/-- The symbols of a formula that begins with a spelling. -/
theorem symbols_spelling {spelling : Spelling} (isFunction : spelling.IsFunction)
    (prepared : ∀ text, synonym.prepare (spelling.text ++ ' ' :: text) =
      spelling.text ++ ' ' :: synonym.prepare text) :
    symbols {} (Text.trim (spelling.text ++ ' ' :: argument)) =
      Symbol.multiply Symbol.joinsNames (Text.calledSymbols .standard (Text.completeCalls .standard
        false (synonym.passed (spelling.text ++ ' ' :: synonym.prepare argument.normal)))) := by
  have linear : Text.linear .standard .standard
      (Text.normal (Text.trim (spelling.text ++ ' ' :: argument))) =
        (Text.raised .standard (Text.completeCalls .standard false
          (synonym.passed (spelling.text ++ ' ' :: synonym.prepare argument.normal)))).flatten := by
    rw [Text.normal_trim, isFunction.linear_normal, synonym.linear_eq, prepared]
    rfl
  exact congrArg (Text.classify .standard) linear

/-- Both spellings of a function have the same report where both readers find the same argument. -/
theorem report_scripted_eq {first second : Report}
    (agrees : synonym.AgreesOn (synonym.prepare argument.normal))
    (scripted : report {} (synonym.scripted.text ++ ' ' :: argument) = .ok first)
    (named : report {} (synonym.named.text ++ ' ' :: argument) = .ok second) : first = second := by
  obtain ⟨_, rfl⟩ := (report_eq_ok_iff rfl).1 scripted
  obtain ⟨_, rfl⟩ := (report_eq_ok_iff rfl).1 named
  rw [reportDespite, reportDespite,
    symbols_spelling synonym.isFunction_scripted synonym.prepare_scripted,
    symbols_spelling synonym.isFunction_named synonym.prepare_named, agrees.ofSymbols_eq]

/-- The arcsine takes the square of the cosine with its sign in both spellings. -/
theorem report_scripted_of_cosine :
    Synonym.arcsine.AgreesOn (Synonym.arcsine.prepare (Text.normal "-\\cos^2 2x + \\pi".toList)) ∧
      report {} "\\sin^\x7b-1\x7d -\\cos^2 2x + \\pi".toList =
        .ok ⟨"asin(-(cos(2*x)^2))+pi".toList, []⟩ ∧
      report {} "\\arcsin -\\cos^2 2x + \\pi".toList =
        .ok ⟨"asin(-(cos(2*x)^2))+pi".toList, []⟩ ∧
        (⟨"asin(-(cos(2*x)^2))+pi".toList, []⟩ : Report) =
          ⟨"asin(-(cos(2*x)^2))+pi".toList, []⟩ := by
  have whole : Synonym.arcsine.IsWhole "-\\cos^2 2x".toList := {
    closed := .of_isNested (by decide +kernel) (by decide +kernel)
    plain := by decide +kernel
    exists_leaves := ⟨0, .of_plain (by decide +kernel)⟩ }
  have agrees : Synonym.arcsine.AgreesOn
      (Synonym.arcsine.prepare (Text.normal "-\\cos^2 2x + \\pi".toList)) := by
    have square : Synonym.arcsine.IsScript ([] ++ '^' :: ([] ++ ['2'])) (some ['2']) :=
      .digit rfl rfl rfl
    have coefficient : Synonym.arcsine.Delimits ("2".toList ++ "x".toList) " + \\pi".toList :=
      .coefficient rfl (by decide) rfl (by decide +kernel) rfl
    have cosine : Synonym.arcsine.Delimits ('\\' :: ("cos".toList ++ (([] ++ '^' :: ([] ++ ['2'])) ++
        ([' '] ++ ("2".toList ++ "x".toList))))) " + \\pi".toList :=
      .function rfl rfl rfl square rfl coefficient
    have signed : Synonym.arcsine.Delimits ('-' :: ([] ++ "\\cos^2 2x".toList)) " + \\pi".toList :=
      .sign (.inl rfl) rfl cosine
    have split : Synonym.arcsine.prepare (Text.normal "-\\cos^2 2x + \\pi".toList) =
        [] ++ ("-\\cos^2 2x".toList ++ " + \\pi".toList) := by decide +kernel
    exact .operand split rfl signed rfl whole (by decide +kernel)
  have scripted : report {} (Synonym.arcsine.scripted.text ++ ' ' ::
      "-\\cos^2 2x + \\pi".toList) = .ok ⟨"asin(-(cos(2*x)^2))+pi".toList, []⟩ :=
    eq_ok_of_toOption (by decide +kernel)
  have named : report {} (Synonym.arcsine.named.text ++ ' ' :: "-\\cos^2 2x + \\pi".toList) =
      .ok ⟨"asin(-(cos(2*x)^2))+pi".toList, []⟩ := eq_ok_of_toOption (by decide +kernel)
  exact ⟨agrees, scripted, named, report_scripted_eq agrees scripted named⟩

/-- An inverse function in the argument of another one is not resolved. -/
theorem report_scripted_ne_of_inverse :
    report {} (Synonym.arcsine.scripted.text ++ ' ' :: "(\\cos^\x7b-1\x7d x)".toList) =
        .ok ⟨"asin((cos(x)^(-1)))".toList, []⟩ ∧
      report {} (Synonym.arcsine.named.text ++ ' ' :: "(\\cos^\x7b-1\x7d x)".toList) =
        .ok ⟨"asin(acos(x))".toList, []⟩ ∧
      (⟨"asin((cos(x)^(-1)))".toList, []⟩ : Report) ≠ ⟨"asin(acos(x))".toList, []⟩ :=
  ⟨eq_ok_of_toOption (by decide +kernel), eq_ok_of_toOption (by decide +kernel), by decide⟩

end Translator

end TexCalc
