import TexCalc.Proofs.Inside.Flat
import TexCalc.Proofs.Inside.Powers

/-!
# The symbols of called text

When every function has its argument, parked functions are written out, powers are formed, and the
text is made flat and read as symbols.  A closed text in front of a closing bracket has symbols of
its own through all of this.
-/

namespace TexCalc

namespace Parked

/-- A name in front of a text takes its argument from what the text becomes. -/
theorem expandParked_name (parked : Parked) (text : Text) :
    Text.expandParked (parked.name ++ text) = parked.writtenOut text.expandParked := by
  have still := (settles_expandParked text).still
  refine expandParked_of_settles
    ((settles_expandParked text).last parked.name (fun _ => True) ?_ trivial ?_ ?_)
  · exact fun _ _ _ moves => ⟨writeOutLast?_append moves, trivial⟩
  · obtain ⟨letters, isName, all, _⟩ := parked.exists_name_eq
    have isRead : read? (parked.name ++ text.expandParked) = some (parked, text.expandParked) :=
      read?_eq_some_iff.2 rfl
    rw [isName, List.cons_append] at isRead ⊢
    rw [writeOutLast?, writeOutLast?_append_eq_none (Text.mark_not_mem_of_all_isAlpha all) still,
      isRead]
    rfl
  · rw [writeOutLast?_eq_none_iff, count_eq_of_writtenOut, ← writeOutLast?_eq_none_iff]
    exact still

end Parked

namespace Text

variable {vocabulary : Vocabulary} {text rest run gap blanks : Text} {c : Char} {bracket : Bracket}

/-! ## Parked functions and powers -/

/-- The text with its parked functions written out and its powers in their final form. -/
def raised (vocabulary : Vocabulary) (text : Text) : Text :=
  text.expandParked.resolveExponents vocabulary

theorem raised_cons (noWord : isBaseChar c = false) (noMark : c ≠ Parked.mark) (rest : Text) :
    raised vocabulary (c :: rest) = c :: rest.raised vocabulary := by
  rw [raised, expandParked_cons noMark, resolveExponents_cons noWord]
  rfl

theorem raised_of_isIdle (idle : text.isIdle = true) : text.raised vocabulary = text := by
  have still := Parked.writeOutLast?_of_not_mem (mark_not_mem_of_isIdle idle)
  rw [raised, Parked.expandParked_of_still still, resolveExponents_of_isIdle idle]

theorem mark_not_mem_of_all_isBaseChar (all : run.all isBaseChar = true) : Parked.mark ∉ run :=
  not_mem_of_all (by decide) all

theorem isBaseChar_opener (bracket : Bracket) : isBaseChar bracket.opener = false := by
  cases bracket <;> rfl

theorem isBaseChar_closer (bracket : Bracket) : isBaseChar bracket.closer = false := by
  cases bracket <;> rfl

theorem isStop_closer (fixed : bracket ≠ .square) : isStop bracket.closer = true := by
  cases bracket with
  | square => exact absurd rfl fixed
  | _ => rfl

theorem isTrail_closer (fixed : bracket ≠ .square) (rest : Text) :
    IsTrail (bracket.closer :: rest) :=
  .of_isStop (by cases bracket <;> rfl) (isStop_closer fixed) rest

/-- A run of letters and digits in front of a group. -/
theorem raised_run (all : run.all isBaseChar = true) (blank : gap.all isAsciiBlank = true)
    (bracket : Bracket) (rest : Text) :
    raised vocabulary (run ++ (gap ++ bracket.opener :: rest)) =
      run ++ (gap ++ bracket.opener :: rest.raised vocabulary) := by
  have blanks : gap.isAllBlank = true :=
    List.all_eq_true.2 fun c isMember => isBlank_of_isAsciiBlank (List.all_eq_true.1 blank c isMember)
  have behind : raised vocabulary (gap ++ bracket.opener :: rest) =
      gap ++ bracket.opener :: rest.raised vocabulary := by
    clear blank
    induction gap with
    | nil => exact raised_cons (isBaseChar_opener bracket) (opener_ne_mark bracket) rest
    | cons c gap ih =>
        rw [isAllBlank, List.all_cons, Bool.and_eq_true] at blanks
        have noMark : c ≠ Parked.mark := by
          rintro rfl
          cases blanks.1
        rw [List.cons_append, raised_cons (isBaseChar_eq_false_of_isBlank blanks.1) noMark,
          ih blanks.2, List.cons_append]
  have ends : endsRun isBaseChar (expandParked (gap ++ bracket.opener :: rest)) = true ∧
      (expandParked (gap ++ bracket.opener :: rest)).beginsScript = false := by
    have noMark : Parked.mark ∉ gap ++ [bracket.opener] := by
      rw [List.mem_append, not_or]
      refine ⟨Parked.mark_not_mem_of_isAllBlank blanks, ?_⟩
      simpa using (opener_ne_mark bracket).symm
    have front : gap ++ bracket.opener :: rest = (gap ++ [bracket.opener]) ++ rest := by simp
    rw [front, Parked.expandParked_append noMark, List.append_assoc, List.singleton_append]
    constructor
    · cases gap with
      | nil => simp [endsRun, isBaseChar_opener]
      | cons c gap =>
          rw [isAllBlank, List.all_cons, Bool.and_eq_true] at blanks
          simp [endsRun, isBaseChar_eq_false_of_isBlank blanks.1]
    · have visible : isAsciiBlank bracket.opener = false := by cases bracket <;> rfl
      have noCaret : bracket.opener ≠ '^' := by cases bracket <;> decide
      have skipped : skipBlanks (gap ++ bracket.opener :: rest.expandParked) =
          skipBlanks (bracket.opener :: rest.expandParked) :=
        List.dropWhile_append_of_pos (List.all_eq_true.1 blank)
      rw [beginsScript, skipped, skipBlanks_cons visible]
      simp [noCaret]
  have whole := Raises.append all ends.1 ends.2 behind
  rw [raised, Parked.expandParked_append (mark_not_mem_of_all_isBaseChar all)]
  exact whole

theorem isClosed_expandParked (closed : text.IsClosed) : text.expandParked.IsClosed :=
  Parked.writeOutUpTo_induct (motive := IsClosed)
    (fun _ _ found closed => Parked.isClosed_of_writeOutLast? closed found) _ closed

theorem plain_expandParked (plain : '\\' ∉ text) : '\\' ∉ text.expandParked := by
  rw [← List.count_eq_zero, count_expandParked, List.count_eq_zero]
  exact plain

theorem plain_raised (plain : '\\' ∉ text) : '\\' ∉ text.raised vocabulary := by
  have only := hasWordsOnly_of_not_mem (plain_expandParked plain)
  rw [← List.count_eq_zero, raised, (backslashes_resolveExponents vocabulary only).2,
    List.count_eq_zero]
  exact plain_expandParked plain

/-- In front of a closing bracket a closed text becomes what it becomes alone. -/
theorem raised_append (fixed : bracket ≠ .square) (closed : text.IsClosed) (plain : '\\' ∉ text)
    (rest : Text) : raised vocabulary (text ++ bracket.closer :: rest) =
      text.raised vocabulary ++ raised vocabulary (bracket.closer :: rest) := by
  have isTrail := isTrail_closer fixed rest
  rw [raised, expandParked_trail isTrail (.inr closed)]
  refine resolveExponents_trail ?_ (.inr ⟨plain_expandParked plain, isClosed_expandParked closed⟩)
  rw [expandParked_cons (closer_ne_mark bracket)]
  exact isTrail_closer fixed _

theorem isIdle_of_isAllBlank (blank : blanks.isAllBlank = true) : blanks.isIdle = true := by
  refine List.all_eq_true.2 fun c isMember => ?_
  rw [List.all_eq_true.1 blank c isMember]
  rfl

theorem raised_append_blanks (blank : blanks.isAllBlank = true) :
    raised vocabulary (text ++ blanks) = text.raised vocabulary ++ blanks := by
  have isTrail := IsTrail.of_isAllBlank blank
  have idle := isIdle_of_isAllBlank blank
  have still := Parked.writeOutLast?_of_not_mem (mark_not_mem_of_isIdle idle)
  rw [raised, expandParked_trail isTrail (.inl idle), Parked.expandParked_of_still still,
    resolveExponents_trail isTrail (.inl idle),
    resolveExponents_of_isIdle idle]
  rfl

/-! ## Symbols -/

/-- The symbols of a text in which all calls are complete. -/
def calledSymbols (vocabulary : Vocabulary) (text : Text) : List Symbol :=
  (text.raised vocabulary).flatten.symbols vocabulary

/-- The symbols of such a text between two others. -/
def innerSymbols (vocabulary : Vocabulary) (text : Text) : List Symbol :=
  (text.raised vocabulary).flatSymbols vocabulary

theorem isMark_closer (bracket : Bracket) : IsMark bracket.closer := by
  cases bracket <;> exact ⟨rfl, rfl, by decide⟩

/-- Between other texts, too, a closed text in front of a closing bracket has its own symbols. -/
theorem innerSymbols_append (fixed : bracket ≠ .square) (closed : text.IsClosed)
    (plain : '\\' ∉ text) (rest : Text) :
    innerSymbols vocabulary (text ++ bracket.closer :: rest) =
      text.innerSymbols vocabulary ++ innerSymbols vocabulary (bracket.closer :: rest) := by
  have isMark := isMark_closer bracket
  have noGroup : (trimStart (bracket.closer :: rest.raised vocabulary)).head? ≠ some '\x7b' := by
    rw [trimStart_eq_of_head isMark.visible]
    simpa using isMark.noGroup
  have passed : raised vocabulary (bracket.closer :: rest) =
      bracket.closer :: rest.raised vocabulary :=
    raised_cons isMark.noWord (closer_ne_mark bracket) rest
  obtain ⟨d, later, joined, same⟩ :=
    exists_joinGroups_cons bracket.closer (rest.raised vocabulary)
  rw [innerSymbols, raised_append fixed closed plain, innerSymbols, innerSymbols, passed,
    flatSymbols, joinGroups_append noGroup, List.map_append, flatSymbols, flatSymbols, joined,
    List.map_cons, same, symbols_append_cons isMark.flatBracket.noWord
      (plain_map_flatBracket (plain_raised plain))]

theorem innerSymbols_cons (noWord : isBaseChar c = false) (noMark : c ≠ Parked.mark)
    (noCloser : c ≠ '\x7d') (noBack : c ≠ '\\') (rest : Text) :
    innerSymbols vocabulary (c :: rest) =
      markSymbols (flatBracket c) ++ rest.innerSymbols vocabulary := by
  have flat : isBaseChar (flatBracket c) = false := by rw [isBaseChar_flatBracket, noWord]
  rw [innerSymbols, raised_cons noWord noMark, flatSymbols, joinGroups_cons_of_ne noCloser,
    List.map_cons, symbols_cons flat (mt flatBracket_eq_backslash_iff.1 noBack)]
  rfl

theorem innerSymbols_blank (blank : isBlank c = true) (rest : Text) :
    innerSymbols vocabulary (c :: rest) = rest.innerSymbols vocabulary := by
  have noMark : c ≠ Parked.mark := by
    rintro rfl
    cases blank
  have noCloser : c ≠ '\x7d' := by
    rintro rfl
    cases blank
  rw [innerSymbols, raised_cons (isBaseChar_eq_false_of_isBlank blank) noMark, flatSymbols,
    joinGroups_cons_of_ne noCloser, List.map_cons, flatBracket_of_isBlank blank, symbols_blank blank]
  rfl

theorem innerSymbols_blanks (blank : blanks.isAllBlank = true) (rest : Text) :
    innerSymbols vocabulary (blanks ++ rest) = rest.innerSymbols vocabulary := by
  induction blanks with
  | nil => rfl
  | cons c blanks ih =>
      rw [isAllBlank, List.all_cons, Bool.and_eq_true] at blank
      rw [List.cons_append, innerSymbols_blank blank.1, ih blank.2]

theorem innerSymbols_append_blanks (plain : '\\' ∉ text) (blank : blanks.isAllBlank = true) :
    innerSymbols vocabulary (text ++ blanks) = text.innerSymbols vocabulary := by
  have noCloser : '\x7d' ∉ blanks := not_mem_of_all (by decide) blank
  have noGroup : (trimStart blanks).head? ≠ some '\x7b' := by
    have nothing : trimStart (blanks ++ []) = [] := dropWhile_append_of_endsRun blank rfl
    rw [← List.append_nil blanks, nothing]
    exact nofun
  have alone := joinGroups_append_of_not_mem noCloser []
  rw [List.append_nil, joinGroups_nil, List.append_nil] at alone
  rw [innerSymbols, raised_append_blanks blank, flatSymbols, joinGroups_append noGroup, alone,
    List.map_append, map_flatBracket_of_isAllBlank blank,
    symbols_append_blanks (plain_map_flatBracket (plain_raised plain)) blank]
  rfl

theorem innerSymbols_trim (plain : '\\' ∉ text) :
    innerSymbols vocabulary text.trim = text.innerSymbols vocabulary := by
  obtain ⟨lead, trail, split, leadBlank, trailBlank⟩ := text.exists_trim_eq
  have plainTrim : '\\' ∉ text.trim := fun isMember =>
    plain (split ▸ List.mem_append_right _ (List.mem_append_left _ isMember))
  conv => rhs; rw [split, innerSymbols_blanks leadBlank]
  rw [innerSymbols_append_blanks plainTrim trailBlank]

theorem innerSymbols_sign (sign : c = '-' ∨ c = '+') (rest : Text) :
    innerSymbols vocabulary (c :: rest) = .operator c :: rest.innerSymbols vocabulary := by
  rcases sign with rfl | rfl
  · have single : markSymbols (flatBracket '-') = [.operator '-'] := by decide +kernel
    rw [innerSymbols_cons rfl (by decide) (by decide) (by decide), single]
    rfl
  · have single : markSymbols (flatBracket '+') = [.operator '+'] := by decide +kernel
    rw [innerSymbols_cons rfl (by decide) (by decide) (by decide), single]
    rfl

theorem markSymbols_opener (bracket : Bracket) :
    markSymbols (flatBracket bracket.opener) = [.delimiter '('] := by
  cases bracket <;> decide +kernel

theorem innerSymbols_opener (bracket : Bracket) (rest : Text) :
    innerSymbols vocabulary (bracket.opener :: rest) =
      .delimiter '(' :: rest.innerSymbols vocabulary := by
  have noCloser : bracket.opener ≠ '\x7d' := by cases bracket <;> decide
  have noBack : bracket.opener ≠ '\\' := by cases bracket <;> decide
  rw [innerSymbols_cons (isBaseChar_opener bracket) (opener_ne_mark bracket) noCloser noBack,
    markSymbols_opener]
  rfl

theorem innerSymbols_closer (bracket : Bracket) (blank : blanks.isAllBlank = true) :
    innerSymbols vocabulary (bracket.closer :: blanks) = [.delimiter ')'] := by
  have plain : '\\' ∉ [bracket.closer] := by cases bracket <;> decide
  have single : flatSymbols vocabulary [bracket.closer] = [.delimiter ')'] := by
    have joined : joinGroups [bracket.closer] = [bracket.closer] := by
      cases bracket <;> simp [joinGroups, trimStart, Bracket.closer]
    have noWord : isBaseChar (flatBracket bracket.closer) = false := by
      rw [isBaseChar_flatBracket, isBaseChar_closer]
    have noBack : flatBracket bracket.closer ≠ '\\' := by cases bracket <;> decide
    have mark : markSymbols (flatBracket bracket.closer) = [.delimiter ')'] := by
      cases bracket <;> decide +kernel
    rw [flatSymbols, joined, List.map_singleton, symbols_cons noWord noBack, mark, symbols,
      List.append_nil]
  have nothing : raised vocabulary [] = [] := raised_of_isIdle rfl
  have passed : raised vocabulary [bracket.closer] = bracket.closer :: raised vocabulary [] :=
    raised_cons (isBaseChar_closer bracket) (closer_ne_mark bracket) []
  rw [← List.singleton_append, innerSymbols_append_blanks plain blank, innerSymbols, passed, nothing,
    single]

/-- A closed text in brackets. -/
theorem innerSymbols_group (fixed : bracket ≠ .square) (closed : text.IsClosed)
    (plain : '\\' ∉ text) (blank : blanks.isAllBlank = true) :
    innerSymbols vocabulary (bracket.opener :: (text ++ bracket.closer :: blanks)) =
      Symbol.parenthesized (text.innerSymbols vocabulary) := by
  rw [innerSymbols_opener, innerSymbols_append fixed closed plain, innerSymbols_closer bracket blank]
  rfl

theorem flatSymbols_run (all : run.all isBaseChar = true) (ends : rest.endsRun isBaseChar = true) :
    flatSymbols vocabulary (run ++ rest) =
      symbols vocabulary run ++ rest.flatSymbols vocabulary := by
  have noCloser : '\x7d' ∉ run := not_mem_of_all (by decide) all
  have same : run.map flatBracket = run := by
    rw [List.map_congr_left fun c isMember =>
      flatBracket_of_isBaseChar (List.all_eq_true.1 all c isMember)]
    exact List.map_id' run
  have stillEnds : endsRun isBaseChar (rest.joinGroups.map flatBracket) = true := by
    cases rest with
    | nil => rw [joinGroups_nil]; rfl
    | cons c rest =>
        obtain ⟨d, later, joined, flat⟩ := exists_joinGroups_cons c rest
        rw [joined, List.map_cons, flat]
        simpa [endsRun, isBaseChar_flatBracket] using ends
  rw [flatSymbols, joinGroups_append_of_not_mem noCloser, List.map_append, same,
    symbols_append all stillEnds]
  rfl

/-- A name in front of a group. -/
theorem innerSymbols_run (all : run.all isBaseChar = true) (blank : gap.all isAsciiBlank = true)
    (bracket : Bracket) (rest : Text) :
    innerSymbols vocabulary (run ++ (gap ++ bracket.opener :: rest)) =
      symbols vocabulary run ++ innerSymbols vocabulary (bracket.opener :: rest) := by
  have blanks : gap.isAllBlank = true :=
    List.all_eq_true.2 fun c isMember => isBlank_of_isAsciiBlank (List.all_eq_true.1 blank c isMember)
  have ends : endsRun isBaseChar (gap ++ bracket.opener :: rest.raised vocabulary) = true := by
    cases gap with
    | nil => simp [endsRun, isBaseChar_opener]
    | cons c gap =>
        rw [isAllBlank, List.all_cons, Bool.and_eq_true] at blanks
        simp [endsRun, isBaseChar_eq_false_of_isBlank blanks.1]
  have behind : raised vocabulary (gap ++ bracket.opener :: rest) =
      gap ++ bracket.opener :: rest.raised vocabulary :=
    raised_run (show List.all ([] : Text) isBaseChar = true from rfl) blank bracket rest
  rw [innerSymbols, raised_run all blank, flatSymbols_run all ends, ← behind, ← innerSymbols,
    innerSymbols_blanks blanks]

/-! ## Calls -/

theorem isAllBlank_of_all_isAsciiBlank (blank : gap.all isAsciiBlank = true) :
    gap.isAllBlank = true :=
  List.all_eq_true.2 fun c isMember => isBlank_of_isAsciiBlank (List.all_eq_true.1 blank c isMember)

theorem symbols_of_isAllBlank (blank : blanks.isAllBlank = true) :
    symbols vocabulary blanks = [] := by
  rw [← List.append_nil blanks, symbols_append_of_isAllBlank blank, symbols]

/-- Behind a name it makes no difference how a group is opened. -/
theorem calledSymbols_run (fixed : bracket ≠ .square) (all : run.all isBaseChar = true)
    (blank : gap.all isAsciiBlank = true) (rest : Text) :
    calledSymbols vocabulary (' ' :: (run ++ (gap ++ bracket.opener :: rest))) =
      symbols vocabulary run ++ calledSymbols vocabulary ('(' :: rest) := by
  have blanks := isAllBlank_of_all_isAsciiBlank blank
  have isMark : IsMark '(' := ⟨rfl, rfl, by decide⟩
  have raisedAll : raised vocabulary (' ' :: (run ++ (gap ++ bracket.opener :: rest))) =
      (' ' :: (run ++ gap)) ++ bracket.opener :: rest.raised vocabulary := by
    rw [raised_cons rfl (by decide), raised_run all blank]
    simp
  have noCloser : '\x7d' ∉ ' ' :: (run ++ gap) := by
    rw [List.mem_cons, List.mem_append, not_or, not_or]
    exact ⟨by decide, not_mem_of_all (by decide) all, not_mem_of_all (by decide) blank⟩
  have plain : '\\' ∉ ' ' :: (run ++ gap) := by
    rw [List.mem_cons, List.mem_append, not_or, not_or]
    exact ⟨by decide, not_mem_of_all (by decide) all, not_mem_of_all (by decide) blank⟩
  have opened : flatten ((' ' :: (run ++ gap)) ++ bracket.opener :: rest.raised vocabulary) =
      flatten ((' ' :: (run ++ gap)) ++ '(' :: rest.raised vocabulary) := by
    cases bracket with
    | round => rfl
    | square => exact absurd rfl fixed
    | curly => exact flatten_brace noCloser _
  have front : flatSymbols vocabulary (' ' :: (run ++ gap)) = symbols vocabulary run := by
    have spaced : flatSymbols vocabulary (' ' :: (run ++ gap)) =
        flatSymbols vocabulary (run ++ gap) := by
      rw [flatSymbols, joinGroups_cons_of_ne (by decide), List.map_cons]
      exact symbols_blank (by decide) _
    have ended : flatSymbols vocabulary gap = [] := by
      have joined := joinGroups_append_of_not_mem (fun isMember => noCloser
        (List.mem_cons_of_mem _ (List.mem_append_right run isMember))) []
      rw [List.append_nil, joinGroups_nil, List.append_nil] at joined
      rw [flatSymbols, joined, map_flatBracket_of_isAllBlank blanks, symbols_of_isAllBlank blanks]
    rw [spaced, flatSymbols_run all (endsRun_of_isAllBlank blanks), ended, List.append_nil]
  rw [calledSymbols, raisedAll, opened, symbols_flatten_append isMark plain, front, calledSymbols,
    raised_cons rfl (by decide)]

theorem flatSymbols_opener (text : Text) :
    flatSymbols vocabulary ('(' :: text) = .delimiter '(' :: text.flatSymbols vocabulary := by
  have single := markSymbols_opener .round
  rw [flatSymbols, joinGroups_cons_of_ne (by decide), List.map_cons]
  refine (symbols_cons rfl (by decide) _).trans ?_
  rw [show flatBracket '(' = flatBracket Bracket.round.opener from rfl, single]
  rfl

/-- The symbols of a call and of what follows it. -/
theorem calledSymbols_call (fixed : bracket ≠ .square) {closing : Bracket}
    (fixedClosing : closing ≠ .square) (all : run.all isBaseChar = true)
    (blank : gap.all isAsciiBlank = true) (closed : text.IsClosed) (plain : '\\' ∉ text)
    (rest : Text) :
    calledSymbols vocabulary
        (' ' :: (run ++ (gap ++ bracket.opener :: (text ++ closing.closer :: rest)))) =
      symbols vocabulary run ++ .delimiter '(' ::
        (text.innerSymbols vocabulary ++ calledSymbols vocabulary (closing.closer :: rest)) := by
  have plainFront : '\\' ∉ '(' :: text.raised vocabulary := by
    rw [List.mem_cons, not_or]
    exact ⟨by decide, plain_raised plain⟩
  rw [calledSymbols_run fixed all blank, calledSymbols, raised_cons rfl (by decide),
    raised_append fixedClosing closed plain,
    raised_cons (isBaseChar_closer closing) (closer_ne_mark closing), ← List.cons_append,
    symbols_flatten_append (isMark_closer closing) plainFront, flatSymbols_opener, calledSymbols,
    raised_cons (isBaseChar_closer closing) (closer_ne_mark closing)]
  rfl

/-- Blanks behind a call make no difference. -/
theorem calledSymbols_closer (blank : blanks.isAllBlank = true) (rest : Text) :
    calledSymbols vocabulary (')' :: (blanks ++ rest)) =
      calledSymbols vocabulary (')' :: rest) := by
  have passed (text : Text) : raised vocabulary (')' :: text) = ')' :: text.raised vocabulary :=
    raised_cons rfl (by decide) text
  induction blanks with
  | nil => rfl
  | cons c blanks ih =>
      rw [isAllBlank, List.all_cons, Bool.and_eq_true] at blank
      have noMark : c ≠ Parked.mark := by
        rintro rfl
        cases blank.1
      rw [← ih blank.2, calledSymbols, calledSymbols, passed, passed, List.cons_append,
        raised_cons (isBaseChar_eq_false_of_isBlank blank.1) noMark, symbols_flatten_closer blank.1]

/-- A closing brace is a closing parenthesis, but it is followed by a product sign when another group
in braces follows it. -/
theorem calledSymbols_brace (rest : Text) :
    calledSymbols vocabulary ('\x7d' :: rest) = calledSymbols vocabulary (')' :: rest) ∨
      ∃ later, calledSymbols vocabulary ('\x7d' :: rest) =
          .delimiter ')' :: .times :: .delimiter '(' :: later ∧
        calledSymbols vocabulary (')' :: rest) = .delimiter ')' :: .delimiter '(' :: later := by
  have closer : markSymbols ')' = [.delimiter ')'] := by decide +kernel
  have opener : markSymbols (flatBracket '(') = [.delimiter '('] := by decide +kernel
  have isMark : IsMark '(' := ⟨rfl, rfl, by decide⟩
  rw [calledSymbols, calledSymbols, raised_cons rfl (by decide), raised_cons rfl (by decide)]
  generalize rest.raised vocabulary = later
  by_cases group : ∃ after, later.trimStart = '\x7b' :: after
  · right
    obtain ⟨after, begins⟩ := group
    obtain ⟨behind, opened, _⟩ := flatten_append isMark [] after
    have openedSymbols : (flatten ('(' :: after)).symbols vocabulary =
        .delimiter '(' :: behind.symbols vocabulary := by
      rw [opened]
      exact (symbols_cons rfl (by decide) _).trans (by rw [opener]; rfl)
    refine ⟨behind.symbols vocabulary, ?_, ?_⟩
    · have joined : flatten ('\x7d' :: later) = flatten (")*".toList ++ '(' :: after) := by
        have noCloser : '\x7d' ∉ ")*(".toList := by decide
        have again := joinGroups_append_of_not_mem noCloser after
        have whole : joinGroups ('\x7d' :: later) = ")*(".toList ++ joinGroups after := by
          rw [joinGroups, if_pos rfl]
          split
          · rename_i other isOther
            rw [begins] at isOther
            cases isOther
            rfl
          · rename_i other
            exact absurd begins (other after)
        rw [flatten, whole, ← again]
        rfl
      have product : flatSymbols vocabulary ")*".toList = [.delimiter ')', .times] := by
        have times : markSymbols '*' = [.times] := by decide +kernel
        have flat : (joinGroups ")*".toList).map flatBracket = [')', '*'] := by
          rw [show ")*".toList = ")*".toList ++ [] from rfl,
            joinGroups_append_of_not_mem (by decide), joinGroups_nil]
          decide
        rw [flatSymbols, flat, symbols_cons rfl (by decide), symbols_cons rfl (by decide), closer,
          times, symbols]
        rfl
      rw [joined, symbols_flatten_append isMark (by decide), product, openedSymbols]
      rfl
    · have blank : isAllBlank (later.takeWhile isBlank) = true := List.all_takeWhile
      have noCloser : '\x7d' ∉ ')' :: later.takeWhile isBlank := by
        rw [List.mem_cons, not_or]
        exact ⟨by decide, not_mem_of_all (by decide) blank⟩
      have plain : '\\' ∉ ')' :: later.takeWhile isBlank := by
        rw [List.mem_cons, not_or]
        exact ⟨by decide, not_mem_of_all (by decide) blank⟩
      have split : ')' :: later = (')' :: later.takeWhile isBlank) ++ '\x7b' :: after := by
        rw [← begins, List.cons_append, trimStart, List.takeWhile_append_dropWhile]
      have closed : flatSymbols vocabulary (')' :: later.takeWhile isBlank) = [.delimiter ')'] := by
        have joined := joinGroups_append_of_not_mem noCloser []
        rw [List.append_nil, joinGroups_nil, List.append_nil] at joined
        rw [flatSymbols, joined, List.map_cons, map_flatBracket_of_isAllBlank blank]
        refine (symbols_cons rfl (by decide) _).trans ?_
        rw [symbols_of_isAllBlank blank, List.append_nil]
        exact closer
      rw [split, flatten_brace noCloser, symbols_flatten_append isMark plain, closed, openedSymbols]
      rfl
  · left
    have joined : joinGroups ('\x7d' :: later) = '\x7d' :: later.joinGroups := by
      rw [joinGroups, if_pos rfl]
      split
      · rename_i after begins
        exact absurd ⟨after, begins⟩ group
      · rfl
    rw [flatten, flatten, joined, joinGroups_cons_of_ne (by decide), List.map_cons, List.map_cons]
    rfl

end Text

end TexCalc
