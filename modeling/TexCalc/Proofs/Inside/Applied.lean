import TexCalc.Proofs.Inside.Calls
import TexCalc.Proofs.Inside.Symbols
import TexCalc.Proofs.Linear.Attached

/-!
# Applied operands

An operand that is put into parentheses and whose calls are completed there has the symbols that it
has when a function takes it as its argument.  The two differ in blanks and in the shape of brackets,
for a function takes over what is inside a group without the blanks at its ends.
-/

namespace TexCalc

variable {vocabulary : Vocabulary}

/-! ## Groups -/

namespace Walk

variable {guarded may : Bool} {before after : List Pending} {text : Text} {bracket : Bracket}

theorem countP_of_nil (walk : Walk guarded may before [] after) (accept : Pending → Bool) :
    before.countP accept = after.countP accept := by
  generalize whole : ([] : Text) = text at walk
  induction walk with
  | done => rfl
  | step => cases whole
  | sinks above _ _ ih =>
      rw [← ih whole]
      simp only [List.countP_append, List.countP_cons]
      omega

/-- A reader of groups counts the brackets of its kind that are open. -/
theorem groupFrom?_append (plain : '\\' ∉ text) (walk : Walk guarded may before text after)
    (rest : Text) :
    bracket.groupFrom? (before.countP (·.isCountedBy bracket)) (text ++ rest) =
      (bracket.groupFrom? (after.countP (·.isCountedBy bracket)) rest).map (Group.extend text) := by
  induction text generalizing before may with
  | nil =>
      rw [walk.countP_of_nil, List.nil_append]
      cases bracket.groupFrom? (after.countP (·.isCountedBy bracket)) rest <;> rfl
  | cons c text ih =>
      rw [List.mem_cons, not_or] at plain
      have extended (found : Option Group) : (found.map (Group.extend text)).map (Group.extend [c]) =
          found.map (Group.extend (c :: text)) := Text.IsNeutral.map_extend_extend [c] text found
      rcases walk.of_cons with ⟨other, later⟩ | ⟨pending, rfl, _, later⟩ |
        ⟨count, pending, below, rfl, _, rfl, later⟩
      · rw [List.cons_append, Text.IsNeutral.groupFrom?_cons (ne_opener_of_plain other bracket)
          (ne_closer_of_plain other bracket) (Ne.symm plain.1), ih plain.2 later, extended]
      · rw [List.cons_append, Bracket.groupFrom?_opener, ← List.countP_cons, ih plain.2 later,
          extended]
      · have counted : (loose count ++ pending :: below).countP (·.isCountedBy bracket) =
            (loose count ++ below).countP (·.isCountedBy bracket) +
              if pending.isCountedBy bracket then 1 else 0 := by
          rw [List.countP_append, List.countP_append, List.countP_cons, Nat.add_assoc]
        rw [counted, List.cons_append, Bracket.groupFrom?_closer, ih plain.2 later, extended]

end Walk

namespace Text

variable {text rest gap blanks lead trail : Text} {count : Nat} {bracket : Bracket}

namespace Leaves

theorem isClosed (plain : '\\' ∉ text) (leaves : text.Leaves false count) : text.IsClosed :=
  .of_leaves (hasWordsOnly_of_not_mem plain) leaves

/-- A text that closes nothing is the inside of the group around it. -/
theorem group? (fixed : bracket ≠ .square) (plain : '\\' ∉ text)
    (leaves : text.Leaves false count) (rest : Text) :
    bracket.group? (text ++ bracket.closer :: rest) = some ⟨text, rest⟩ := by
  have counted : bracket.groupFrom? 0 (text ++ bracket.closer :: rest) =
      (bracket.groupFrom? (List.countP (Pending.isCountedBy bracket) (loose count ++ []))
        (bracket.closer :: rest)).map (Group.extend text) :=
    (leaves []).groupFrom?_append plain _
  have none : List.countP (Pending.isCountedBy bracket) (loose count) = 0 :=
    Walk.countP_loose fun square => absurd square fixed
  rw [List.append_nil, none, Bracket.groupFrom?_own] at counted
  rw [Bracket.group?]
  simpa [Group.extend] using counted

theorem expandParked (plain : '\\' ∉ text) (leaves : text.Leaves false count) :
    text.expandParked.Leaves false count :=
  fun before => (walk_expandParked (hasWordsOnly_of_not_mem plain) (leaves before).mono).unguarded _

theorem completeCalls (only : text.HasWordsOnly) (leaves : text.Leaves false count) :
    (text.completeCalls vocabulary false).Leaves false count :=
  fun before => (walk_completeCalls false only (leaves before).mono).unguarded _

end Leaves

theorem plain_completeCalls (plain : '\\' ∉ text) : '\\' ∉ text.completeCalls vocabulary false := by
  have counted : (text.completeCalls vocabulary false).count '\\' = text.count '\\' :=
    count_attachArguments vocabulary text
  rw [← List.count_eq_zero, counted, List.count_eq_zero]
  exact plain

/-! ## Parked functions -/

theorem expandParked_blanks (leadBlank : lead.isAllBlank = true) (trailBlank : trail.isAllBlank = true)
    (text : Text) : expandParked (lead ++ (text ++ trail)) =
      lead ++ (text.expandParked ++ trail) := by
  have idle := isIdle_of_isAllBlank trailBlank
  rw [Parked.expandParked_append (Parked.mark_not_mem_of_isAllBlank leadBlank),
    expandParked_trail (.of_isAllBlank trailBlank) (.inl idle),
    Parked.expandParked_of_still (Parked.writeOutLast?_of_not_mem (mark_not_mem_of_isIdle idle))]

/-- A parked function in front of a group has the symbols of its application. -/
theorem innerSymbols_parked (fixed : bracket ≠ .square) (plain : '\\' ∉ text)
    (leaves : text.Leaves false count) (blank : gap.all isAsciiBlank = true)
    (blanksBehind : blanks.isAllBlank = true) (parked : Parked) :
    innerSymbols vocabulary
        (parked.name ++ (gap ++ bracket.opener :: (text ++ bracket.closer :: blanks))) =
      innerSymbols vocabulary (parked.applied text.expandParked ++ blanks) := by
  have noMark : Parked.mark ∉ gap ++ [bracket.opener] := by
    rw [List.mem_append, not_or]
    refine ⟨Parked.mark_not_mem_of_isAllBlank (isAllBlank_of_all_isAsciiBlank blank), ?_⟩
    simpa using (opener_ne_mark bracket).symm
  have expanded : expandParked (gap ++ bracket.opener :: (text ++ bracket.closer :: blanks)) =
      gap ++ bracket.opener :: (text.expandParked ++ bracket.closer :: blanks) := by
    have idle := isIdle_of_isAllBlank blanksBehind
    have split (rest : Text) : gap ++ bracket.opener :: rest = (gap ++ [bracket.opener]) ++ rest := by
      simp
    rw [split, Parked.expandParked_append noMark,
      expandParked_trail (isTrail_closer fixed _) (.inr (leaves.isClosed plain)),
      expandParked_cons (closer_ne_mark bracket),
      Parked.expandParked_of_still (Parked.writeOutLast?_of_not_mem (mark_not_mem_of_isIdle idle)),
      ← split]
  have taken : parked.writtenOut (gap ++ bracket.opener ::
      (text.expandParked ++ bracket.closer :: blanks)) = parked.applied text.expandParked ++ blanks := by
    have opens : Bracket.ofArgument? bracket.opener = some bracket := by
      cases bracket with
      | square => exact absurd rfl fixed
      | _ => rfl
    have skipped : skipBlanks (gap ++ bracket.opener ::
        (text.expandParked ++ bracket.closer :: blanks)) =
          bracket.opener :: (text.expandParked ++ bracket.closer :: blanks) := by
      have visible : isAsciiBlank bracket.opener = false := by cases bracket <;> rfl
      rw [skipBlanks, List.dropWhile_append_of_pos (List.all_eq_true.1 blank), ← skipBlanks,
        skipBlanks_cons visible]
    rw [Parked.writtenOut, skipped]
    simp only [opens, Option.bind_some,
      (leaves.expandParked plain).group? fixed (plain_expandParked plain)]
  have still : Parked.writeOutLast? (parked.applied text.expandParked ++ blanks) = none := by
    rw [Parked.writeOutLast?_eq_none_iff, Parked.count_applied_append, parkedCount_expandParked,
      Parked.count_of_not_mem (Parked.mark_not_mem_of_isAllBlank blanksBehind)]
  rw [innerSymbols, raised, Parked.expandParked_name, expanded, taken, innerSymbols, raised,
    Parked.expandParked_of_still still]

theorem innerSymbols_quotient (run rest : Text) (all : run.all isBaseChar = true) :
    innerSymbols vocabulary (run ++ '/' :: rest) =
      symbols vocabulary run ++ innerSymbols vocabulary ('/' :: rest) := by
  have passed : raised vocabulary (run ++ '/' :: rest) = run ++ raised vocabulary ('/' :: rest) := by
    rw [raised, Parked.expandParked_append (mark_not_mem_of_all_isBaseChar all),
      expandParked_cons (by decide)]
    refine (Raises.append all rfl rfl rfl).trans ?_
    rw [raised, expandParked_cons (by decide)]
  rw [innerSymbols, passed, raised_cons rfl (by decide), flatSymbols_run all rfl, innerSymbols,
    raised_cons rfl (by decide)]

/-- The symbols of a quotient by a function of an argument. -/
theorem innerSymbols_reciprocal (closed : text.IsClosed) (plain : '\\' ∉ text)
    (blank : blanks.isAllBlank = true) {target : Text} (all : target.all isBaseChar = true) :
    innerSymbols vocabulary
        (Text.parenthesized ("1/".toList ++ target ++ text.parenthesized) ++ blanks) =
      .delimiter '(' :: (symbols vocabulary ['1'] ++ .operator '/' :: (symbols vocabulary target ++
        .delimiter '(' :: (text.innerSymbols vocabulary ++ [.delimiter ')', .delimiter ')']))) := by
  have shape : Text.parenthesized ("1/".toList ++ target ++ text.parenthesized) ++ blanks =
      Bracket.round.opener :: (['1'] ++ '/' :: (target ++ ([] ++ Bracket.round.opener ::
        (text ++ Bracket.round.closer :: (Bracket.round.closer :: blanks))))) := by
    simp [parenthesized, Bracket.opener, Bracket.closer]
  have slash : markSymbols (flatBracket '/') = [.operator '/'] := by decide +kernel
  have closer : markSymbols (flatBracket ')') = [.delimiter ')'] := by decide +kernel
  have ended : innerSymbols vocabulary (Bracket.round.closer :: Bracket.round.closer :: blanks) =
      [.delimiter ')', .delimiter ')'] := by
    refine (innerSymbols_cons rfl (by decide) (by decide) (by decide) _).trans ?_
    rw [innerSymbols_closer .round blank]
    exact congrArg (· ++ [Symbol.delimiter ')']) closer
  rw [shape, innerSymbols_opener, innerSymbols_quotient _ _ rfl,
    innerSymbols_cons rfl (by decide) (by decide) (by decide), slash, innerSymbols_run all rfl,
    innerSymbols_opener, innerSymbols_append (by decide) closed plain, ended]
  rfl

/-- The blanks inside a group make no difference for a parked function in front of it. -/
theorem innerSymbols_parked_trim (fixed : bracket ≠ .square) (plain : '\\' ∉ text)
    (leaves : text.Leaves false count) (blank : gap.all isAsciiBlank = true)
    (blanksBehind : blanks.isAllBlank = true) (parked : Parked) :
    innerSymbols vocabulary
        (parked.name ++ (gap ++ bracket.opener :: (text ++ bracket.closer :: blanks))) =
      innerSymbols vocabulary (parked.name ++ text.trim.parenthesized) := by
  obtain ⟨lead, trail, split, leadBlank, trailBlank⟩ := text.exists_trim_eq
  have plainTrim : '\\' ∉ text.trim := fun isMember =>
    plain (split ▸ List.mem_append_right _ (List.mem_append_left _ isMember))
  have alone : innerSymbols vocabulary (parked.name ++ text.trim.parenthesized) =
      innerSymbols vocabulary (parked.applied text.trim.expandParked ++ []) :=
    innerSymbols_parked (show Bracket.round ≠ .square by decide) plainTrim leaves.trim
      (show List.all [] isAsciiBlank = true from rfl) rfl parked
  have shorter : text.expandParked = lead ++ (text.trim.expandParked ++ trail) := by
    conv => lhs; rw [split]
    exact expandParked_blanks leadBlank trailBlank text.trim
  have plainLong := plain_expandParked plain
  have plainShort := plain_expandParked plainTrim
  have closedLong := (leaves.expandParked plain).isClosed plainLong
  have closedShort := (leaves.trim.expandParked plainTrim).isClosed plainShort
  rw [innerSymbols_parked fixed plain leaves blank blanksBehind]
  refine Eq.trans ?_ alone.symm
  have target : parked.target.all isBaseChar = true := by
    rcases parked with ⟨function, inverse⟩
    cases function <;> cases inverse <;> rfl
  unfold Parked.applied
  split
  · have sameWrap : text.expandParked.wrap = text.trim.expandParked.wrap := by
      have sameTrim : text.expandParked.trim = text.trim.expandParked.trim := by
        rw [shorter, trim_append_blanks leadBlank trailBlank]
      rw [wrap, wrap, isEnclosed, isEnclosed, sameTrim]
    have plainApplied : '\\' ∉ parked.target ++
        Text.parenthesized ("1/".toList ++ text.trim.expandParked.wrap) := by
      rw [← List.count_eq_zero, List.count_append, count_parenthesized (by decide),
        List.count_append, count_wrap (by decide) (by decide), List.count_eq_zero.2 plainShort,
        List.count_eq_zero.2 parked.not_mem_target]
      rfl
    rw [sameWrap, innerSymbols_append_blanks plainApplied blanksBehind, List.append_nil]
  · rw [innerSymbols_reciprocal closedLong plainLong blanksBehind target,
      innerSymbols_reciprocal closedShort plainShort rfl target, shorter,
      innerSymbols_blanks leadBlank, innerSymbols_append_blanks plainShort trailBlank]

end Text

end TexCalc
