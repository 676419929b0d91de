import TexCalc.Proofs.Inside.Calls
import TexCalc.Proofs.Inside.Flat
import TexCalc.Proofs.Inside.Powers
import TexCalc.Proofs.Linear.Calls
import TexCalc.Proofs.Linear.Structures
import TexCalc.Proofs.Words.Backslashes

/-!
# Spaces around a formula

Every step towards the linear form leaves a space in front of its text and a space behind it where
they are, and the last step drops them.  The linear form of a text with spaces around it is
therefore that of the text.  A space is a trail; only inverse functions, fractions and roots are not
read in front of every trail.
-/

namespace TexCalc

namespace Text

variable {text : Text} (vocabulary : Vocabulary)

/-! ## A space behind a text -/

theorem isTrail_space : IsTrail [' '] :=
  rfl

theorem keepsGroups_space (text : Text) : text.KeepsGroups [' '] :=
  keepsGroups_of_isIdle (by rfl) text

theorem argument?_space (only : text.HasWordsOnly) : Argument.read? (text ++ [' ']) =
    (Argument.read? text).map (Argument.followedBy [' ']) :=
  argument?_trail isTrail_space rfl only (keepsGroups_space text)

theorem optionalArgument?_space (text : Text) : Argument.readOptional? (text ++ [' ']) =
    (Argument.readOptional? text).map (Argument.followedBy [' ']) :=
  Argument.readOptional?_append (by rfl) text

theorem pieces_space (only : text.HasWordsOnly) :
    pieces (text ++ [' ']) = text.pieces ++ [.plain ' '] := by
  rw [pieces_trail isTrail_space only, pieces_cons (by decide), pieces]

/-! ## Inverse functions -/

/-- A mark behind blanks is looked for in front of the space. -/
theorem dropMark?_space (mark : Char) (text : Text) :
    dropLead? (trimStart (text ++ [' '])) [mark] =
      (dropLead? text.trimStart [mark]).map (· ++ [' ']) := by
  rw [trimStart_append]
  cases text.trimStart with
  | nil => rfl
  | cons c rest =>
      rw [if_neg (List.cons_ne_nil c rest), List.cons_append]
      simp only [dropLead?]
      split <;> rfl

theorem afterMinusOne?_space (text : Text) :
    (text ++ [' ']).afterMinusOne? = text.afterMinusOne?.map (· ++ [' ']) := by
  suffices general : ∀ (marks : List Char) (text : Text),
      marks.foldlM (fun rest c => dropLead? (trimStart rest) [c]) (text ++ [' ']) =
        (marks.foldlM (fun rest c => dropLead? (trimStart rest) [c]) text).map (· ++ [' ']) from
    general _ text
  intro marks
  induction marks with
  | nil => exact fun _ => rfl
  | cons mark marks ih =>
      intro text
      simp only [List.foldlM_cons, dropMark?_space]
      cases dropLead? text.trimStart [mark] with
      | none => rfl
      | some rest => exact ih rest

theorem inverseMark?_space (text : Text) : inverseMark? (text ++ [' ']) =
    (inverseMark? text).map fun mark => { mark with rest := mark.rest ++ [' '] } := by
  have goesOn : ∀ name ∈ trigonometric, name.all (!isStop ·) = true := by decide
  cases text with
  | nil => rfl
  | cons c rest =>
      by_cases back : c = '\\'
      · subst back
        simp only [List.cons_append, inverseMark?]
        refine findSome?_map_of_mem fun name isMember => ?_
        rw [dropLead?_trail isTrail_space (goesOn name isMember)]
        cases dropLead? rest name with
        | none => rfl
        | some after =>
            simp only [Option.map_some, Option.bind_some, afterMinusOne?_space]
            cases after.afterMinusOne? with
            | none => rfl
            | some later => cases Command.inverse? name <;> rfl
      · rw [List.cons_append, inverseMark?_cons back, inverseMark?_cons back]
        rfl

theorem resolveInverses_space {text : Text} (only : text.HasWordsOnly) :
    resolveInverses vocabulary (text ++ [' ']) = resolveInverses vocabulary text ++ [' '] := by
  cases text with
  | nil =>
      rw [List.nil_append, resolveInverses_plain (by decide), resolveInverses]
      rfl
  | cons c rest =>
      rw [List.cons_append, resolveInverses_eq, resolveInverses_eq, ← List.cons_append,
        inverseMark?_space]
      cases found : inverseMark? (c :: rest) with
      | none =>
          simp only [Option.map_none]
          rw [resolveInverses_space only.tail]
          rfl
      | some mark =>
          have shorter := length_lt_of_inverseMark? found
          have onlyRest := only.of_inverseMark? found
          simp only [Option.map_some]
          rw [bareArgument?_trail isTrail_space onlyRest (keepsGroups_space mark.rest)]
          cases isArgument : mark.rest.bareArgument? vocabulary with
          | none =>
              simp only [Option.map_none]
              rw [resolveInverses_space onlyRest]
              simp
          | some argument =>
              have passed := length_le_of_bareArgument? isArgument
              simp only [Option.map_some]
              rw [resolveInverses_space (onlyRest.of_bareArgument? isArgument)]
              simp
termination_by text.length

end Text

/-! ## Fractions and roots -/

namespace Structure

variable {text : Text}

theorem readFraction?_space (only : text.HasWordsOnly) :
    readFraction? (text ++ [' ']) =
      (readFraction? text).map (Prod.map id (· ++ [' '])) := by
  rw [readFraction?, readFraction?, Text.argument?_space only]
  cases isNumerator : Argument.read? text with
  | none => rfl
  | some numerator =>
      have onlyRest := only.of_argument isNumerator
      simp only [Option.map_some, Option.bind_some, Argument.followedBy,
        Text.argument?_space onlyRest, Option.map_map]
      rfl

theorem readRoot?_space (only : text.HasWordsOnly) :
    readRoot? (text ++ [' ']) = (readRoot? text).map (Prod.map id (· ++ [' '])) := by
  have sameHead : (Text.skipBlanks (text ++ [' '])).head? = text.skipBlanks.head? := by
    rw [Text.skipBlanks_trail]
    cases text.skipBlanks <;> rfl
  rw [readRoot?, readRoot?, sameHead]
  split
  · rw [Text.optionalArgument?_space]
    cases isIndex : Argument.readOptional? text with
    | none => rfl
    | some index =>
        have onlyRest := only.of_optionalArgument isIndex
        simp only [Option.map_some, Option.bind_some, Argument.followedBy,
          Text.argument?_space onlyRest, Option.map_map]
        rfl
  · rw [Text.argument?_space only, Option.map_map, Option.map_map]
    rfl

theorem read?_space (name : Text) (only : text.HasWordsOnly) :
    read? name (text ++ [' ']) = (read? name text).map (Prod.map id (· ++ [' '])) := by
  rw [read?, read?, readFraction?_space only, readRoot?_space only]
  split
  · rfl
  · split <;> rfl

/-- The last readable command is replaced in front of the space. -/
theorem resolveLast?_space (only : text.HasWordsOnly) :
    resolveLast? (Text.pieces (text ++ [' '])) =
      (resolveLast? text.pieces).map (· ++ [' ']) := by
  rw [Text.pieces_space only]
  fun_induction Text.pieces text with
  | case1 => rfl
  | case2 rest control found ih =>
      have onlyRest := only.of_control found
      rw [List.cons_append, resolveLast?, resolveLast?, ih onlyRest]
      cases resolveLast? control.rest.pieces with
      | some resolved => simp
      | none =>
          simp only [Option.map_none]
          rw [← Text.pieces_space onlyRest, Text.ofPieces_pieces, Text.ofPieces_pieces,
            read?_space control.name onlyRest, Option.map_map, Option.map_map]
          refine congrArg (Option.map · _) (funext fun found => ?_)
          exact (List.append_assoc _ _ _).symm
  | case3 rest found =>
      rw [Control.read?_eq_none_iff.1 found] at only
      exact absurd List.mem_cons_self only
  | case4 c rest plain ih =>
      rw [List.cons_append, resolveLast?, resolveLast?, ih only.tail]
      cases resolveLast? (Text.pieces rest) <;> rfl

theorem resolveUpTo_space (rounds : Nat) (only : text.HasWordsOnly) :
    resolveUpTo rounds (text ++ [' ']) = resolveUpTo rounds text ++ [' '] := by
  induction rounds generalizing text with
  | zero => rfl
  | succ rounds ih =>
      rw [resolveUpTo, resolveUpTo, resolveLast?_space only]
      cases found : resolveLast? text.pieces with
      | none => rfl
      | some resolved => exact ih ((keepsWords_resolveLast? only found).1.hasWordsOnly only)

end Structure

namespace Text

variable {text : Text} (vocabulary : Vocabulary)

theorem resolveStructures_space (only : text.HasWordsOnly) :
    resolveStructures (text ++ [' ']) = text.resolveStructures ++ [' '] := by
  have rounds : Structure.count (pieces (text ++ [' '])) = Structure.count text.pieces := by
    rw [pieces_space only, Structure.count, List.countP_append]
    rfl
  rw [resolveStructures, rounds, Structure.resolveUpTo_space _ only]
  rfl

/-! ## Flat text -/

theorem collapseAfter_space (isBlankBefore : Bool) (text : Text) :
    collapseAfter isBlankBefore (text ++ [' ']) = collapseAfter isBlankBefore text ∨
      collapseAfter isBlankBefore (text ++ [' ']) = collapseAfter isBlankBefore text ++ [' '] := by
  induction text generalizing isBlankBefore with
  | nil => cases isBlankBefore <;> decide
  | cons c rest ih =>
      simp only [List.cons_append, collapseAfter]
      split
      · split
        · exact ih true
        · exact (ih true).imp (congrArg (' ' :: ·)) (congrArg (' ' :: ·))
      · exact (ih false).imp (congrArg (c :: ·)) (congrArg (c :: ·))

theorem flatten_space (text : Text) : flatten (text ++ [' ']) = text.flatten := by
  have joined : joinGroups (text ++ [' ']) = text.joinGroups ++ [' '] := by
    have space : joinGroups [' '] = [' '] := by simp [joinGroups]
    rw [joinGroups_append (by decide), space]
  have trimmed (text : Text) : trim (text ++ [' ']) = text.trim :=
    trim_append_blanks (show isAllBlank [] = true from rfl) (by rfl) text
  rw [flatten, flatten, joined, List.map_append, collapseBlanks, collapseBlanks]
  rcases collapseAfter_space false (text.joinGroups.map flatBracket) with same | longer
  · exact congrArg trim same
  · exact (congrArg trim longer).trans (trimmed _)

theorem linear_space (options : Options) (only : text.HasWordsOnly) :
    linear vocabulary options (text ++ [' ']) = linear vocabulary options text := by
  have structured := (keepsWords_resolveStructures only).hasWordsOnly only
  have inverted := (keepsWords_resolveInverses vocabulary structured).hasWordsOnly structured
  have based := (keepsWords_resolveLogBases vocabulary inverted).hasWordsOnly inverted
  have idle : isIdle [' '] = true := rfl
  have bases : resolveLogBases vocabulary [' '] = [' '] := resolveLogBases_of_not_mem (by decide)
  have commands : renameCommands options [' '] = [' '] :=
    renameCommands_of_not_mem options (by decide)
  have calls : completeCalls vocabulary false [' '] = [' '] := by
    rw [completeCalls_plain (by decide) (vocabulary.callableAt?_eq_none rfl (by decide) []),
      completeCalls]
  have parked : expandParked [' '] = [' '] :=
    Parked.expandParked_of_still (Parked.writeOutLast?_of_not_mem (by decide))
  simp only [linear, attachArguments]
  rw [resolveStructures_space only, resolveInverses_space vocabulary structured,
    resolveLogBases_trail isTrail_space rfl inverted (keepsGroups_space _), bases,
    renameCommands_trail isTrail_space options based, commands,
    completeCalls_trail isTrail_space false (keepsGroups_space _), calls,
    expandParked_trail isTrail_space (.inl idle), parked,
    resolveExponents_trail isTrail_space (.inl idle), resolveExponents_of_isIdle idle,
    flatten_space]

/-! ## A space in front of a text -/

/-- A space in front of a text is a piece of its own, and no command. -/
theorem resolveStructures_cons_space (text : Text) :
    resolveStructures (' ' :: text) = ' ' :: text.resolveStructures := by
  have cuts (text : Text) : pieces ([' '] ++ text) = [.plain ' '] ++ text.pieces :=
    pieces_cons (by decide) text
  exact Structure.resolveStructures_append cuts (by simp) text

theorem flatten_cons_space (text : Text) : flatten (' ' :: text) = text.flatten := by
  have joined : joinGroups (' ' :: text) = ' ' :: text.joinGroups := by
    rw [joinGroups, if_neg (by decide)]
  have sameStart (text : Text) :
      trimStart (collapseAfter true text) = trimStart (collapseAfter false text) := by
    cases text with
    | nil => rfl
    | cons c rest =>
        cases blank : isBlank c with
        | true =>
            simp only [collapseAfter, blank, if_true]
            rfl
        | false => simp [collapseAfter, blank]
  have dropped (text : Text) : trim (' ' :: text) = text.trim := rfl
  have collapsed (text : Text) :
      collapseAfter false (' ' :: text) = ' ' :: collapseAfter true text := rfl
  rw [flatten, flatten, joined, List.map_cons, collapseBlanks, collapseBlanks,
    show flatBracket ' ' = ' ' from rfl, collapsed, dropped, trim, trim, sameStart]

theorem linear_cons_space (options : Options) (text : Text) :
    linear vocabulary options (' ' :: text) = linear vocabulary options text := by
  have plain : ' ' ≠ '\\' := by decide
  have noCall (rest : Text) : vocabulary.callableAt? (' ' :: rest) = none :=
    vocabulary.callableAt?_eq_none (by decide) (by decide) rest
  simp only [linear, attachArguments]
  rw [resolveStructures_cons_space, resolveInverses_plain plain, resolveLogBases_plain plain,
    renameCommands_plain plain, completeCalls_plain plain (noCall _), expandParked_cons (by decide),
    resolveExponents_cons (by decide), flatten_cons_space]

theorem linear_append_spaces (options : Options) {spaces : Text}
    (isSpaces : spaces.all (· == ' ') = true) (only : text.HasWordsOnly) :
    linear vocabulary options (text ++ spaces) = linear vocabulary options text := by
  induction spaces generalizing text with
  | nil => rw [List.append_nil]
  | cons c spaces ih =>
      rw [List.all_cons, Bool.and_eq_true, beq_iff_eq] at isSpaces
      have onlySpaced : HasWordsOnly (text ++ [' ']) :=
        only.append (hasWordsOnly_of_not_mem (by decide))
      rw [isSpaces.1, ← List.singleton_append, ← List.append_assoc, ih isSpaces.2 onlySpaced,
        linear_space vocabulary options only]

theorem linear_spaces_append (options : Options) {spaces : Text}
    (isSpaces : spaces.all (· == ' ') = true) (text : Text) :
    linear vocabulary options (spaces ++ text) = linear vocabulary options text := by
  induction spaces with
  | nil => rfl
  | cons c spaces ih =>
      rw [List.all_cons, Bool.and_eq_true, beq_iff_eq] at isSpaces
      rw [isSpaces.1, List.cons_append, linear_cons_space, ih isSpaces.2]

end Text

end TexCalc
