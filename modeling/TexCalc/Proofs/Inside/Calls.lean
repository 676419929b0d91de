import TexCalc.Proofs.Inside.Trails
import TexCalc.Proofs.Linear.Commands
import TexCalc.Proofs.Nesting.Calls
import TexCalc.Proofs.Tex.Arguments
import TexCalc.Proofs.Words.Calls
import TexCalc.Proofs.Words.Kept

/-!
# Calls in front of a trail

The steps up to the calls leave a trail where it is: the text in front of it becomes what it becomes
alone, and the trail what it becomes alone.
-/

namespace TexCalc

variable {text trail : Text}

/-! ## Applications -/

namespace Application

/-- The same application in front of more text. -/
def followedBy (trail : Text) (application : Application) : Application :=
  { application with rest := application.rest ++ trail }

theorem ofPlain_trail (text rest trail : Text) :
    ofPlain (text ++ trail) (rest ++ trail) = (ofPlain text rest).followedBy trail := by
  rw [ofPlain, Text.before_trail]
  rfl

theorem map_within_followedBy (layer : Layer) (found : Option Application) :
    (found.map (followedBy trail)).map (·.within layer) =
      (found.map (·.within layer)).map (followedBy trail) := by
  cases found <;> rfl

variable {vocabulary : Vocabulary} (isTrail : trail.IsTrail)

include isTrail

theorem ofGroupArgument?_trail (keeps : text.KeepsGroups trail) :
    ofGroupArgument? (text ++ trail) = (ofGroupArgument? text).map (followedBy trail) := by
  cases start : text.skipBlanks with
  | nil =>
      have stops := isTrail.skipBlanks.head
      have missing : ofGroupArgument? text = none := by rw [ofGroupArgument?, start]
      rw [missing, ofGroupArgument?, Text.skipBlanks_trail_nil start]
      cases begins : trail.skipBlanks with
      | nil => rfl
      | cons c rest =>
          rw [begins] at stops
          simp only [Bracket.ofArgument?_of_isStop (show isStop c = true from stops)]
          rfl
  | cons c rest =>
      have ends : c :: rest <:+ text := start ▸ text.suffix_skipBlanks
      unfold ofGroupArgument?
      simp only [start, Text.skipBlanks_trail_cons start]
      cases isBracket : Bracket.ofArgument? c with
      | none => rfl
      | some bracket =>
          have same := Text.opener_of_ofArgument? isBracket
          subst same
          simp only [Option.bind_some, keeps bracket rest (Text.ne_square_of_ofArgument? isBracket)
            ends, Option.map_map]
          rfl

/-- No operand is read from a trail. -/
theorem read?_of_isTrail : read? vocabulary none trail = none := by
  have keeps : Text.KeepsGroups [] trail :=
    Text.IsClosed.nil.keepsGroups trail
  have noAtom : trail.afterAtom? vocabulary = none := by
    rw [← List.nil_append trail, Text.afterAtom?_trail isTrail keeps, Text.afterAtom?,
      Text.constantAt?_nil]
    rfl
  have stops := isTrail.head
  rw [read?_operand_eq, Text.callableAt?_of_isTrail isTrail]
  cases trail with
  | nil => rfl
  | cons c rest =>
      have stop : isStop c = true := stops
      have noMinus : c ≠ '-' := ne_of_isStop stop (by decide)
      have noPlus : c ≠ '+' := ne_of_isStop stop (by decide)
      simp [Bracket.ofArgument?_of_isStop stop, noMinus, noPlus, isDigit_of_isStop stop, noAtom]

/-- Behind blanks an operand is read in front of the trail, or there is none. -/
theorem read?_skipBlanks_trail {text : Text}
    (same : read? vocabulary none (text.skipBlanks ++ trail) =
      (read? vocabulary none text.skipBlanks).map (followedBy trail)) :
    read? vocabulary none (Text.skipBlanks (text ++ trail)) =
      (read? vocabulary none text.skipBlanks).map (followedBy trail) := by
  rw [Text.skipBlanks_trail]
  split
  · rename_i nothing
    rw [nothing] at same ⊢
    rw [read?_of_isTrail isTrail.skipBlanks, ← same, List.nil_append, read?_of_isTrail isTrail]
  · exact same

/-- What is read behind a function, when operands that are no longer are read in front of the
trail. -/
theorem read?_function_trail (function : Callable) {text : Text} (keeps : text.KeepsGroups trail)
    (operands : ∀ operand : Text, operand.length ≤ text.length → operand <:+ text →
      read? vocabulary none (operand ++ trail) =
        (read? vocabulary none operand).map (followedBy trail)) :
    read? vocabulary (some function) (text ++ trail) =
      (read? vocabulary (some function) text).map (followedBy trail) := by
  rw [read?_function_eq, read?_function_eq]
  cases start : text.skipBlanks with
  | nil =>
      have stops := isTrail.skipBlanks
      rw [Text.skipBlanks_trail_nil start]
      cases begins : trail.skipBlanks with
      | nil => rfl
      | cons c rest =>
          rw [begins] at stops
          have stop : isStop c = true := stops.head
          have noCaret : c ≠ '^' := ne_of_isStop stop (by decide)
          have noTouch : (List.head? (text ++ trail)).any Char.isAlpha = false := by
            cases text with
            | nil =>
                have ends := isTrail.head
                cases trail with
                | nil => rfl
                | cons d trail => exact isAlpha_of_isStop ends
            | cons d text =>
                have blank : isAsciiBlank d = true := by
                  cases blank : isAsciiBlank d with
                  | true => rfl
                  | false =>
                      rw [Text.skipBlanks_cons blank] at start
                      cases start
                exact isAlpha_eq_false_of_isBlank (isBlank_of_isAsciiBlank blank)
          simp only [noCaret, if_false, Bracket.ofArgument?_of_isStop stop, Option.isSome_none,
            Bool.false_eq_true, noTouch, Bool.false_and, read?_of_isTrail stops, Option.map_none]
  | cons c rest =>
      have ends : c :: rest <:+ text := start ▸ text.suffix_skipBlanks
      have shorter : (c :: rest).length ≤ text.length := start ▸ text.length_skipBlanks_le
      have sameHead : (text ++ trail).head? = text.head? := by
        cases text with
        | nil => cases start
        | cons => rfl
      simp only [Text.skipBlanks_trail_cons start]
      split
      · have keepsRest := keeps.of_suffix ((List.suffix_cons c rest).trans ends)
        rw [Text.exponent?_trail isTrail keepsRest]
        cases isExponent : Text.exponent? vocabulary rest with
        | none => rfl
        | some exponent =>
            have gap := exponent.rest.length_skipBlanks_le
            have raised := Text.length_lt_of_exponent? isExponent
            rw [List.length_cons] at shorter
            have passes : Text.Passes false rest exponent.rest :=
              Text.passes_of_exponent? isExponent
            have ending : exponent.rest.skipBlanks <:+ text :=
              (exponent.rest.suffix_skipBlanks.trans passes.suffix).trans
                ((List.suffix_cons c rest).trans ends)
            simp only [Option.map_some, Option.bind_some]
            rw [read?_skipBlanks_trail isTrail
              (operands exponent.rest.skipBlanks (by omega) ending), map_within_followedBy]
      · split
        · rfl
        · rw [sameHead, Text.callableAt?_trail isTrail, Option.isNone_map,
            Text.afterTouching_trail isTrail, ofPlain_trail]
          split
          · rfl
          · rw [← List.cons_append, operands (c :: rest) shorter ends, map_within_followedBy]

/-- An operand, when all that is shorter is read in front of the trail. -/
theorem read?_operand_trail {text : Text} (keeps : text.KeepsGroups trail)
    (shorter : ∀ (function? : Option Callable) (rest : Text), rest.length < text.length →
      rest <:+ text → read? vocabulary function? (rest ++ trail) =
        (read? vocabulary function? rest).map (followedBy trail)) :
    read? vocabulary none (text ++ trail) =
      (read? vocabulary none text).map (followedBy trail) := by
  rw [read?_operand_eq, read?_operand_eq, Text.callableAt?_trail isTrail]
  cases found : vocabulary.callableAt? text with
  | some callable =>
      obtain ⟨inner, after⟩ := callable
      have taken := Vocabulary.length_lt_of_callableAt? found
      have ends := Vocabulary.suffix_of_callableAt? found
      simp only [Option.map_some, Prod.map_apply, id]
      rw [shorter (some inner) after taken ends,
        ofGroupArgument?_trail isTrail (keeps.of_suffix ends), map_within_followedBy,
        ← Option.map_or]
  | none =>
      simp only [Option.map_none]
      cases text with
      | nil =>
          have nothing : read? vocabulary none trail = none := read?_of_isTrail isTrail
          rw [read?_operand_eq, Text.callableAt?_of_isTrail isTrail] at nothing
          exact nothing
      | cons c rest =>
          have ends : rest <:+ c :: rest := List.suffix_cons c rest
          simp only [List.cons_append]
          split
          · have gap : (Text.skipBlanks rest).length < (c :: rest).length :=
              Nat.lt_succ_of_le (Text.length_skipBlanks_le rest)
            rw [read?_skipBlanks_trail isTrail (shorter none (Text.skipBlanks rest) gap
              ((Text.suffix_skipBlanks rest).trans ends)), Option.map_map, Option.map_map]
            cases isRead : read? vocabulary none (Text.skipBlanks rest) with
            | none => rfl
            | some application =>
                have sameHead : (Text.skipBlanks (rest ++ trail)).head? =
                    (Text.skipBlanks rest).head? := by
                  rw [Text.skipBlanks_trail]
                  split
                  · rename_i nothing
                    have unread : read? vocabulary none [] = none :=
                      read?_of_isTrail (show Text.IsTrail [] from rfl)
                    rw [nothing, unread] at isRead
                    cases isRead
                  · rename_i some
                    obtain ⟨d, later, begins⟩ := List.exists_cons_of_ne_nil some
                    rw [begins, List.cons_append, List.head?_cons, List.head?_cons]
                simp only [Option.map_some, Function.comp_apply, signed, sameHead]
                split <;> rfl
          · cases isBracket : Bracket.ofArgument? c with
            | some bracket =>
                have same := Text.opener_of_ofArgument? isBracket
                subst same
                simp only [keeps bracket rest (Text.ne_square_of_ofArgument? isBracket)
                  (List.suffix_refl _), Option.map_map]
                rfl
            | none =>
                simp only [← List.cons_append]
                rw [Text.afterCoefficient_trail isTrail, Text.afterAtom?_trail isTrail keeps,
                  ofPlain_trail]
                split
                · rfl
                · rw [Option.map_map, Option.map_map]
                  refine congrArg (Option.map · _) (funext fun after => ?_)
                  exact ofPlain_trail (c :: rest) after trail

/-- What is read as an argument or an operand is read in front of the trail. -/
theorem read?_trail (function? : Option Callable) {text : Text} (keeps : text.KeepsGroups trail) :
    read? vocabulary function? (text ++ trail) =
      (read? vocabulary function? text).map (followedBy trail) := by
  cases function? with
  | some function =>
      exact read?_function_trail isTrail function keeps fun operand _ ends =>
        read?_trail none (keeps.of_suffix ends)
  | none =>
      exact read?_operand_trail isTrail keeps fun function? rest _ ends =>
        read?_trail function? (keeps.of_suffix ends)
termination_by 2 * text.length + function?.isSome.toNat
decreasing_by
  · have most := Bool.toNat_le function?.isSome
    simp only [Option.isSome_none, Bool.toNat_false]
    omega
  · simp only [Option.isSome_none, Option.isSome_some, Bool.toNat_false, Bool.toNat_true]
    omega

end Application

/-! ## In front of the renaming -/

namespace Text

variable {vocabulary : Vocabulary} (isTrail : trail.IsTrail)

include isTrail

theorem pieces_trail (only : text.HasWordsOnly) :
    pieces (text ++ trail) = text.pieces ++ trail.pieces := by
  fun_induction pieces text with
  | case1 => rfl
  | case2 rest control found ih =>
      have again := control?_trail isTrail only
      rw [found, Option.map_some] at again
      rw [List.cons_append, pieces_control again, ih (only.of_control found), List.cons_append]
  | case3 rest found =>
      rw [Control.read?_eq_none_iff.1 found] at only
      exact absurd List.mem_cons_self only
  | case4 c rest plain ih =>
      rw [List.cons_append, pieces_cons plain, ih only.tail, List.cons_append]

theorem renameCommands_trail (options : Options) (only : text.HasWordsOnly) :
    renameCommands options (text ++ trail) =
      renameCommands options text ++ renameCommands options trail := by
  rw [renameCommands, pieces_trail isTrail only, List.flatMap_append]
  rfl

theorem dropMark?_trail (visible : trail.trimStart = trail.skipBlanks) {mark : Char}
    (goesOn : isStop mark = false) (text : Text) :
    dropLead? (trimStart (text ++ trail)) [mark] =
      (dropLead? text.trimStart [mark]).map (· ++ trail) := by
  have mark' : [mark].all (!isStop ·) = true := by simp [goesOn]
  rw [trimStart, List.dropWhile_append]
  cases start : text.dropWhile isBlank with
  | nil =>
      have stops := isTrail.skipBlanks
      have again := dropLead?_trail stops mark' []
      rw [List.nil_append, ← visible, trimStart] at again
      rw [List.isEmpty_nil, if_pos rfl, again, trimStart, start]
      rfl
  | cons c rest =>
      rw [List.isEmpty_cons, if_neg Bool.false_ne_true, dropLead?_trail isTrail mark', trimStart,
        start]

theorem afterLogMark?_trail (visible : trail.trimStart = trail.skipBlanks) (text : Text) :
    (text ++ trail).afterLogMark? = text.afterLogMark?.map (· ++ trail) := by
  have goesOn : "\\log".toList.all (!isStop ·) = true := by decide
  rw [afterLogMark?, afterLogMark?, dropLead?_trail isTrail goesOn]
  cases text.dropLead? "\\log".toList with
  | none => rfl
  | some rest => exact dropMark?_trail isTrail visible (by decide) rest

/-- The mark of a logarithm and its base are read in front of the trail. -/
theorem logBase?_trail (visible : trail.trimStart = trail.skipBlanks) (only : text.HasWordsOnly)
    (keeps : text.KeepsGroups trail) :
    (text ++ trail).afterLogMark?.bind Argument.read? =
      (text.afterLogMark?.bind Argument.read?).map (Argument.followedBy trail) := by
  rw [afterLogMark?_trail isTrail visible]
  cases isAfter : text.afterLogMark? with
  | none => rfl
  | some after =>
      obtain ⟨words, _⟩ := words_of_afterLogMark? isAfter
      have onlyAfter : after.HasWordsOnly :=
        fun isMember => only (words ▸ List.mem_cons_of_mem _ isMember)
      exact argument?_trail isTrail visible onlyAfter
        (keeps.of_suffix (suffix_of_afterLogMark? isAfter))

theorem resolveLogBases_trail (visible : trail.trimStart = trail.skipBlanks) {text : Text}
    (only : text.HasWordsOnly) (keeps : text.KeepsGroups trail) :
    resolveLogBases vocabulary (text ++ trail) =
      resolveLogBases vocabulary text ++ resolveLogBases vocabulary trail := by
  cases text with
  | nil => rw [List.nil_append, resolveLogBases.eq_1 vocabulary, List.nil_append]
  | cons c rest =>
      rw [List.cons_append, resolveLogBases_eq, resolveLogBases_eq, ← List.cons_append,
        logBase?_trail isTrail visible only keeps]
      cases found : (afterLogMark? (c :: rest)).bind Argument.read? with
      | none =>
          simp only [Option.map_none]
          rw [resolveLogBases_trail visible only.tail
            (keeps.of_suffix (List.suffix_cons c rest))]
          rfl
      | some base =>
          have onlyRest := only.of_logBase? found
          obtain ⟨ends, shorter⟩ : base.rest <:+ c :: rest ∧
              base.rest.length < (c :: rest).length := by
            obtain ⟨after, isAfter, isBase⟩ := Option.bind_eq_some_iff.1 found
            have marked := length_lt_of_afterLogMark? isAfter
            have read := Argument.length_lt_of_read? isBase
            exact ⟨(Argument.suffix_of_read? isBase).trans (suffix_of_afterLogMark? isAfter),
              by omega⟩
          have keepsRest := keeps.of_suffix ends
          simp only [Option.map_some, Argument.followedBy,
            bareArgument?_trail isTrail onlyRest keepsRest]
          cases isArgument : base.rest.bareArgument? vocabulary with
          | none =>
              simp only [Option.map_none]
              rw [resolveLogBases_trail visible onlyRest keepsRest, List.append_assoc]
          | some argument =>
              have passed := length_le_of_bareArgument? isArgument
              simp only [Option.map_some]
              rw [resolveLogBases_trail visible (onlyRest.of_bareArgument? isArgument)
                (keepsRest.of_suffix (suffix_of_bareArgument? isArgument)), List.append_assoc]
termination_by text.length

/-! ## Calls -/

theorem callable?_trail (insideWord : Bool) (text : Text) :
    callable? vocabulary insideWord (text ++ trail) =
      (callable? vocabulary insideWord text).map (Prod.map id (· ++ trail)) := by
  rw [callable?, callable?, callableAt?_trail isTrail]
  split <;> rfl

omit isTrail in
theorem callableAt?_of_callable? {insideWord : Bool} {callable : Callable × Text}
    (found : callable? vocabulary insideWord text = some callable) :
    vocabulary.callableAt? text = some callable := by
  rw [callable?] at found
  split at found
  · cases found
  · exact found

theorem completeCalls_of_isTrail (insideWord : Bool) :
    completeCalls vocabulary insideWord trail = completeCalls vocabulary false trail := by
  have stops := isTrail.head
  cases trail with
  | nil => rw [completeCalls, completeCalls]
  | cons c rest =>
      have noName : vocabulary.callableAt? (c :: rest) = none :=
        callableAt?_of_isTrail isTrail vocabulary
      rw [completeCalls_cons (.inr noName), completeCalls_cons (.inr noName), Bool.false_and,
        isAlpha_of_isStop (show isStop c = true from stops), Bool.and_false]

/-- Calls are completed in front of a trail. -/
theorem completeCalls_trail (insideWord : Bool) {text : Text} (keeps : text.KeepsGroups trail) :
    completeCalls vocabulary insideWord (text ++ trail) =
      completeCalls vocabulary insideWord text ++ completeCalls vocabulary false trail := by
  cases text with
  | nil =>
      rw [List.nil_append, completeCalls_of_isTrail isTrail, completeCalls.eq_1 vocabulary,
        List.nil_append]
  | cons c rest =>
      rw [List.cons_append, completeCalls_eq, completeCalls_eq, ← List.cons_append,
        callable?_trail isTrail]
      cases found : callable? vocabulary insideWord (c :: rest) with
      | none =>
          have keepsRest := keeps.of_suffix (List.suffix_cons c rest)
          exact congrArg (c :: ·) (completeCalls_trail _ keepsRest)
      | some callable =>
          obtain ⟨function, after⟩ := callable
          have isCallable := callableAt?_of_callable? found
          have taken := Vocabulary.length_lt_of_callableAt? isCallable
          have keepsAfter := keeps.of_suffix (Vocabulary.suffix_of_callableAt? isCallable)
          simp only [Option.map_some, Prod.map_apply, id,
            Application.read?_trail isTrail (some function) keepsAfter]
          cases isRead : Application.read? vocabulary (some function) after with
          | none =>
              simp only [Option.map_none]
              rw [completeCalls_trail false keepsAfter, List.append_assoc]
          | some application =>
              have fits := Application.fitsIn_of_read? isRead
              have behind := Application.suffix_of_read? isRead
              have shorter : application.rest.length < (c :: rest).length := by
                simp only [Application.FitsIn] at fits
                omega
              simp only [Option.map_some, Application.followedBy]
              rw [completeCalls_trail false (keepsAfter.of_suffix behind), List.append_assoc]
termination_by text.length
decreasing_by
  all_goals
    subst_vars
    simp only [List.length_cons] at *
    omega

end Text

end TexCalc
